import Mathlib.Data.List.Induction
import Mathlib.Data.List.Nodup

/-!
# Joining through a dictionary

Items are joined to rows through a dictionary that holds the rows under their keys, a later row
in the place of an earlier one.  If the rows were matched to the items before, the join finds
exactly the matched pairs again when the key of a matched item is its own, no item is matched
twice, and no unmatched row stands in the place of a matched one.
-/

namespace PqMqtt.KeyedJoin

variable {ι κ K : Type*} [DecidableEq K]

/-- The row that a dictionary of the rows holds under a key. -/
def lastWithKey (rowKey : κ → K) (rows : List κ) (k : K) : Option κ :=
  rows.foldl (fun found row ↦ if rowKey row = k then some row else found) none

/-- Every item with the row under its key. -/
def join (itemKey : ι → K) (rowKey : κ → K) (items : List ι) (rows : List κ) : List (ι × κ) :=
  items.filterMap fun item ↦ (lastWithKey rowKey rows (itemKey item)).map (item, ·)

/-! ## The dictionary -/

section Dictionary

variable {rowKey : κ → K}

theorem lastWithKey_concat (rows : List κ) (row : κ) (k : K) :
    lastWithKey rowKey (rows ++ [row]) k =
      if rowKey row = k then some row else lastWithKey rowKey rows k := by
  simp [lastWithKey]

theorem lastWithKey_append (rows later : List κ) (k : K) :
    lastWithKey rowKey (rows ++ later) k =
      (lastWithKey rowKey later k).or (lastWithKey rowKey rows k) := by
  induction later using List.reverseRecOn with
  | nil => simp [lastWithKey]
  | append_singleton later row ih =>
    rw [← List.append_assoc, lastWithKey_concat, lastWithKey_concat, ih]
    split
    · rfl
    · rfl

theorem mem_of_lastWithKey {rows : List κ} {k : K} {row : κ}
    (h : lastWithKey rowKey rows k = some row) : row ∈ rows ∧ rowKey row = k := by
  induction rows using List.reverseRecOn with
  | nil => cases h
  | append_singleton rows last ih =>
    rw [lastWithKey_concat] at h
    split at h
    · rename_i hkey
      obtain rfl := Option.some.inj h
      exact ⟨by simp, hkey⟩
    · obtain ⟨hmem, hkey⟩ := ih h
      exact ⟨List.mem_append_left _ hmem, hkey⟩

theorem exists_lastWithKey (rowKey : κ → K) {rows : List κ} {row : κ} (h : row ∈ rows) :
    ∃ last, lastWithKey rowKey rows (rowKey row) = some last := by
  induction rows using List.reverseRecOn with
  | nil => simp at h
  | append_singleton rows last ih =>
    rw [lastWithKey_concat]
    split
    · exact ⟨last, rfl⟩
    · rename_i hne
      rcases List.mem_append.mp h with hearlier | hlast
      · exact ih hearlier
      · exact absurd (congrArg rowKey (List.mem_singleton.mp hlast)).symm hne

end Dictionary

/-! ## Matched pairs -/

section Matched

variable (itemKey : ι → K) (rowKey : κ → K) (items : List ι) (rows : List κ)
  (matched : κ → Option ι)

/-- A row is matched to an item with its key. -/
def KeysAgree : Prop :=
  ∀ row ∈ rows, ∀ item, matched row = some item → item ∈ items ∧ rowKey row = itemKey item

/-- The join consists of the matched pairs, and no row occurs twice in it. -/
structure Attributed : Prop where
  pairs : ∀ item row, (item, row) ∈ join itemKey rowKey items rows ↔
    row ∈ rows ∧ matched row = some item
  once : ((join itemKey rowKey items rows).map Prod.snd).Nodup

/-- Keys tell the matched pairs from all others. -/
structure Separated : Prop where
  ownKey : ∀ row ∈ rows, ∀ item, matched row = some item →
    ∀ other ∈ items, itemKey other = itemKey item → other = item
  single : ∀ row ∈ rows, ∀ other ∈ rows, ∀ item,
    matched row = some item → matched other = some item → row = other
  covered : ∀ before row after, rows = before ++ row :: after → matched row = none →
    ∀ item ∈ items, itemKey item = rowKey row → ∃ later ∈ after, matched later = some item

variable {itemKey rowKey items rows matched}

theorem mem_join_iff {item : ι} {row : κ} :
    (item, row) ∈ join itemKey rowKey items rows ↔
      item ∈ items ∧ lastWithKey rowKey rows (itemKey item) = some row := by
  unfold join
  rw [List.mem_filterMap]
  constructor
  · intro ⟨other, hother, h⟩
    obtain ⟨found, hfound, heq⟩ := Option.map_eq_some_iff.mp h
    obtain ⟨rfl, rfl⟩ := Prod.mk.inj heq
    exact ⟨hother, hfound⟩
  · intro ⟨hitem, hrow⟩
    exact ⟨item, hitem, by rw [hrow, Option.map_some]⟩

theorem join_nodup (hitems : items.Nodup) : (join itemKey rowKey items rows).Nodup := by
  apply hitems.filterMap
  intro item other pair hitem hother
  obtain ⟨_, -, rfl⟩ := Option.map_eq_some_iff.mp hitem
  obtain ⟨_, -, heq⟩ := Option.map_eq_some_iff.mp hother
  exact (Prod.mk.inj heq).1.symm

theorem separated_of_attributed (hkeys : KeysAgree itemKey rowKey items rows matched)
    (h : Attributed itemKey rowKey items rows matched) :
    Separated itemKey rowKey items rows matched where
  ownKey row hrow item hmatched other hother hsame := by
    obtain ⟨hitem, hkey⟩ := hkeys row hrow item hmatched
    obtain ⟨last, hlast⟩ := exists_lastWithKey rowKey hrow
    have hfirst : (item, last) ∈ join itemKey rowKey items rows :=
      mem_join_iff.mpr ⟨hitem, hkey ▸ hlast⟩
    have hsecond : (other, last) ∈ join itemKey rowKey items rows :=
      mem_join_iff.mpr ⟨hother, by rw [hsame, ← hkey, hlast]⟩
    have hitemMatch := ((h.pairs item last).mp hfirst).2
    have hotherMatch := ((h.pairs other last).mp hsecond).2
    exact Option.some.inj (hotherMatch.symm.trans hitemMatch)
  single row hrow other hother item hmatched hmatched' := by
    have hfirst := (mem_join_iff.mp ((h.pairs item row).mpr ⟨hrow, hmatched⟩)).2
    have hsecond := (mem_join_iff.mp ((h.pairs item other).mpr ⟨hother, hmatched'⟩)).2
    exact Option.some.inj (hfirst.symm.trans hsecond)
  covered before row after hsplit hnone item hitem hkey := by
    have hrow : row ∈ rows := by simp [hsplit]
    obtain ⟨last, hlast⟩ := exists_lastWithKey rowKey hrow
    rw [← hkey] at hlast
    have hmatched := ((h.pairs item last).mp (mem_join_iff.mpr ⟨hitem, hlast⟩)).2
    refine ⟨last, ?_, hmatched⟩
    have hrest : rows = (before ++ [row]) ++ after := by simp [hsplit]
    rw [hrest, lastWithKey_append, lastWithKey_concat, if_pos hkey.symm] at hlast
    cases hafter : lastWithKey rowKey after (itemKey item) with
    | none =>
      rw [hafter, Option.none_or] at hlast
      obtain rfl := Option.some.inj hlast
      rw [hnone] at hmatched
      cases hmatched
    | some found =>
      rw [hafter, Option.some_or] at hlast
      obtain rfl := Option.some.inj hlast
      exact (mem_of_lastWithKey hafter).1

/-- The row that an item is joined to is the one matched to it. -/
theorem matched_of_mem_join (hrows : rows.Nodup)
    (hkeys : KeysAgree itemKey rowKey items rows matched)
    (h : Separated itemKey rowKey items rows matched) {item : ι} {row : κ}
    (hjoin : (item, row) ∈ join itemKey rowKey items rows) :
    row ∈ rows ∧ matched row = some item := by
  obtain ⟨hitem, hlast⟩ := mem_join_iff.mp hjoin
  obtain ⟨hrow, hkey⟩ := mem_of_lastWithKey hlast
  refine ⟨hrow, ?_⟩
  cases hmatched : matched row with
  | some other =>
    have hother := (hkeys row hrow other hmatched).2
    rw [h.ownKey row hrow other hmatched item hitem (hkey.symm.trans hother)]
  | none =>
    -- A later row has the key, so the dictionary does not hold this one.
    obtain ⟨before, after, hsplit⟩ := List.append_of_mem hrow
    obtain ⟨later, hlater, hmatched'⟩ :=
      h.covered before row after hsplit hmatched item hitem hkey.symm
    have hlaterkey := (hkeys later (by simp [hsplit, hlater]) item hmatched').2
    obtain ⟨found, hfound⟩ := exists_lastWithKey rowKey hlater
    have hrest : rows = (before ++ [row]) ++ after := by simp [hsplit]
    rw [hlaterkey] at hfound
    rw [hrest, lastWithKey_append, hfound, Option.some_or] at hlast
    obtain rfl := Option.some.inj hlast
    rw [hsplit] at hrows
    exact absurd (mem_of_lastWithKey hfound).1
      (List.nodup_cons.mp (List.nodup_append.mp hrows).2.1).1

theorem attributed_of_separated (hitems : items.Nodup) (hrows : rows.Nodup)
    (hkeys : KeysAgree itemKey rowKey items rows matched)
    (h : Separated itemKey rowKey items rows matched) :
    Attributed itemKey rowKey items rows matched where
  pairs item row := by
    constructor
    · exact matched_of_mem_join hrows hkeys h
    · intro ⟨hrow, hmatched⟩
      obtain ⟨hitem, hkey⟩ := hkeys row hrow item hmatched
      obtain ⟨last, hlast⟩ := exists_lastWithKey rowKey hrow
      rw [hkey] at hlast
      have hjoin := mem_join_iff.mpr ⟨hitem, hlast⟩
      obtain ⟨hmem, hlastmatched⟩ := matched_of_mem_join hrows hkeys h hjoin
      rwa [h.single row hrow last hmem item hmatched hlastmatched]
  once := by
    apply (join_nodup hitems).map_on
    intro ⟨item, row⟩ hfirst ⟨other, row'⟩ hsecond heq
    obtain rfl : row = row' := heq
    have hitem := (matched_of_mem_join hrows hkeys h hfirst).2
    have hother := (matched_of_mem_join hrows hkeys h hsecond).2
    rw [Option.some.inj (hitem.symm.trans hother)]

/-- The join finds the matched pairs exactly when keys tell them apart. -/
theorem attributed_iff (hitems : items.Nodup) (hrows : rows.Nodup)
    (hkeys : KeysAgree itemKey rowKey items rows matched) :
    Attributed itemKey rowKey items rows matched ↔
      Separated itemKey rowKey items rows matched :=
  ⟨separated_of_attributed hkeys, attributed_of_separated hitems hrows hkeys⟩

end Matched

end PqMqtt.KeyedJoin
