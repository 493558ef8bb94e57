import Mathlib.Algebra.BigOperators.Group.List.Basic
import Mathlib.Algebra.Ring.Nat
import Mathlib.Data.List.Induction
import Mathlib.Data.List.Nodup
import Mathlib.Data.List.Sort

/-!
# Grouping rows and sorting the groups

Rows are collected under their keys as a loop over the rows does it: the groups stand in the order
in which their keys occur first, the rows of a group in the order of the rows.  Sorted by key, the
groups are determined by the rows up to the order within each group, and so is everything that is
computed from each group without regard to that order.
-/

namespace PqMqtt.Grouping

variable {α β κ ρ : Type*}

/-! ## Sorted entries -/

section SortByKey

variable [LinearOrder ρ] (rank : κ → ρ)

/-- Entries in the order of their keys. -/
def sortByKey (entries : List (κ × β)) : List (κ × β) :=
  entries.insertionSort fun first second ↦ rank first.1 ≤ rank second.1

theorem sortByKey_perm (entries : List (κ × β)) : (sortByKey rank entries).Perm entries :=
  List.perm_insertionSort _ _

theorem map_fst_sortByKey (entries : List (κ × β)) :
    (sortByKey rank entries).map Prod.fst =
      (entries.map Prod.fst).insertionSort fun first second ↦ rank first ≤ rank second :=
  List.map_insertionSort _ _ _ _ fun _ _ _ _ ↦ Iff.rfl

/-- Entries are sorted by their keys, whatever stands under the keys. -/
theorem sortByKey_map {γ : Type*} (f : κ → β → γ) (entries : List (κ × β)) :
    sortByKey rank (entries.map fun entry ↦ (entry.1, f entry.1 entry.2)) =
      (sortByKey rank entries).map fun entry ↦ (entry.1, f entry.1 entry.2) :=
  (List.map_insertionSort _ _ (fun entry : κ × β ↦ (entry.1, f entry.1 entry.2)) _
    fun _ _ _ _ ↦ Iff.rfl).symm

/-- Keys of a list and of a permutation of it are sorted alike. -/
theorem insertionSort_keys_eq {keys others : List κ} (hrank : Function.Injective rank)
    (h : keys.Perm others) :
    (keys.insertionSort fun first second ↦ rank first ≤ rank second) =
      others.insertionSort fun first second ↦ rank first ≤ rank second := by
  apply List.map_injective_iff.mpr hrank
  rw [List.map_insertionSort _ (fun first second : ρ ↦ first ≤ second) _ _ fun _ _ _ _ ↦ Iff.rfl,
    List.map_insertionSort _ (fun first second : ρ ↦ first ≤ second) _ _ fun _ _ _ _ ↦ Iff.rfl]
  exact ((List.perm_insertionSort _ _).trans
    ((h.map rank).trans (List.perm_insertionSort _ _).symm)).eq_of_pairwise'
    (List.pairwise_insertionSort _ _) (List.pairwise_insertionSort _ _)

end SortByKey

/-! ## Entries of a dictionary -/

section Lookup

variable [BEq κ] [LawfulBEq κ]

theorem lookup_eq_some_iff_mem {entries : List (κ × β)} (hkeys : (entries.map Prod.fst).Nodup)
    {k : κ} {value : β} : entries.lookup k = some value ↔ (k, value) ∈ entries := by
  induction entries with
  | nil => simp
  | cons entry entries ih =>
    obtain ⟨hnew, hkeys⟩ := List.nodup_cons.mp hkeys
    rw [List.lookup_cons, List.mem_cons, Prod.ext_iff]
    rcases eq_or_ne k entry.1 with rfl | hk
    · have hrest : (entry.1, value) ∉ entries := fun hmem ↦
        hnew (List.mem_map.mpr ⟨_, hmem, rfl⟩)
      simp [hrest, eq_comm]
    · simp [hk, beq_false_of_ne hk, ih hkeys]

/-- What is found under a key does not depend on the order of the entries. -/
theorem lookup_perm {entries others : List (κ × β)} (hkeys : (entries.map Prod.fst).Nodup)
    (h : entries.Perm others) (k : κ) : entries.lookup k = others.lookup k := by
  ext value
  rw [lookup_eq_some_iff_mem hkeys, lookup_eq_some_iff_mem ((h.map _).nodup_iff.mp hkeys),
    h.mem_iff]

end Lookup

/-! ## Groups -/

variable [DecidableEq κ]

/-- The row joins the group of its key, which is a new one if the key has none. -/
def addRow (key : α → κ) (groups : List (κ × List α)) (row : α) : List (κ × List α) :=
  if key row ∈ groups.map Prod.fst then
    groups.map fun group ↦ if group.1 = key row then (group.1, group.2 ++ [row]) else group
  else groups ++ [(key row, [row])]

def groupBy (key : α → κ) (rows : List α) : List (κ × List α) := rows.foldl (addRow key) []

/-- The rows with a key. -/
def withKey (key : α → κ) (rows : List α) (k : κ) : List α := rows.filter fun row ↦ key row = k

section Groups

variable (key : α → κ)

@[simp]
theorem groupBy_nil : groupBy key [] = [] := rfl

theorem groupBy_concat (rows : List α) (row : α) :
    groupBy key (rows ++ [row]) = addRow key (groupBy key rows) row := by
  simp [groupBy]

theorem map_fst_addRow (groups : List (κ × List α)) (row : α) :
    (addRow key groups row).map Prod.fst =
      if key row ∈ groups.map Prod.fst then groups.map Prod.fst
      else groups.map Prod.fst ++ [key row] := by
  unfold addRow
  split
  · rw [List.map_map]
    apply List.map_congr_left
    intro group _
    dsimp only [Function.comp_apply]
    split <;> rfl
  · simp

theorem mem_keys_groupBy {rows : List α} {k : κ} :
    k ∈ (groupBy key rows).map Prod.fst ↔ ∃ row ∈ rows, key row = k := by
  induction rows using List.reverseRecOn with
  | nil => simp
  | append_singleton rows row ih =>
    have hlast : (∃ other ∈ rows ++ [row], key other = k) ↔
        (∃ other ∈ rows, key other = k) ∨ key row = k := by
      simp [or_and_right, exists_or]
    rw [groupBy_concat, map_fst_addRow, hlast, ← ih]
    split
    · rename_i hold
      constructor
      · exact Or.inl
      · intro h
        exact h.elim id fun heq ↦ heq ▸ hold
    · rw [List.mem_append, List.mem_singleton, eq_comm (a := k)]

theorem keys_groupBy_nodup (rows : List α) : ((groupBy key rows).map Prod.fst).Nodup := by
  induction rows using List.reverseRecOn with
  | nil => simp
  | append_singleton rows row ih =>
    rw [groupBy_concat, map_fst_addRow]
    split
    · exact ih
    · rename_i hnew
      rw [← List.concat_eq_append]
      exact ih.concat hnew

/-- A group consists of the rows with its key. -/
theorem eq_withKey_of_mem {rows : List α} {group : κ × List α} (h : group ∈ groupBy key rows) :
    group.2 = withKey key rows group.1 := by
  induction rows using List.reverseRecOn generalizing group with
  | nil => simp at h
  | append_singleton rows row ih =>
    have hsplit : withKey key (rows ++ [row]) group.1
        = withKey key rows group.1 ++ if key row = group.1 then [row] else [] := by
      simp [withKey, List.filter_singleton]
    rw [groupBy_concat, addRow] at h
    rw [hsplit]
    split at h
    · obtain ⟨before, hbefore, rfl⟩ := List.mem_map.mp h
      by_cases hkey : before.1 = key row
      · have hrows := ih hbefore
        rw [hkey] at hrows
        simp [hkey, hrows]
      · simp [hkey, Ne.symm hkey, ← ih hbefore]
    · rename_i hnew
      rcases List.mem_append.mp h with hold | hlast
      · have hne : key row ≠ group.1 := by
          intro heq
          exact hnew (heq ▸ List.mem_map_of_mem (f := Prod.fst) hold)
        rw [if_neg hne, List.append_nil, ih hold]
      · obtain rfl := List.mem_singleton.mp hlast
        have hnone : withKey key rows (key row) = [] := by
          rw [withKey, List.filter_eq_nil_iff]
          intro other hother heq
          exact hnew ((mem_keys_groupBy key).mpr ⟨other, hother, by simpa using heq⟩)
        simp [hnone]

theorem groupBy_eq_map (rows : List α) :
    groupBy key rows =
      ((groupBy key rows).map Prod.fst).map fun k ↦ (k, withKey key rows k) := by
  rw [List.map_map]
  conv_lhs => rw [← List.map_id (groupBy key rows)]
  apply List.map_congr_left
  intro group hgroup
  exact Prod.ext rfl (eq_withKey_of_mem key hgroup)

/-- One of several distinct keys is counted once. -/
theorem sum_map_ite_eq {keys : List κ} (hkeys : keys.Nodup) (k : κ) :
    (keys.map fun other ↦ if k = other then 1 else 0).sum = if k ∈ keys then 1 else 0 := by
  induction keys with
  | nil => rfl
  | cons other keys ih =>
    rw [List.nodup_cons] at hkeys
    rw [List.map_cons, List.sum_cons, ih hkeys.2]
    rcases eq_or_ne k other with rfl | hne
    · simp [hkeys.1]
    · simp [hne]

/-- Rows with one of several distinct keys are counted once, under their key. -/
theorem sum_length_withKey {keys : List κ} (hkeys : keys.Nodup) (rows : List α) :
    (keys.map fun k ↦ (withKey key rows k).length).sum =
      (rows.filter fun row ↦ key row ∈ keys).length := by
  induction rows with
  | nil => simp [withKey]
  | cons row rows ih =>
    have hhead (k : κ) : (withKey key (row :: rows) k).length
        = (if key row = k then 1 else 0) + (withKey key rows k).length := by
      unfold withKey
      by_cases h : key row = k
      · simp [h, Nat.add_comm]
      · simp [h]
    simp only [hhead, List.sum_map_add, sum_map_ite_eq hkeys, ih]
    by_cases h : key row ∈ keys
    · simp [h, Nat.add_comm]
    · simp [h]

/-- The groups of distinct keys hold the rows with these keys, each once. -/
theorem flatMap_withKey_perm {keys : List κ} (hkeys : keys.Nodup) (rows : List α) :
    (keys.flatMap (withKey key rows)).Perm (rows.filter fun row ↦ key row ∈ keys) := by
  induction keys with
  | nil => simp
  | cons k keys ih =>
    rw [List.nodup_cons] at hkeys
    have hhere : (rows.filter fun row ↦ key row ∈ k :: keys).filter (fun row ↦ key row = k)
        = withKey key rows k := by
      rw [List.filter_filter]
      apply List.filter_congr
      intro row _
      by_cases h : key row = k <;> simp [h]
    have hthere : ((rows.filter fun row ↦ key row ∈ k :: keys).filter
        fun row ↦ !decide (key row = k)) = rows.filter fun row ↦ key row ∈ keys := by
      rw [List.filter_filter]
      apply List.filter_congr
      intro row _
      by_cases h : key row = k
      · simp [h, hkeys.1]
      · simp [h]
    rw [List.flatMap_cons]
    apply ((ih hkeys.2).append_left (withKey key rows k)).trans
    rw [← hhere, ← hthere]
    exact List.filter_append_perm _ _

/-- A sum over the groups of distinct keys is the sum over the rows with these keys. -/
theorem sum_map_withKey {M : Type*} [AddCommMonoid M] {keys : List κ} (hkeys : keys.Nodup)
    {select : α → Bool} (hselect : ∀ row, select row = true ↔ key row ∈ keys) (rows : List α)
    (value : α → M) :
    (keys.map fun k ↦ ((withKey key rows k).map value).sum).sum =
      ((rows.filter select).map value).sum := by
  have hfilter : rows.filter select = rows.filter fun row ↦ key row ∈ keys := by
    apply List.filter_congr
    intro row _
    rw [Bool.eq_iff_iff, hselect, decide_eq_true_iff]
  rw [hfilter, ← ((flatMap_withKey_perm key hkeys rows).map value).sum_eq, List.map_flatMap,
    List.flatMap_def, List.sum_flatten, List.map_map]
  rfl

/-- The groups whose keys are selected hold the rows whose keys are selected, each once. -/
theorem sum_length_filter_groupBy (rows : List α) (select : κ → Bool) :
    (((groupBy key rows).filter fun group ↦ select group.1).map fun group ↦ group.2.length).sum =
      (rows.filter fun row ↦ select (key row)).length := by
  rw [groupBy_eq_map, List.filter_map, List.map_map]
  have hkeys := (keys_groupBy_nodup key rows).filter select
  calc _ = ((((groupBy key rows).map Prod.fst).filter select).map
        fun k ↦ (withKey key rows k).length).sum := rfl
    _ = _ := by
      rw [sum_length_withKey key hkeys]
      congr 1
      apply List.filter_congr
      intro row hrow
      have hmem := (mem_keys_groupBy key (k := key row)).mpr ⟨row, hrow, rfl⟩
      simp [hmem]

/-- Every row is in exactly one group. -/
theorem sum_length_groupBy (rows : List α) :
    ((groupBy key rows).map fun group ↦ group.2.length).sum = rows.length := by
  simpa using sum_length_filter_groupBy key rows fun _ ↦ true

theorem keys_groupBy_perm {rows others : List α} (h : rows.Perm others) :
    ((groupBy key rows).map Prod.fst).Perm ((groupBy key others).map Prod.fst) := by
  rw [List.perm_ext_iff_of_nodup (keys_groupBy_nodup key rows) (keys_groupBy_nodup key others)]
  intro k
  rw [mem_keys_groupBy, mem_keys_groupBy]
  exact exists_congr fun row ↦ and_congr_left fun _ ↦ h.mem_iff

theorem withKey_perm {rows others : List α} (h : rows.Perm others) (k : κ) :
    (withKey key rows k).Perm (withKey key others k) := h.filter _

end Groups

/-! ## Interleavings -/

section Interleavings

/-- The rows of every key stand in one order in both lists. -/
def SameWithin (key : α → κ) (rows others : List α) : Prop :=
  ∀ k, withKey key rows k = withKey key others k

variable {key : α → κ} {rows others : List α}

/-- Neighbours with different keys may change places. -/
theorem sameWithin_swap {first second : α} (hne : key first ≠ key second) (before after : List α) :
    SameWithin key (before ++ first :: second :: after) (before ++ second :: first :: after) := by
  intro k
  unfold withKey
  rw [List.filter_append, List.filter_append]
  congr 1
  by_cases hfirst : key first = k
  · have hsecond : key second ≠ k := fun h ↦ hne (hfirst.trans h.symm)
    simp [hfirst, hsecond]
  · simp [List.filter_cons, hfirst]

theorem SameWithin.perm (h : SameWithin key rows others) : rows.Perm others := by
  classical
  apply List.perm_iff_count.mpr
  intro row
  have hcount (items : List α) : items.count row = (withKey key items (key row)).count row :=
    (List.count_filter (by simp)).symm
  rw [hcount rows, hcount others, h (key row)]

theorem SameWithin.filter (h : SameWithin key rows others) (p : α → Bool) :
    SameWithin key (rows.filter p) (others.filter p) := by
  intro k
  unfold withKey
  rw [List.filter_comm _ _ rows, List.filter_comm _ _ others]
  exact congrArg (List.filter p) (h k)

/-- Both lists have the same groups. -/
theorem SameWithin.groupBy_perm (h : SameWithin key rows others) :
    (groupBy key rows).Perm (groupBy key others) := by
  have hgroups : (groupBy key others)
      = ((groupBy key others).map Prod.fst).map fun k ↦ (k, withKey key rows k) := by
    rw [funext h]
    exact groupBy_eq_map key others
  rw [groupBy_eq_map key rows, hgroups]
  exact (keys_groupBy_perm key h.perm).map _

end Interleavings

/-! ## Groups in the order of their keys -/

section Sorted

variable [LinearOrder ρ] (rank : κ → ρ)

/-- The sorted groups are the sorted keys with their rows. -/
theorem sortByKey_groupBy (key : α → κ) (rows : List α) :
    sortByKey rank (groupBy key rows) =
      ((sortByKey rank (groupBy key rows)).map Prod.fst).map
        fun k ↦ (k, withKey key rows k) := by
  rw [List.map_map]
  conv_lhs => rw [← List.map_id (sortByKey rank (groupBy key rows))]
  apply List.map_congr_left
  intro group hgroup
  exact Prod.ext rfl (eq_withKey_of_mem key ((sortByKey_perm rank _).mem_iff.mp hgroup))

/-- What is computed from each group without regard to the order of its rows is the same for
every order of the rows. -/
theorem map_sortByKey_groupBy_perm (hrank : Function.Injective rank) {key : α → κ}
    {γ : Type*} {f : κ × List α → γ} {rows others : List α} (h : rows.Perm others)
    (hf : ∀ k, f (k, withKey key rows k) = f (k, withKey key others k)) :
    (sortByKey rank (groupBy key rows)).map f = (sortByKey rank (groupBy key others)).map f := by
  have hkeys : (sortByKey rank (groupBy key rows)).map Prod.fst
      = (sortByKey rank (groupBy key others)).map Prod.fst := by
    rw [map_fst_sortByKey, map_fst_sortByKey]
    exact insertionSort_keys_eq rank hrank (keys_groupBy_perm key h)
  rw [sortByKey_groupBy rank key rows, sortByKey_groupBy rank key others, hkeys,
    List.map_map (f := fun k ↦ (k, withKey key rows k)), List.map_map (f := fun k ↦ (k, _))]
  exact List.map_congr_left fun k _ ↦ hf k

end Sorted

end PqMqtt.Grouping
