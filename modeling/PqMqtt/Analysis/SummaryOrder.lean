import Mathlib.Data.List.ReduceOption
import PqMqtt.Analysis.DerivedSummary
import PqMqtt.Analysis.RowReading

/-!
# Summaries and the order of the attempts

The summaries depend on the multiset of the rows, as long as no successful attempt has a latency
that is not a number: `sorted` leaves such a value where it stands, and what is read at a fixed
position of the list changes with it.  Numbers are values, so the zeros of both signs are one.
Every row is counted once, whatever its values are.
-/

namespace PqMqtt.Analysis

open Binary64 Grouping

/-! ## Loops over permuted lists -/

/-- A loop over the values of a function depends on these values only. -/
theorem mapM_eq_of_map_eq {α β γ : Type} {f : α → Except PyError γ} {g : β → Except PyError γ}
    {items : List α} {others : List β} (h : items.map f = others.map g) :
    items.mapM f = others.mapM g := by
  calc items.mapM f = (items.map f).mapM id := by
        rw [List.mapM_map]
        rfl
    _ = (others.map g).mapM id := by rw [h]
    _ = others.mapM g := by
        rw [List.mapM_map]
        rfl

/-- The results of two loops over permuted lists, of which nothing but overflows is raised. -/
def SameResults {β : Type} (first second : Except PyError (List β)) : Prop :=
  (∃ results more, first = .ok results ∧ second = .ok more ∧ results.Perm more) ∨
    first = .error .overflowError ∧ second = .error .overflowError

theorem SameResults.trans {β : Type} {first second third : Except PyError (List β)}
    (h : SameResults first second) (h' : SameResults second third) : SameResults first third := by
  rcases h with ⟨results, more, rfl, rfl, hperm⟩ | ⟨rfl, rfl⟩
  · rcases h' with ⟨_, last, heq, rfl, hperm'⟩ | ⟨heq, -⟩
    · obtain rfl := Except.ok.inj heq
      exact Or.inl ⟨results, last, rfl, rfl, hperm.trans hperm'⟩
    · cases heq
  · rcases h' with ⟨_, _, heq, -, -⟩ | ⟨-, rfl⟩
    · cases heq
    · exact Or.inr ⟨rfl, rfl⟩

theorem onlyOverflows_mapM {α β : Type} {f : α → Except PyError β}
    (hf : ∀ a, Number.OnlyOverflows (f a)) (items : List α) :
    Number.OnlyOverflows (items.mapM f) := by
  induction items with
  | nil => exact .ok _
  | cons a items ih =>
    rw [List.mapM_cons]
    exact (hf a).bind fun value ↦ ih.bind fun results ↦ .ok _

/-- When only overflows are raised, the results of a permuted list are the permuted results. -/
theorem mapM_perm {α β : Type} {f : α → Except PyError β} (hf : ∀ a, Number.OnlyOverflows (f a))
    {items others : List α} (h : items.Perm others) :
    SameResults (items.mapM f) (others.mapM f) := by
  induction h with
  | nil => exact Or.inl ⟨[], [], rfl, rfl, .nil⟩
  | cons a _ ih =>
    simp only [List.mapM_cons]
    cases ha : f a with
    | error error =>
      obtain rfl := hf a error ha
      exact Or.inr ⟨rfl, rfl⟩
    | ok value =>
      rcases ih with ⟨results, more, hresults, hmore, hperm⟩ | ⟨hresults, hmore⟩
      · rw [hresults, hmore]
        exact Or.inl ⟨value :: results, value :: more, rfl, rfl, hperm.cons value⟩
      · rw [hresults, hmore]
        exact Or.inr ⟨rfl, rfl⟩
  | swap a b items =>
    simp only [List.mapM_cons]
    cases ha : f a with
    | error error =>
      obtain rfl := hf a error ha
      cases hb : f b with
      | error error =>
        obtain rfl := hf b error hb
        exact Or.inr ⟨rfl, rfl⟩
      | ok other => exact Or.inr ⟨rfl, rfl⟩
    | ok value =>
      cases hb : f b with
      | error error =>
        obtain rfl := hf b error hb
        exact Or.inr ⟨rfl, rfl⟩
      | ok other =>
        cases hrest : items.mapM f with
        | error error =>
          obtain rfl := onlyOverflows_mapM hf items error hrest
          exact Or.inr ⟨rfl, rfl⟩
        | ok results =>
          exact Or.inl ⟨other :: value :: results, value :: other :: results, rfl, rfl, .swap ..⟩
  | trans _ _ ih ih' => exact ih.trans ih'

/-! ## What a group is summarized to -/

/-- No latency of the metrics fails to be a number in a successful attempt. -/
def NumericLatencies (metrics : List String) (rows : List NormalizedRow) : Prop :=
  ∀ row ∈ rows, row.success = true → ∀ metric ∈ metrics, row.latency metric ≠ .nan

theorem NumericLatencies.subset {metrics : List String} {rows group : List NormalizedRow}
    (h : NumericLatencies metrics rows) (hsub : group ⊆ rows) : NumericLatencies metrics group :=
  fun row hrow ↦ h row (hsub hrow)

theorem NumericLatencies.ne_nan {metrics : List String} {rows : List NormalizedRow}
    (h : NumericLatencies metrics rows) {metric : String} (hmetric : metric ∈ metrics) :
    ∀ row ∈ successful rows, row.latency metric ≠ .nan := by
  intro row hrow
  obtain ⟨hmem, hsuccess⟩ := List.mem_filter.mp hrow
  exact h row hmem hsuccess metric hmetric

theorem maxOf_perm {values others : List ℤ} (h : values.Perm others) :
    maxOf values = maxOf others := by
  have hmax : values.max? = others.max? := by
    ext a
    simp only [List.max?_eq_some_iff, h.mem_iff]
  rw [maxOf, maxOf, hmax]

theorem minOf_perm {values others : List ℤ} (h : values.Perm others) :
    minOf values = minOf others := by
  have hmin : values.min? = others.min? := by
    ext a
    simp only [List.min?_eq_some_iff, h.mem_iff]
  rw [minOf, minOf, hmin]

theorem medianOf_perm {values others : List ℤ} (h : values.Perm others) :
    medianOf values = medianOf others := by
  have hempty : values = [] ↔ others = [] := by
    rw [← List.length_eq_zero_iff, ← List.length_eq_zero_iff, h.length_eq]
  simp only [medianOf, hempty, sorted_map_int_perm h]

theorem formatD_injective : Function.Injective formatD := by
  have hunsigned (m n : ℕ) (h : formatU m = formatU n) : m = n := by
    rw [← ofDigitChars_formatU m, h, ofDigitChars_formatU]
  have hminus (m n : ℕ) : formatU m ≠ '-' :: formatU n := by
    intro h
    have hdigit := formatU_isDigit m '-' (by simp [h])
    exact absurd hdigit (by decide)
  intro m n h
  unfold formatD at h
  split at h <;> split at h
  · have habs := hunsigned _ _ (List.cons.inj h).2
    omega
  · exact absurd h.symm (hminus _ _)
  · exact absurd h (hminus _ _)
  · have habs := hunsigned _ _ h
    omega

/-- Campaigns that are printed alike are the same. -/
theorem Campaign.text_injective : Function.Injective Campaign.text := by
  have hne (value : ℤ) (text : Text) (h : isDigits (text.dropWhile (· = '-')) = false) :
      formatD value ≠ text := by
    rintro rfl
    rw [isDigits_formatD] at h
    exact absurd h (by decide)
  intro first second h
  cases first with
  | number value =>
    cases second with
    | number other => rw [formatD_injective h]
    | name text hdigits => exact absurd h (hne value text hdigits)
  | name text hdigits =>
    cases second with
    | number other => exact absurd h.symm (hne other text hdigits)
    | name other _ =>
      obtain rfl : text = other := h
      rfl

theorem campaignRank_injective : Function.Injective campaignRank := by
  intro first second h
  obtain ⟨hscheme, hrest⟩ := Prod.mk.inj (toLex.injective h)
  obtain ⟨hboard, htext⟩ := Prod.mk.inj (toLex.injective hrest)
  exact Prod.ext hscheme (Prod.ext hboard (Campaign.text_injective htext))

section Congr

variable {group other : List NormalizedRow}

theorem successful_perm (h : group.Perm other) : (successful group).Perm (successful other) :=
  h.filter _

theorem successRate_perm (h : group.Perm other) : successRate group = successRate other := by
  rw [successRate, successRate, h.length_eq, (successful_perm h).length_eq]

/-- The stages of the failed rows. -/
def failedStages (group : List NormalizedRow) : List Text :=
  (group.filter fun row ↦ !row.success).map (·.failureStage)

theorem failureCounts_eq (group : List NormalizedRow) :
    failureCounts group =
      (sortByKey id (groupBy id (failedStages group))).map fun stage ↦
        (stage.1, stage.2.length) :=
  sortByKey_map id (fun (_ : Text) (rows : List Text) ↦ rows.length) _

theorem failureCounts_perm (h : group.Perm other) : failureCounts group = failureCounts other := by
  have hstages : (failedStages group).Perm (failedStages other) := (h.filter _).map _
  rw [failureCounts_eq, failureCounts_eq]
  exact map_sortByKey_groupBy_perm id Function.injective_id hstages fun k ↦ by
    rw [(withKey_perm id hstages k).length_eq]

theorem overviewRow_perm (h : group.Perm other) (key : GroupKey) :
    overviewRow (key, group) = overviewRow (key, other) := by
  simp only [overviewRow, h.length_eq, (successful_perm h).length_eq, h.countP_eq,
    successRate_perm h, failureCounts_perm h, h.any_eq]

/-- Latencies that are numbers are sorted alike. -/
theorem sorted_latencies_perm (h : group.Perm other) {metric : String}
    (hnan : ∀ row ∈ group, row.latency metric ≠ .nan) :
    sorted (latencies metric group) = sorted (latencies metric other) := by
  apply sorted_map_float_perm (h.map _)
  rw [List.mem_map]
  rintro ⟨row, hrow, heq⟩
  exact hnan row hrow heq

theorem campaignRow_perm (h : group.Perm other) (hnan : NumericLatencies ["total_ms"] group)
    (key : CampaignKey) : campaignRow (key, group) = campaignRow (key, other) := by
  have hsuccess := successful_perm h
  have hempty : successful group = [] ↔ successful other = [] := by
    rw [← List.length_eq_zero_iff, ← List.length_eq_zero_iff, hsuccess.length_eq]
  have htotal := hnan.ne_nan (List.mem_singleton_self _)
  have hmedian : medianTotalMs (successful group) = medianTotalMs (successful other) := by
    unfold medianTotalMs
    rw [robustStats_congr (sorted_latencies_perm hsuccess htotal)]
    simp only [hempty]
  simp only [campaignRow, hmedian, h.length_eq, hsuccess.length_eq, successRate_perm h]

theorem latencyRows_perm (h : group.Perm other)
    (hnan : ∀ row ∈ group, ∀ metric ∈ latencyFields, row.latency metric ≠ .nan) (key : GroupKey) :
    latencyRows (key, group) = latencyRows (key, other) := by
  apply mapM_eq_of_map_eq
  apply List.map_congr_left
  intro metric hmetric
  rw [robustStats_congr (sorted_latencies_perm h fun row hrow ↦ hnan row hrow metric hmetric)]

theorem memoryTrafficRow_perm (h : group.Perm other) (key : GroupKey) :
    memoryTrafficRow (key, group) = memoryTrafficRow (key, other) := by
  have hsuccess := successful_perm h
  simp only [memoryTrafficRow, medianOf_perm (hsuccess.map _), maxOf_perm (h.map _),
    minOf_perm (h.map _), minOf_perm ((h.map (·.integer "free_before_tls_bytes")).filter (0 < ·)),
    (h.map (·.integer "failed_allocations")).sum_eq, h.countP_eq]

theorem baseEntry_perm (h : group.Perm other) (hnan : NumericLatencies ["total_ms"] group)
    (key : GroupKey) : baseEntry (key, group) = baseEntry (key, other) := by
  have hsuccess := successful_perm h
  have hempty : successful group = [] ↔ successful other = [] := by
    rw [← List.length_eq_zero_iff, ← List.length_eq_zero_iff, hsuccess.length_eq]
  have htotal := hnan.ne_nan (List.mem_singleton_self _)
  simp only [baseEntry, sorted_latencies_perm hsuccess htotal, medianOf_perm (hsuccess.map _),
    maxOf_perm (hsuccess.map _), minOf_perm (hsuccess.map _), hempty]

theorem derivedRow_perm (h : group.Perm other) (resources : List (GroupKey × Dict Text))
    (base : List (GroupKey × Base)) (key : GroupKey) :
    derivedRow resources base (key, group) = derivedRow resources base (key, other) := by
  have hsuccess := successful_perm h
  have hempty : (successful group).isEmpty = (successful other).isEmpty := by
    rw [Bool.eq_iff_iff, List.isEmpty_iff_length_eq_zero, List.isEmpty_iff_length_eq_zero,
      hsuccess.length_eq]
  simp only [derivedRow, maxOf_perm (h.map _), minOf_perm (h.map _), h.length_eq,
    hsuccess.length_eq, hempty, successRate_perm h]

end Congr

/-! ## What the successful attempts are compared by -/

/-- The entries that a loop finds have the keys of their items. -/
theorem keys_reduceOption_sublist {α β κ : Type} {f : α → Except PyError (Option (κ × β))}
    {key : α → κ} (hf : ∀ a entry, f a = .ok (some entry) → entry.1 = key a) {items : List α}
    {results : List (Option (κ × β))} (h : items.mapM f = .ok results) :
    (results.reduceOption.map Prod.fst).Sublist (items.map key) := by
  induction items generalizing results with
  | nil =>
    obtain rfl : [] = results := Except.ok.inj h
    rfl
  | cons a items ih =>
    rw [List.mapM_cons] at h
    obtain ⟨result, hresult, h⟩ := bind_eq_ok_iff.mp h
    obtain ⟨rest, hrest, h⟩ := bind_eq_ok_iff.mp h
    obtain rfl : result :: rest = results := Except.ok.inj h
    cases result with
    | none =>
      rw [List.reduceOption_cons_of_none]
      exact (ih hrest).cons (key a)
    | some entry =>
      rw [List.reduceOption_cons_of_some, List.map_cons, hf a entry hresult]
      exact (ih hrest).cons_cons (key a)

theorem onlyOverflows_medianOf (values : List ℤ) : Number.OnlyOverflows (medianOf values) := by
  unfold medianOf
  split
  · exact .ok _
  · exact onlyOverflows_quantile _ _

theorem onlyOverflows_baseEntry (entry : GroupKey × List NormalizedRow) :
    Number.OnlyOverflows (baseEntry entry) := by
  unfold baseEntry
  dsimp only
  split
  · exact .ok _
  · exact (onlyOverflows_quantile _ _).bind fun latency ↦
      (onlyOverflows_medianOf _).bind fun traffic ↦ .ok _

theorem key_baseEntry {entry : GroupKey × List NormalizedRow} {result : GroupKey × Base}
    (h : baseEntry entry = .ok (some result)) : result.1 = entry.1 := by
  unfold baseEntry at h
  dsimp only at h
  split at h
  · cases h
  · obtain ⟨latency, -, h⟩ := bind_eq_ok_iff.mp h
    obtain ⟨traffic, -, h⟩ := bind_eq_ok_iff.mp h
    obtain rfl := Option.some.inj (Except.ok.inj h)
    rfl

/-- One entry for each group that has one. -/
theorem nodup_keys_base {rows : List NormalizedRow} {base : List (Option (GroupKey × Base))}
    (h : (groupBy NormalizedRow.key rows).mapM baseEntry = .ok base) :
    (base.reduceOption.map Prod.fst).Nodup :=
  (keys_groupBy_nodup _ rows).sublist
    (keys_reduceOption_sublist (fun _ _ hentry ↦ key_baseEntry hentry) h)

section Base

variable {rows others : List NormalizedRow}

theorem mapM_groupBy (f : GroupKey × List NormalizedRow → Except PyError (Option (GroupKey × Base)))
    (rows : List NormalizedRow) :
    (groupBy NormalizedRow.key rows).mapM f =
      ((groupBy NormalizedRow.key rows).map Prod.fst).mapM fun key ↦
        f (key, withKey NormalizedRow.key rows key) := by
  conv_lhs => rw [groupBy_eq_map, List.mapM_map]
  rfl

theorem sameResults_base (h : rows.Perm others) (hnan : NumericLatencies ["total_ms"] rows) :
    SameResults ((groupBy NormalizedRow.key rows).mapM baseEntry)
      ((groupBy NormalizedRow.key others).mapM baseEntry) := by
  have hgroup (key : GroupKey) : baseEntry (key, withKey NormalizedRow.key others key)
      = baseEntry (key, withKey NormalizedRow.key rows key) :=
    (baseEntry_perm (withKey_perm _ h key) (hnan.subset (List.filter_subset_self _)) key).symm
  rw [mapM_groupBy, mapM_groupBy, funext hgroup]
  exact mapM_perm (fun key ↦ onlyOverflows_baseEntry _) (keys_groupBy_perm _ h)

variable {base more : List (GroupKey × Base)}

/-- A group is compared with others through what is found under their keys. -/
theorem derivedRow_base_perm (hkeys : (base.map Prod.fst).Nodup) (h : base.Perm more)
    (resources : List (GroupKey × Dict Text)) (entry : GroupKey × List NormalizedRow) :
    derivedRow resources base entry = derivedRow resources more entry := by
  unfold derivedRow
  simp only [lookup_perm hkeys h]

theorem frontier_perm (h : base.Perm more) (board : Text) (key : GroupKey) :
    key ∈ frontier base board ↔ key ∈ frontier more board := by
  have hcandidates := h.filter fun entry ↦ entry.1.2 = board
  have hdominated (candidate : GroupKey × Base) :
      dominated (base.filter fun entry ↦ entry.1.2 = board) candidate
        = dominated (more.filter fun entry ↦ entry.1.2 = board) candidate :=
    hcandidates.any_eq
  unfold frontier
  simp only [hdominated]
  exact ((hcandidates.filter _).map _).mem_iff

end Base

/-! ## Labels -/

theorem board_of_mem_frontier {base : List (GroupKey × Base)} {board : Text} {key : GroupKey}
    (h : key ∈ frontier base board) : key.2 = board := by
  obtain ⟨candidate, hcandidate, rfl⟩ := List.mem_map.mp h
  obtain ⟨hmem, -⟩ := List.mem_filter.mp hcandidate
  simpa using (List.mem_filter.mp hmem).2

/-- Rows of other boards are left alone, those of the board are labelled. -/
theorem labelBoard_eq (base : List (GroupKey × Base)) (output : List DerivedRow) (board : Text) :
    labelBoard base output board =
      output.map fun row ↦ if row.board = board then labelled base row else row := by
  apply List.map_congr_left
  intro row _
  by_cases hboard : row.board = board
  · subst hboard
    unfold labelled
    split <;> simp
  · have hother : row.key ∉ frontier base board := fun h ↦ hboard (board_of_mem_frontier h)
    rw [if_neg hother, if_neg hboard, if_neg hboard]

theorem foldl_labelBoard (base : List (GroupKey × Base)) (boards : List Text)
    (output : List DerivedRow) :
    boards.foldl (labelBoard base) output =
      output.map fun row ↦ if row.board ∈ boards then labelled base row else row := by
  induction boards generalizing output with
  | nil => simp
  | cons board boards ih =>
    rw [List.foldl_cons, ih, labelBoard_eq, List.map_map]
    apply List.map_congr_left
    intro row _
    have htwice : labelled base (labelled base row) = labelled base row := rfl
    have hboard : (labelled base row).board = row.board := rfl
    dsimp only [Function.comp_apply]
    by_cases hhead : row.board = board
    · rw [if_pos hhead, hboard, htwice, ite_self, if_pos (hhead ▸ List.mem_cons_self ..)]
    · simp [hhead]

/-- Whatever the order of the boards is, every row gets the label of its own board. -/
theorem labelPareto_eq (order : SetOrder) (base : List (GroupKey × Base))
    (output : List DerivedRow) : labelPareto order base output = output.map (labelled base) := by
  unfold labelPareto
  rw [foldl_labelBoard]
  apply List.map_congr_left
  intro row hrow
  have hmem : row.board ∈ order.list (output.map DerivedRow.board) := by
    rw [(order.perm _).mem_iff, List.mem_dedup]
    exact List.mem_map_of_mem hrow
  rw [if_pos hmem]

theorem finishDerived_perm {base more : List (GroupKey × Base)} (h : base.Perm more)
    (order another : SetOrder) (resources : List (GroupKey × Dict Text))
    (statusRows : List (Dict Text)) (output : List DerivedRow) :
    finishDerived order base resources statusRows output =
      finishDerived another more resources statusRows output := by
  have hlabels : labelPareto order base output = labelPareto another more output := by
    rw [labelPareto_eq, labelPareto_eq]
    apply List.map_congr_left
    intro row _
    simp only [labelled, frontier_perm h]
  unfold finishDerived
  rw [hlabels]

/-! ## After the labels -/

/-- The row with what the build results say. -/
def DerivedRow.report (row : DerivedRow) (build : String) (reason : Text) : DerivedRow :=
  { row with firmwareBuild := build, buildReason := reason }

/-- The row with the sizes of its firmware. -/
def DerivedRow.size (row : DerivedRow) (flash staticRam stackReserved : Number) : DerivedRow :=
  { row with
    flashBytes := flash, staticRamBytes := staticRam, stackReservedBytes := stackReserved }

section View

variable {γ : Type} {view : DerivedRow → γ}

theorem map_updateRow {change : DerivedRow → DerivedRow}
    (hchange : ∀ row, view (change row) = view row) (output : List DerivedRow) (key : GroupKey) :
    (updateRow output key change).map view = output.map view := by
  rw [updateRow, List.map_map]
  apply List.map_congr_left
  intro row _
  dsimp only [Function.comp_apply]
  split
  · exact hchange row
  · rfl

variable (hreport : ∀ row build reason, view (DerivedRow.report row build reason) = view row)

include hreport

/-- One entry of the build results adds at most a row, for a target that has none. -/
theorem map_applyStatus (byKey : List GroupKey) (output : List DerivedRow)
    (entry : GroupKey × List (GroupKey × Dict Text)) :
    ∃ extra : List DerivedRow,
      (applyStatus byKey output entry).map view = (output ++ extra).map view ∧
        ∀ row ∈ extra, row.key ∉ byKey := by
  unfold applyStatus
  dsimp only
  split
  · refine ⟨[], ?_, by simp⟩
    rw [List.append_nil]
    apply map_updateRow
    intro row
    exact hreport row _ _
  · rename_i hnew
    refine ⟨[unattemptedRow entry.1 _ _], rfl, ?_⟩
    intro row hrow
    rw [List.mem_singleton.mp hrow]
    exact hnew

theorem map_foldl_applyStatus (byKey : List GroupKey)
    (entries : List (GroupKey × List (GroupKey × Dict Text))) (output : List DerivedRow) :
    ∃ extra : List DerivedRow,
      (entries.foldl (applyStatus byKey) output).map view = (output ++ extra).map view ∧
        ∀ row ∈ extra, row.key ∉ byKey := by
  induction entries generalizing output with
  | nil => exact ⟨[], by rw [List.append_nil]; rfl, by simp⟩
  | cons entry entries ih =>
    obtain ⟨first, hfirst, hfirstnew⟩ := map_applyStatus hreport byKey output entry
    obtain ⟨rest, hrest, hrestnew⟩ := ih (applyStatus byKey output entry)
    refine ⟨first ++ rest, ?_, fun row hrow ↦ ?_⟩
    · rw [List.foldl_cons, hrest, List.map_append, hfirst, ← List.map_append, List.append_assoc]
    · exact (List.mem_append.mp hrow).elim (hfirstnew row) (hrestnew row)

omit hreport

variable (hsize : ∀ row flash staticRam stackReserved,
  view (DerivedRow.size row flash staticRam stackReserved) = view row)

include hsize

theorem map_applyResource {byKey : List GroupKey} {output result : List DerivedRow}
    {entry : GroupKey × Dict Text} (h : applyResource byKey output entry = .ok result) :
    result.map view = output.map view := by
  unfold applyResource at h
  split at h
  · obtain rfl := Except.ok.inj h
    rfl
  · obtain ⟨flash, -, h⟩ := bind_eq_ok_iff.mp h
    obtain ⟨staticRam, -, h⟩ := bind_eq_ok_iff.mp h
    obtain ⟨stackReserved, -, h⟩ := bind_eq_ok_iff.mp h
    obtain rfl := Except.ok.inj h
    apply map_updateRow
    intro row
    exact hsize row _ _ _

theorem map_foldlM_applyResource {byKey : List GroupKey} {entries : List (GroupKey × Dict Text)}
    {output result : List DerivedRow}
    (h : entries.foldlM (applyResource byKey) output = .ok result) :
    result.map view = output.map view := by
  induction entries generalizing output with
  | nil =>
    obtain rfl := Except.ok.inj h
    rfl
  | cons entry entries ih =>
    obtain ⟨next, hnext, h⟩ := bind_eq_ok_iff.mp h
    exact (ih h).trans (map_applyResource hsize hnext)

include hreport

/-- What build results and sizes do not touch is that of the labelled rows, and of rows for targets
that have no attempts. -/
theorem map_finishDerived_labels {order : SetOrder} {base : List (GroupKey × Base)}
    {resources : List (GroupKey × Dict Text)} {statusRows : List (Dict Text)}
    {output result : List DerivedRow}
    (h : finishDerived order base resources statusRows output = .ok result) :
    ∃ extra : List DerivedRow,
      (result.map view).Perm ((labelPareto order base output ++ extra).map view) ∧
        ∀ row ∈ extra, row.key ∉ output.map DerivedRow.key := by
  obtain ⟨statuses, -, h⟩ := bind_eq_ok_iff.mp h
  obtain ⟨sized, hsized, h⟩ := bind_eq_ok_iff.mp h
  obtain rfl := Except.ok.inj h
  obtain ⟨extra, hextra, hnew⟩ := map_foldl_applyStatus hreport
    ((labelPareto order base output).map DerivedRow.key)
    (sortGroups (groupBy Prod.fst statuses.reduceOption)) (labelPareto order base output)
  have hkeys : (labelPareto order base output).map DerivedRow.key
      = output.map DerivedRow.key := by
    rw [labelPareto_eq, List.map_map]
    rfl
  rw [hkeys] at hnew
  refine ⟨extra, ?_, hnew⟩
  rw [← hextra, ← map_foldlM_applyResource hsize hsized]
  exact (List.perm_insertionSort _ _).map view

end View

/-! ## The summaries -/

section Summaries

variable {rows others : List NormalizedRow}

theorem summarize_perm (h : rows.Perm others) (hnan : NumericLatencies ["total_ms"] rows) :
    summarize rows = summarize others := by
  have hoverview : (sortGroups (groupBy NormalizedRow.key rows)).map overviewRow
      = (sortGroups (groupBy NormalizedRow.key others)).map overviewRow :=
    map_sortByKey_groupBy_perm toLex toLex.injective h fun key ↦
      overviewRow_perm (withKey_perm _ h key) key
  have hcampaigns : (sortByKey campaignRank (groupBy NormalizedRow.campaignKey rows)).mapM
        campaignRow
      = (sortByKey campaignRank (groupBy NormalizedRow.campaignKey others)).mapM campaignRow := by
    apply mapM_eq_of_map_eq
    exact map_sortByKey_groupBy_perm campaignRank campaignRank_injective h fun key ↦
      campaignRow_perm (withKey_perm _ h key) (hnan.subset (List.filter_subset_self _)) key
  unfold summarize
  rw [hoverview, hcampaigns]

theorem latencySummary_perm (h : rows.Perm others) (hnan : NumericLatencies latencyFields rows) :
    latencySummary rows = latencySummary others := by
  have hsuccess := successful_perm h
  have hrows : (sortGroups (groupBy NormalizedRow.key (successful rows))).mapM latencyRows
      = (sortGroups (groupBy NormalizedRow.key (successful others))).mapM latencyRows := by
    apply mapM_eq_of_map_eq
    apply map_sortByKey_groupBy_perm toLex toLex.injective hsuccess
    intro key
    apply latencyRows_perm (withKey_perm _ hsuccess key)
    intro row hrow metric hmetric
    exact hnan.ne_nan hmetric row (List.mem_of_mem_filter hrow)
  unfold latencySummary
  rw [hrows]

theorem memoryTrafficSummary_perm (h : rows.Perm others) :
    memoryTrafficSummary rows = memoryTrafficSummary others := by
  apply mapM_eq_of_map_eq
  exact map_sortByKey_groupBy_perm toLex toLex.injective h fun key ↦
    memoryTrafficRow_perm (withKey_perm _ h key) key

theorem derivedSummary_perm (h : rows.Perm others) (hnan : NumericLatencies ["total_ms"] rows)
    (order another : SetOrder) (statusRows resourceRows : List (Dict Text)) :
    derivedSummary order statusRows resourceRows rows =
      derivedSummary another statusRows resourceRows others := by
  unfold derivedSummary
  apply congrArg
  funext keyed
  let resources := keyed.reduceOption.foldl setResource []
  rcases sameResults_base h hnan with ⟨base, more, hbase, hmore, hperm⟩ | ⟨hbase, hmore⟩
  · have hentries : base.reduceOption.Perm more.reduceOption := hperm.filterMap _
    have houtput : (sortGroups (groupBy NormalizedRow.key rows)).mapM
          (derivedRow resources base.reduceOption)
        = (sortGroups (groupBy NormalizedRow.key others)).mapM
          (derivedRow resources more.reduceOption) := by
      apply mapM_eq_of_map_eq
      rw [← funext (derivedRow_base_perm (nodup_keys_base hbase) hentries resources)]
      exact map_sortByKey_groupBy_perm toLex toLex.injective h fun key ↦
        derivedRow_perm (withKey_perm _ h key) resources base.reduceOption key
    have hfinish : finishDerived order base.reduceOption resources statusRows
        = finishDerived another more.reduceOption resources statusRows :=
      funext (finishDerived_perm hentries order another resources statusRows)
    dsimp only
    rw [hbase, hmore]
    change _ >>= finishDerived order base.reduceOption resources statusRows
      = _ >>= finishDerived another more.reduceOption resources statusRows
    rw [houtput, hfinish]
  · dsimp only
    rw [hbase, hmore]
    rfl

end Summaries

/-! ## Counts -/

/-- What is read off the results of a loop, when it is determined by the items. -/
theorem map_eq_of_mapM {α β γ : Type} {f : α → Except PyError β} {view : β → γ} {value : α → γ}
    (hf : ∀ a b, f a = .ok b → view b = value a) {items : List α} {results : List β}
    (h : items.mapM f = .ok results) : results.map view = items.map value := by
  induction items generalizing results with
  | nil =>
    obtain rfl : [] = results := Except.ok.inj h
    rfl
  | cons a items ih =>
    rw [List.mapM_cons] at h
    obtain ⟨result, hresult, h⟩ := bind_eq_ok_iff.mp h
    obtain ⟨rest, hrest, h⟩ := bind_eq_ok_iff.mp h
    obtain rfl : result :: rest = results := Except.ok.inj h
    rw [List.map_cons, List.map_cons, ih hrest, hf a result hresult]

/-- Every failed row is counted under its stage. -/
theorem sum_failureCounts (group : List NormalizedRow) :
    ((failureCounts group).map Prod.snd).sum = group.length - (successful group).length := by
  have hsplit : (successful group).length + (group.filter fun row ↦ !row.success).length
      = group.length :=
    (List.length_eq_length_filter_add fun row : NormalizedRow ↦ row.success).symm
  have hsum : ((failureCounts group).map Prod.snd).sum = (failedStages group).length := by
    calc ((failureCounts group).map Prod.snd).sum
        = ((sortByKey id (groupBy id (failedStages group))).map fun stage ↦
            stage.2.length).sum := by
          rw [failureCounts_eq, List.map_map]
          rfl
      _ = ((groupBy id (failedStages group)).map fun stage ↦ stage.2.length).sum :=
          ((sortByKey_perm id _).map _).sum_eq
      _ = (failedStages group).length := sum_length_groupBy id _
  rw [hsum, failedStages, List.length_map]
  omega

/-- The counts of the tables `overview` and `campaigns` of `summarize`. -/
structure CountsAddUp (rows : List NormalizedRow) (overview : List OverviewRow)
    (campaigns : List CampaignRow) : Prop where
  attempted : (overview.map OverviewRow.attempted).sum = rows.length
  outcomes : ∀ row ∈ overview, row.attempted = row.successful + row.failures
  perCampaign : ∀ row ∈ overview, row.attempted =
    ((campaigns.filter fun campaign ↦
      (campaign.scheme, campaign.board) = (row.scheme, row.board)).map CampaignRow.attempted).sum
  failureStages : ∀ row ∈ overview,
    let counts := failureCounts (withKey NormalizedRow.key rows (row.scheme, row.board))
    row.failureStages = renderCounts counts ∧ (counts.map Prod.snd).sum = row.failures

theorem attempted_campaignRow {entry : CampaignKey × List NormalizedRow} {row : CampaignRow}
    (h : campaignRow entry = .ok row) :
    ((row.scheme, row.board), row.attempted) = ((entry.1.1, entry.1.2.1), entry.2.length) := by
  obtain ⟨median, -, h⟩ := bind_eq_ok_iff.mp h
  obtain rfl := Except.ok.inj h
  rfl

/-- The attempts of the campaigns of a group are the attempts of the group. -/
theorem sum_attempted_campaigns {rows : List NormalizedRow} {campaigns : List CampaignRow}
    (h : (sortByKey campaignRank (groupBy NormalizedRow.campaignKey rows)).mapM campaignRow
      = .ok campaigns) (key : GroupKey) :
    ((campaigns.filter fun campaign ↦ (campaign.scheme, campaign.board) = key).map
      CampaignRow.attempted).sum = (withKey NormalizedRow.key rows key).length := by
  have hpairs := map_eq_of_mapM (fun _ _ hrow ↦ attempted_campaignRow hrow) h
  let selected := fun pair : GroupKey × ℕ ↦ decide (pair.1 = key)
  calc ((campaigns.filter fun campaign ↦ (campaign.scheme, campaign.board) = key).map
        CampaignRow.attempted).sum
      = (((campaigns.map fun campaign ↦
          ((campaign.scheme, campaign.board), campaign.attempted)).filter selected).map
            Prod.snd).sum := by
        rw [List.filter_map, List.map_map]
        rfl
    _ = (((sortByKey campaignRank (groupBy NormalizedRow.campaignKey rows)).filter fun entry ↦
          (entry.1.1, entry.1.2.1) = key).map fun entry ↦ entry.2.length).sum := by
        rw [hpairs, List.filter_map, List.map_map]
        rfl
    _ = (((groupBy NormalizedRow.campaignKey rows).filter fun entry ↦
          (entry.1.1, entry.1.2.1) = key).map fun entry ↦ entry.2.length).sum :=
        (((sortByKey_perm campaignRank _).filter _).map _).sum_eq
    _ = (withKey NormalizedRow.key rows key).length :=
        sum_length_filter_groupBy NormalizedRow.campaignKey rows
          fun campaign ↦ (campaign.1, campaign.2.1) = key

theorem countsAddUp_summarize {rows : List NormalizedRow} {overview : List OverviewRow}
    {campaigns : List CampaignRow} (h : summarize rows = .ok (overview, campaigns)) :
    CountsAddUp rows overview campaigns := by
  obtain ⟨groups, hgroups, h⟩ := bind_eq_ok_iff.mp h
  obtain ⟨rfl, rfl⟩ := Prod.mk.inj (Except.ok.inj h)
  have hmem : ∀ row ∈ (sortGroups (groupBy NormalizedRow.key rows)).map overviewRow,
      ∃ key, row = overviewRow (key, withKey NormalizedRow.key rows key) := by
    intro row hrow
    obtain ⟨group, hgroup, rfl⟩ := List.mem_map.mp hrow
    have hrows := eq_withKey_of_mem _ ((sortByKey_perm toLex _).mem_iff.mp hgroup)
    exact ⟨group.1, by rw [← hrows]⟩
  have hle (group : List NormalizedRow) : (successful group).length ≤ group.length :=
    List.length_filter_le _ _
  refine ⟨?_, fun row hrow ↦ ?_, fun row hrow ↦ ?_, fun row hrow ↦ ?_⟩
  · calc _ = ((sortGroups (groupBy NormalizedRow.key rows)).map fun entry ↦
            entry.2.length).sum := by
          rw [List.map_map]
          rfl
      _ = ((groupBy NormalizedRow.key rows).map fun entry ↦ entry.2.length).sum :=
          ((sortByKey_perm toLex _).map _).sum_eq
      _ = rows.length := sum_length_groupBy NormalizedRow.key rows
  · obtain ⟨key, rfl⟩ := hmem row hrow
    exact (Nat.add_sub_of_le (hle _)).symm
  · obtain ⟨key, rfl⟩ := hmem row hrow
    exact (sum_attempted_campaigns hgroups key).symm
  · obtain ⟨key, rfl⟩ := hmem row hrow
    exact ⟨rfl, sum_failureCounts _⟩

/-! ## One row per attempt -/

/-- The summaries do not depend on the order of the attempts, and every attempt is counted once.
Values that are not numbers matter to the statistics of latencies alone. -/
theorem summaries_of_attempts (rows : List NormalizedRow) :
    (∀ others, rows.Perm others →
      memoryTrafficSummary rows = memoryTrafficSummary others ∧
      (NumericLatencies latencyFields rows → latencySummary rows = latencySummary others) ∧
      (NumericLatencies ["total_ms"] rows → summarize rows = summarize others ∧
        ∀ order another statusRows resourceRows,
          derivedSummary order statusRows resourceRows rows =
            derivedSummary another statusRows resourceRows others)) ∧
    ∀ overview campaigns, summarize rows = .ok (overview, campaigns) →
      CountsAddUp rows overview campaigns := by
  constructor
  · intro others h
    refine ⟨memoryTrafficSummary_perm h, latencySummary_perm h, fun hnan ↦ ?_⟩
    exact ⟨summarize_perm h hnan, derivedSummary_perm h hnan⟩
  · intro overview campaigns h
    exact countsAddUp_summarize h

/-- A successful attempt with a total latency. -/
def attemptWithTotal (total : Double) : NormalizedRow where
  scheme := "HAWK-512".toList
  board := "pico2_w".toList
  campaign := .number 1
  success := true
  failureStage := "none".toList
  timeout := false
  stackGuardCorrupted := false
  allocFailed := false
  legacySuccessOnly := false
  latency := fun metric ↦ if metric = "total_ms" then total else .fin 1
  integer := fun _ ↦ 0

theorem latency_attemptWithTotal {total : Double} (h : total ≠ .nan) (metric : String) :
    (attemptWithTotal total).latency metric ≠ .nan := by
  change (if metric = "total_ms" then total else .fin 1) ≠ .nan
  by_cases hmetric : metric = "total_ms"
  · rwa [if_pos hmetric]
  · rw [if_neg hmetric]
    exact Double.noConfusion

theorem numericLatencies_example (metrics : List String) :
    NumericLatencies metrics [attemptWithTotal (.fin 1), attemptWithTotal (.fin 2)] := by
  intro row hrow _ metric _
  rcases List.mem_pair.mp hrow with rfl | rfl
  · exact latency_attemptWithTotal Double.noConfusion metric
  · exact latency_attemptWithTotal Double.noConfusion metric

theorem summaries_of_two_attempts :
    let rows := [attemptWithTotal (.fin 1), attemptWithTotal (.fin 2)]
    let others := [attemptWithTotal (.fin 2), attemptWithTotal (.fin 1)]
    rows.Perm others ∧ memoryTrafficSummary rows = memoryTrafficSummary others ∧
      latencySummary rows = latencySummary others ∧ summarize rows = summarize others ∧
      ∃ overview campaigns, summarize rows = .ok (overview, campaigns) ∧
        CountsAddUp rows overview campaigns := by
  have hperm : [attemptWithTotal (.fin 1), attemptWithTotal (.fin 2)].Perm
      [attemptWithTotal (.fin 2), attemptWithTotal (.fin 1)] := .swap ..
  obtain ⟨horder, hcounts⟩ :=
    summaries_of_attempts [attemptWithTotal (.fin 1), attemptWithTotal (.fin 2)]
  obtain ⟨hmemory, hlatency, hsummaries⟩ := horder _ hperm
  have hsummarize := (hsummaries (numericLatencies_example _)).1
  refine ⟨hperm, hmemory, hlatency (numericLatencies_example _), hsummarize, ?_⟩
  have hok : (summarize [attemptWithTotal (.fin 1), attemptWithTotal (.fin 2)]).isOk := by
    decide +kernel
  obtain ⟨tables, hresult⟩ := exists_of_isOk hok
  exact ⟨tables.1, tables.2, hresult, hcounts tables.1 tables.2 hresult⟩

/-- `sorted` leaves a value that is not a number where it stands. -/
theorem latencySummary_depends_on_order :
    [attemptWithTotal .nan, attemptWithTotal (.fin 1)].Perm
        [attemptWithTotal (.fin 1), attemptWithTotal .nan] ∧
      latencySummary [attemptWithTotal .nan, attemptWithTotal (.fin 1)] ≠
        latencySummary [attemptWithTotal (.fin 1), attemptWithTotal .nan] := by
  refine ⟨.swap _ _ _, ?_⟩
  decide +kernel

end PqMqtt.Analysis
