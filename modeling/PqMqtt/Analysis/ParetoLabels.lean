import PqMqtt.Analysis.MissingColumns
import PqMqtt.Foundation.Dominance

/-!
# Labels of the Pareto frontier

`derived_summary` labels the schemes of every board by their median latency, median traffic and
peak heap.  Comparisons are those of Python, so a value that is not a number is neither smaller nor
larger than another, and a scheme that has one neither dominates nor is dominated.
-/

namespace PqMqtt.Analysis

open Binary64 Grouping Dominance

/-! ## Dominance -/

/-- At most as large in every value and smaller in at least one. -/
def Base.Dominates (other value : Base) : Prop :=
  other.latency.le value.latency = true ∧ other.traffic.le value.traffic = true ∧
    other.heap ≤ value.heap ∧
      (other.latency.lt value.latency = true ∨ other.traffic.lt value.traffic = true ∨
        other.heap < value.heap)

namespace Number

variable {x y z : Number}

theorem le_trans (hxy : x.le y = true) (hyz : y.le z = true) : x.le z = true := by
  rw [le, Double.le_eq_true_iff] at *
  exact ⟨hxy.1, hyz.2.1, hxy.2.2.trans hyz.2.2⟩

theorem lt_of_lt_of_le (hxy : x.lt y = true) (hyz : y.le z = true) : x.lt z = true := by
  rw [lt, Double.lt_eq_true_iff] at *
  rw [le, Double.le_eq_true_iff] at hyz
  exact ⟨hxy.1, hyz.2.1, hxy.2.2.trans_le hyz.2.2⟩

end Number

namespace Base

theorem Dominates.trans {first second third : Base} (h : first.Dominates second)
    (h' : second.Dominates third) : first.Dominates third := by
  obtain ⟨hlatency, htraffic, hheap, hstrict⟩ := h
  obtain ⟨hlatency', htraffic', hheap', -⟩ := h'
  refine ⟨Number.le_trans hlatency hlatency', Number.le_trans htraffic htraffic',
    hheap.trans hheap', ?_⟩
  rcases hstrict with hlatency | htraffic | hheap
  · exact Or.inl (Number.lt_of_lt_of_le hlatency hlatency')
  · exact Or.inr (Or.inl (Number.lt_of_lt_of_le htraffic htraffic'))
  · exact Or.inr (Or.inr (hheap.trans_le hheap'))

end Base

/-- The scheme succeeded on the board, and this is what it is compared by: the medians of its
latency and of its traffic, and its peak heap, over the successful attempts. -/
def Standing (rows : List NormalizedRow) (key : GroupKey) (value : Base) : Prop :=
  baseEntry (key, withKey NormalizedRow.key rows key) = .ok (some (key, value))

/-- An attempt of the scheme on the board succeeded. -/
def Succeeded (rows : List NormalizedRow) (key : GroupKey) : Prop :=
  ∃ attempt ∈ rows, attempt.key = key ∧ attempt.success = true

theorem successful_withKey_ne_nil_iff {rows : List NormalizedRow} {key : GroupKey} :
    successful (withKey NormalizedRow.key rows key) ≠ [] ↔ Succeeded rows key := by
  unfold Succeeded successful withKey
  rw [ne_eq, List.filter_eq_nil_iff]
  push Not
  simp only [List.mem_filter, decide_eq_true_eq, and_assoc]

theorem Standing.succeeded {rows : List NormalizedRow} {key : GroupKey} {value : Base}
    (h : Standing rows key value) : Succeeded rows key := by
  apply successful_withKey_ne_nil_iff.mp
  intro hnone
  unfold Standing baseEntry at h
  dsimp only at h
  rw [if_pos hnone] at h
  cases h

section Entries

variable {rows : List NormalizedRow} {base : List (Option (GroupKey × Base))}
  (hbase : (groupBy NormalizedRow.key rows).mapM baseEntry = .ok base)

include hbase

end Entries

/-! ## Labels -/

/-- `derived_summary` up to the labelling step. -/
def labelledSummary (order : SetOrder) (resourceRows : List (Dict Text))
    (rows : List NormalizedRow) : Except PyError (List DerivedRow) := do
  let keyed ← resourceRows.mapM keyedRow
  let resources := keyed.reduceOption.foldl setResource []
  let grouped := groupBy NormalizedRow.key rows
  let base ← grouped.mapM baseEntry
  let output ← (sortGroups grouped).mapM (derivedRow resources base.reduceOption)
  .ok (labelPareto order base.reduceOption output)

section Labels

variable {order : SetOrder} {resourceRows : List (Dict Text)} {rows : List NormalizedRow}
  {labelled : List DerivedRow}

end Labels

/-- The labels of the attempted schemes are those of the summary. -/
theorem labels_of_derivedSummary {order : SetOrder} {statusRows resourceRows : List (Dict Text)}
    {rows : List NormalizedRow} {output : List DerivedRow}
    (h : derivedSummary order statusRows resourceRows rows = .ok output) :
    ∃ labelled, labelledSummary order resourceRows rows = .ok labelled ∧
      ∀ row ∈ labelled, ∃ reported ∈ output,
        reported.key = row.key ∧ reported.pareto = row.pareto := by
  obtain ⟨keyed, hkeyed, h⟩ := bind_eq_ok_iff.mp h
  obtain ⟨base, hbase, h⟩ := bind_eq_ok_iff.mp h
  obtain ⟨groups, hgroups, h⟩ := bind_eq_ok_iff.mp h
  obtain ⟨extra, hperm, -⟩ := @map_finishDerived_labels _
    (fun row ↦ (row.key, row.pareto)) (fun _ _ _ ↦ rfl) (fun _ _ _ _ ↦ rfl) _ _ _ _ _ _ h
  refine ⟨labelPareto order base.reduceOption groups, ?_, ?_⟩
  · unfold labelledSummary
    simp only [hkeyed, hbase, bind, Except.bind]
    rw [hgroups]
  · intro row hrow
    have hmem : (row.key, row.pareto) ∈ output.map fun row ↦ (row.key, row.pareto) := by
      rw [hperm.mem_iff, List.map_append]
      exact List.mem_append_left _ (List.mem_map_of_mem hrow)
    obtain ⟨reported, hreported, heq⟩ := List.mem_map.mp hmem
    exact ⟨reported, hreported, congrArg Prod.fst heq, congrArg Prod.snd heq⟩

end PqMqtt.Analysis
