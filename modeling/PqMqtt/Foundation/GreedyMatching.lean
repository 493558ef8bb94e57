import Mathlib.Data.List.MinMax
import Mathlib.Data.List.Nodup
import Mathlib.Data.Prod.Lex
import Mathlib.Order.Hom.Basic

/-!
# Greedy matching by cost

Targets are matched one after the other to the unused index of least cost, ties going to the
smaller index, if that index is accepted.  When a cheaper index is accepted wherever a dearer one
is, the result is a matching that no target can be added to without an earlier one giving way.
-/

namespace PqMqtt.GreedyMatching

variable {τ ι ρ : Type*} [LinearOrder ι] [LinearOrder ρ]

/-! ## The cheapest index -/

/-- The unused index of least cost, the smaller one on a tie. -/
def cheapest (cost : ι → ρ) (unused : List ι) : Option ι :=
  unused.argmin fun index ↦ toLex (cost index, index)

section Cheapest

variable {cost : ι → ρ} {unused : List ι} {index : ι}

theorem cheapest_eq_none_iff : cheapest cost unused = none ↔ unused = [] := List.argmin_eq_none

theorem mem_of_cheapest (h : cheapest cost unused = some index) : index ∈ unused :=
  List.argmin_mem h

theorem key_le_of_cheapest (h : cheapest cost unused = some index) {other : ι}
    (hother : other ∈ unused) : toLex (cost index, index) ≤ toLex (cost other, other) :=
  List.le_of_mem_argmin (f := fun index ↦ toLex (cost index, index)) hother h

theorem cost_le_of_cheapest (h : cheapest cost unused = some index) {other : ι}
    (hother : other ∈ unused) : cost index ≤ cost other :=
  (Prod.Lex.toLex_le_toLex'.mp (key_le_of_cheapest h hother)).1

/-- What is not dearer than any unused index is the cheapest one. -/
theorem cheapest_eq_some (hmem : index ∈ unused)
    (hleast : ∀ other ∈ unused, toLex (cost index, index) ≤ toLex (cost other, other)) :
    cheapest cost unused = some index := by
  cases hfound : cheapest cost unused with
  | none =>
    rw [cheapest_eq_none_iff.mp hfound] at hmem
    exact absurd hmem List.not_mem_nil
  | some found =>
    have hkey := le_antisymm (key_le_of_cheapest hfound hmem)
      (hleast found (mem_of_cheapest hfound))
    exact congrArg some (Prod.mk.inj (toLex.injective hkey)).2

/-- Only which indices are unused matters. -/
theorem cheapest_congr {others : List ι} (h : ∀ other, other ∈ unused ↔ other ∈ others) :
    cheapest cost unused = cheapest cost others := by
  cases hfound : cheapest cost others with
  | none =>
    have hempty := cheapest_eq_none_iff.mp hfound
    apply cheapest_eq_none_iff.mpr
    apply List.eq_nil_iff_forall_not_mem.mpr
    intro other hother
    have hmem := (h other).mp hother
    rw [hempty] at hmem
    exact List.not_mem_nil hmem
  | some found =>
    apply cheapest_eq_some ((h found).mpr (mem_of_cheapest hfound))
    intro other hother
    exact key_le_of_cheapest hfound ((h other).mp hother)

/-- Only the order of the indices and how their costs compare matter. -/
theorem cheapest_map {ι' ρ' : Type*} [LinearOrder ι'] [LinearOrder ρ'] (e : ι ↪o ι')
    {cost' : ι' → ρ'}
    (h : ∀ first second, cost first ≤ cost second ↔ cost' (e first) ≤ cost' (e second)) :
    cheapest cost' (unused.map e) = (cheapest cost unused).map e := by
  cases hfound : cheapest cost unused with
  | none =>
    rw [cheapest_eq_none_iff.mp hfound]
    rfl
  | some found =>
    apply cheapest_eq_some (List.mem_map_of_mem (mem_of_cheapest hfound))
    intro other' hother'
    obtain ⟨other, hother, rfl⟩ := List.mem_map.mp hother'
    have hkey := key_le_of_cheapest hfound hother
    rw [Prod.Lex.toLex_le_toLex'] at hkey ⊢
    refine ⟨(h found other).mp hkey.1, fun heq ↦ e.le_iff_le.mpr (hkey.2 ?_)⟩
    exact le_antisymm ((h found other).mpr heq.le) ((h other found).mpr heq.ge)

end Cheapest

/-! ## The matching -/

/-- Match the targets in order; an index that is matched is not used again. -/
def assign (cost : τ → ι → ρ) (accepts : τ → ι → Bool) : List ι → List τ → List (Option ι)
  | _, [] => []
  | unused, target :: targets =>
      match cheapest (cost target) unused with
      | none => none :: assign cost accepts unused targets
      | some index =>
          if accepts target index then
            some index :: assign cost accepts (unused.erase index) targets
          else none :: assign cost accepts unused targets

/-- Choices of accepted indices, none of them twice, that leave a target without one only if each
index that it accepts is the choice of an earlier target. -/
structure Matching (accepts : τ → ι → Bool) (unused : List ι) (targets : List τ)
    (choices : List (Option ι)) : Prop where
  length : choices.length = targets.length
  accepted : ∀ {place : ℕ} {target : τ} {index : ι}, targets[place]? = some target →
    choices[place]? = some (some index) → index ∈ unused ∧ accepts target index = true
  once : ∀ {first second : ℕ} {index : ι}, choices[first]? = some (some index) →
    choices[second]? = some (some index) → first = second
  maximal : ∀ {place : ℕ} {target : τ} {index : ι}, targets[place]? = some target →
    choices[place]? = some none → index ∈ unused → accepts target index = true →
    ∃ earlier < place, choices[earlier]? = some (some index)

namespace Matching

variable {accepts : τ → ι → Bool} {unused : List ι} {target : τ} {targets : List τ}
  {choices : List (Option ι)}

omit [LinearOrder ι] in
theorem nil (accepts : τ → ι → Bool) (unused : List ι) : Matching accepts unused [] [] where
  length := rfl
  accepted htarget := by cases htarget
  once hfirst := by cases hfirst
  maximal htarget := by cases htarget

omit [LinearOrder ι] in
/-- The choice at a place is of an unused index. -/
theorem mem_unused (h : Matching accepts unused targets choices) {place : ℕ} {index : ι}
    (hchoice : choices[place]? = some (some index)) : index ∈ unused := by
  have hplace : place < targets.length := by
    rw [← h.length]
    exact (List.getElem?_eq_some_iff.mp hchoice).1
  exact (h.accepted (List.getElem?_eq_getElem hplace) hchoice).1

omit [LinearOrder ι] in
/-- A target that accepts no unused index stays without one. -/
theorem skip (h : Matching accepts unused targets choices)
    (hnone : ∀ index ∈ unused, accepts target index = false) :
    Matching accepts unused (target :: targets) (none :: choices) where
  length := congrArg Nat.succ h.length
  accepted {place} _ _ htarget hchoice := by
    cases place with
    | zero => cases hchoice
    | succ place => exact h.accepted htarget hchoice
  once {first second} _ hfirst hsecond := by
    cases first with
    | zero => cases hfirst
    | succ first =>
      cases second with
      | zero => cases hsecond
      | succ second => exact congrArg Nat.succ (h.once hfirst hsecond)
  maximal {place} _ index htarget hchoice hmem haccepts := by
    cases place with
    | zero =>
      obtain rfl := Option.some.inj htarget
      rw [hnone index hmem] at haccepts
      cases haccepts
    | succ place =>
      obtain ⟨earlier, hlt, hearlier⟩ := h.maximal htarget hchoice hmem haccepts
      exact ⟨earlier + 1, Nat.succ_lt_succ hlt, hearlier⟩

/-- A target takes an unused index that it accepts; later targets choose among the others. -/
theorem take {chosen : ι} (h : Matching accepts (unused.erase chosen) targets choices)
    (hnodup : unused.Nodup) (hchosen : chosen ∈ unused) (haccepted : accepts target chosen = true) :
    Matching accepts unused (target :: targets) (some chosen :: choices) where
  length := congrArg Nat.succ h.length
  accepted {place} _ _ htarget hchoice := by
    cases place with
    | zero =>
      obtain rfl := Option.some.inj htarget
      obtain rfl := Option.some.inj (Option.some.inj hchoice)
      exact ⟨hchosen, haccepted⟩
    | succ place =>
      obtain ⟨hmem, haccepts⟩ := h.accepted htarget hchoice
      exact ⟨List.mem_of_mem_erase hmem, haccepts⟩
  once {first second} index hfirst hsecond := by
    -- A later choice is among the others, so it is not the index taken here.
    have hlater : ∀ {place : ℕ}, choices[place]? ≠ some (some chosen) := fun hplace ↦
      hnodup.not_mem_erase (h.mem_unused hplace)
    cases first with
    | zero =>
      obtain rfl := Option.some.inj (Option.some.inj hfirst)
      cases second with
      | zero => rfl
      | succ second => exact absurd hsecond hlater
    | succ first =>
      cases second with
      | zero =>
        obtain rfl := Option.some.inj (Option.some.inj hsecond)
        exact absurd hfirst hlater
      | succ second => exact congrArg Nat.succ (h.once hfirst hsecond)
  maximal {place} _ index htarget hchoice hmem haccepts := by
    cases place with
    | zero => cases hchoice
    | succ place =>
      by_cases heq : index = chosen
      · exact ⟨0, Nat.succ_pos place, by rw [heq]; rfl⟩
      · have hother := (List.mem_erase_of_ne heq).mpr hmem
        obtain ⟨earlier, hlt, hearlier⟩ := h.maximal htarget hchoice hother haccepts
        exact ⟨earlier + 1, Nat.succ_lt_succ hlt, hearlier⟩

end Matching

/-- The greedy choices are a matching that no target can be added to. -/
theorem matching_assign {cost : τ → ι → ρ} {accepts : τ → ι → Bool}
    (hclosed : ∀ target first second, cost target first ≤ cost target second →
      accepts target second = true → accepts target first = true)
    {unused : List ι} (hnodup : unused.Nodup) (targets : List τ) :
    Matching accepts unused targets (assign cost accepts unused targets) := by
  induction targets generalizing unused with
  | nil => exact Matching.nil accepts unused
  | cons target targets ih =>
    rw [assign]
    cases hfound : cheapest (cost target) unused with
    | none =>
      apply (ih hnodup).skip
      intro index hmem
      rw [cheapest_eq_none_iff.mp hfound] at hmem
      exact absurd hmem List.not_mem_nil
    | some index =>
      dsimp only
      split
      · rename_i haccepted
        exact (ih (hnodup.erase index)).take hnodup (mem_of_cheapest hfound) haccepted
      · rename_i hrefused
        apply (ih hnodup).skip
        intro other hother
        by_contra haccepts
        rw [Bool.not_eq_false] at haccepts
        exact hrefused
          (hclosed target index other (cost_le_of_cheapest hfound hother) haccepts)

/-- Choices depend on the order of the indices, how costs compare and what is accepted. -/
theorem assign_map {τ' ι' ρ' : Type*} [LinearOrder ι'] [LinearOrder ρ'] (e : ι ↪o ι')
    {cost : τ → ι → ρ} {accepts : τ → ι → Bool} {cost' : τ' → ι' → ρ'}
    {accepts' : τ' → ι' → Bool} {targets : List τ} {targets' : List τ'}
    (h : List.Forall₂ (fun target target' ↦
      (∀ first second, cost target first ≤ cost target second ↔
        cost' target' (e first) ≤ cost' target' (e second)) ∧
      ∀ index, accepts target index = accepts' target' (e index)) targets targets')
    (unused : List ι) :
    assign cost' accepts' (unused.map e) targets' =
      (assign cost accepts unused targets).map (Option.map e) := by
  induction h generalizing unused with
  | nil => rfl
  | @cons target _ _ _ hhead _ ih =>
    obtain ⟨hcost, haccepts⟩ := hhead
    rw [assign, assign, cheapest_map e hcost]
    cases cheapest (cost target) unused with
    | none => exact congrArg _ (ih unused)
    | some index =>
      simp only [Option.map_some, ← haccepts, ih, ← List.map_erase e.injective]
      split
      · rfl
      · rfl

end PqMqtt.GreedyMatching
