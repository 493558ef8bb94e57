import Mathlib.Algebra.Order.Field.Basic
import Mathlib.Data.List.FinRange
import Mathlib.Data.List.MinMax
import Mathlib.Data.Prod.Lex
import Mathlib.Tactic
import PqMqtt.Foundation.GreedyMatching

/-!
# Greedy matching to the nearest position

Targets are matched one after the other to the nearest unused point on a line, ties going to the
smaller index, and to no point when the nearest is outside a window.  If the targets are the
points themselves, shifted by a constant offset inside the window, each target finds its own
point exactly when any two points are at least twice the offset apart, so a negative offset does
no harm and a positive one needs wide gaps.
-/

namespace PqMqtt.NearestMatching

variable {ι K : Type*} [LinearOrder ι] [Field K] [LinearOrder K]

/-- The unused index whose position is nearest to the target, the smaller one on a tie. -/
def nearest (position : ι → K) (target : K) (unused : List ι) : Option ι :=
  unused.argmin fun index ↦ toLex (|target - position index|, index)

/-- Match the targets in order; a matched index is not used again. -/
def assign (position : ι → K) (window : K) : List ι → List K → List (Option ι)
  | _, [] => []
  | unused, target :: targets =>
      match nearest position target unused with
      | none => none :: assign position window unused targets
      | some index =>
          if |target - position index| > window then
            none :: assign position window unused targets
          else some index :: assign position window (unused.erase index) targets

/-- Matching to the nearest position is matching by the cost of the distance. -/
theorem assign_eq_greedy (position : ι → K) (window : K) (unused : List ι) (targets : List K) :
    assign position window unused targets =
      GreedyMatching.assign (fun target index ↦ |target - position index|)
        (fun target index ↦ decide (|target - position index| ≤ window)) unused targets := by
  induction targets generalizing unused with
  | nil => rfl
  | cons target targets ih =>
    rw [assign, GreedyMatching.assign]
    change (match nearest position target unused with
      | none => _
      | some index => _) = match nearest position target unused with
        | none => _
        | some index => _
    cases nearest position target unused with
    | none => exact congrArg _ (ih unused)
    | some index =>
      dsimp only
      rw [ih, ih]
      by_cases hnear : |target - position index| ≤ window
      · rw [if_neg (not_lt.mpr hnear), if_pos (decide_eq_true hnear)]
      · rw [if_pos (not_le.mp hnear), if_neg (by simpa using hnear)]

variable [IsStrictOrderedRing K]

/-- A shift by `offset` keeps a point nearest to itself against a later one exactly when the gap
between them is at least twice the offset. -/
theorem abs_le_abs_sub_iff {gap offset : K} (hgap : 0 < gap) :
    |offset| ≤ |offset - gap| ↔ 2 * offset ≤ gap := by
  rw [abs_sub_comm]
  constructor
  · intro h
    by_contra hnarrow
    have hpositive : 0 < offset := by linarith
    have hinside : |gap - offset| < offset := abs_lt.mpr ⟨by linarith, by linarith⟩
    rw [abs_of_pos hpositive] at h
    linarith
  · intro h
    have hright : gap - offset ≤ |gap - offset| := le_abs_self _
    exact abs_le.mpr ⟨by linarith, by linarith⟩

section Sorted

variable {position : ι → K}

/-- Among sorted points the first is nearest to its own shifted position exactly when no later
point is closer than twice the offset. -/
theorem nearest_shifted_iff {first : ι} {rest : List ι} (offset : K)
    (hsorted : ∀ later ∈ rest, first < later ∧ position first < position later) :
    nearest position (position first + offset) (first :: rest) = some first ↔
      ∀ later ∈ rest, 2 * offset ≤ position later - position first := by
  have hself : |position first + offset - position first| = |offset| := by
    rw [add_sub_cancel_left]
  have hkey : ∀ later ∈ rest,
      (toLex (|position first + offset - position first|, first) ≤
          toLex (|position first + offset - position later|, later) ↔
        2 * offset ≤ position later - position first) := by
    intro later hlater
    obtain ⟨hindex, hposition⟩ := hsorted later hlater
    have hshift : position first + offset - position later =
        offset - (position later - position first) := by ring
    rw [Prod.Lex.toLex_le_toLex', hself, hshift, abs_le_abs_sub_iff (sub_pos.mpr hposition)]
    exact and_iff_left fun _ ↦ hindex.le
  rw [nearest, List.argmin_eq_some_iff]
  constructor
  · rintro ⟨-, hmin, -⟩ later hlater
    exact (hkey later hlater).mp (hmin later (List.mem_cons_of_mem first hlater))
  · intro hgaps
    refine ⟨List.mem_cons_self .., List.forall_mem_cons.mpr ⟨le_rfl, fun later hlater ↦ ?_⟩, ?_⟩
    · exact (hkey later hlater).mpr (hgaps later hlater)
    · intro _ _ _
      rw [List.idxOf_cons_self]
      exact Nat.zero_le _

/-- Every shifted point finds itself exactly when all gaps are at least twice the offset. -/
theorem assign_shifted_iff {unused : List ι} {window offset : K}
    (hsorted : unused.Pairwise fun first later ↦ first < later ∧ position first < position later)
    (hoffset : |offset| ≤ window) :
    assign position window unused (unused.map fun index ↦ position index + offset) =
        unused.map some ↔
      unused.Pairwise fun first later ↦ 2 * offset ≤ position later - position first := by
  induction unused with
  | nil => simp [assign]
  | cons first rest ih =>
    obtain ⟨hfirst, hrest⟩ := List.pairwise_cons.mp hsorted
    have hnearest := nearest_shifted_iff offset hfirst
    have hself : ¬ |position first + offset - position first| > window := by
      rw [add_sub_cancel_left]
      exact not_lt.mpr hoffset
    rw [List.pairwise_cons, ← ih hrest, ← hnearest, List.map_cons, List.map_cons, assign]
    cases hchoice : nearest position (position first + offset) (first :: rest) with
    | none => simp
    | some index =>
      by_cases hindex : index = first
      · subst hindex
        simp only [if_neg hself, List.erase_cons_head, List.cons.injEq, true_and]
      · dsimp only
        split_ifs <;> simp [hindex]

omit [LinearOrder ι] in
/-- For sorted points the gaps between neighbours decide. -/
theorem pairwise_gaps_iff {points : List ι} {width : K}
    (hsorted : points.Pairwise fun first later ↦ position first < position later) :
    (points.Pairwise fun first later ↦ width ≤ position later - position first) ↔
      points.IsChain fun first later ↦ width ≤ position later - position first := by
  induction points with
  | nil => simp
  | cons first rest ih =>
    obtain ⟨hfirst, hrest⟩ := List.pairwise_cons.mp hsorted
    rw [List.pairwise_cons, ih hrest]
    cases rest with
    | nil => simp
    | cons second others =>
      rw [List.isChain_cons_cons]
      refine and_congr_left fun _ ↦ ⟨fun h ↦ h second (List.mem_cons_self ..), fun h ↦ ?_⟩
      refine List.forall_mem_cons.mpr ⟨h, fun later hlater ↦ h.trans ?_⟩
      exact sub_le_sub_right ((List.pairwise_cons.mp hrest).1 later hlater).le _

end Sorted

end PqMqtt.NearestMatching
