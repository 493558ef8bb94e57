import Mathlib.Data.List.Sort
import Mathlib.Order.Bounds.Basic

/-!
# Scans that stop early

A scan over an ordered list that stops at its first hit finds the least hit.  A scan that keeps
the last candidate before the first refusal finds the greatest accepted one, provided that no
candidate is accepted above a refused one.
-/

namespace PqMqtt.EarlyStop

variable {α : Type*}

section First

variable {precedes : α → α → Prop} {hit : α → Bool} {candidates : List α}

/-- The first hit of a list in some order precedes every other hit. -/
theorem find?_precedes (hsorted : candidates.Pairwise precedes) {first : α}
    (h : candidates.find? hit = some first) :
    first ∈ candidates ∧ hit first = true ∧
      ∀ a ∈ candidates, hit a = true → a = first ∨ precedes first a := by
  obtain ⟨hhit, before, after, rfl, hbefore⟩ := List.find?_eq_some_iff_append.mp h
  refine ⟨List.mem_append_right _ List.mem_cons_self, hhit, ?_⟩
  intro a hmem ha
  rcases List.mem_append.mp hmem with hearlier | hlater
  · have hmiss := hbefore a hearlier
    rw [ha] at hmiss
    exact absurd hmiss Bool.false_ne_true
  · exact (List.mem_cons.mp hlater).imp_right
      (List.rel_of_pairwise_cons (List.pairwise_append.mp hsorted).2.1)

end First

/-- The last candidate that is accepted before one is refused; `best` when the first one is. -/
def lastAccepted (accept : α → Bool) (best : α) : List α → α
  | [] => best
  | candidate :: candidates =>
      if accept candidate then lastAccepted accept candidate candidates else best

section Greatest

variable {accept : α → Bool} {best : α} {candidates : List α}

theorem lastAccepted_eq_best (h : ∀ a ∈ candidates, accept a = false) :
    lastAccepted accept best candidates = best := by
  cases candidates with
  | nil => rfl
  | cons candidate candidates =>
    have hrefused := h candidate List.mem_cons_self
    rw [lastAccepted, hrefused, if_neg Bool.false_ne_true]

variable [Preorder α]

/-- After an accepted candidate the scan goes on to the greatest one. -/
theorem isGreatest_lastAccepted_cons (hclosed : ∀ a b, a < b → accept b = true → accept a = true)
    (hsorted : (best :: candidates).Pairwise (· < ·)) (haccept : accept best = true) :
    IsGreatest {a | a ∈ best :: candidates ∧ accept a = true}
      (lastAccepted accept best candidates) := by
  induction candidates generalizing best with
  | nil =>
    refine ⟨⟨List.mem_cons_self, haccept⟩, ?_⟩
    rintro a ⟨hmem, -⟩
    rw [List.mem_singleton.mp hmem]
    exact le_refl _
  | cons candidate candidates ih =>
    obtain ⟨hbest, htail⟩ := List.pairwise_cons.mp hsorted
    cases hcandidate : accept candidate with
    | true =>
      obtain ⟨⟨hmem, hlast⟩, hgreatest⟩ := ih htail hcandidate
      rw [lastAccepted, hcandidate, if_pos rfl]
      refine ⟨⟨List.mem_cons_of_mem _ hmem, hlast⟩, ?_⟩
      rintro a ⟨ha, hpass⟩
      rcases List.mem_cons.mp ha with rfl | ha
      · exact (hbest candidate List.mem_cons_self).le.trans
          (hgreatest ⟨List.mem_cons_self, hcandidate⟩)
      · exact hgreatest ⟨ha, hpass⟩
    | false =>
      rw [lastAccepted, hcandidate, if_neg Bool.false_ne_true]
      refine ⟨⟨List.mem_cons_self, haccept⟩, ?_⟩
      rintro a ⟨ha, hpass⟩
      rcases List.mem_cons.mp ha with rfl | ha
      · exact le_refl _
      -- An accepted candidate after a refused one is excluded.
      have hrefused : accept candidate = true := by
        rcases List.mem_cons.mp ha with rfl | ha
        · exact hpass
        · exact hclosed candidate a (List.rel_of_pairwise_cons htail ha) hpass
      rw [hcandidate] at hrefused
      exact absurd hrefused Bool.false_ne_true

/-- The scan finds the greatest accepted candidate when there is one. -/
theorem isGreatest_lastAccepted (hclosed : ∀ a b, a < b → accept b = true → accept a = true)
    (hsorted : candidates.Pairwise (· < ·)) (h : ∃ a ∈ candidates, accept a = true) :
    IsGreatest {a | a ∈ candidates ∧ accept a = true} (lastAccepted accept best candidates) := by
  cases candidates with
  | nil =>
    obtain ⟨a, hmem, -⟩ := h
    exact absurd hmem List.not_mem_nil
  | cons candidate candidates =>
    have haccept : accept candidate = true := by
      obtain ⟨a, hmem, ha⟩ := h
      rcases List.mem_cons.mp hmem with rfl | hmem
      · exact ha
      · exact hclosed candidate a (List.rel_of_pairwise_cons hsorted hmem) ha
    rw [lastAccepted, haccept, if_pos rfl]
    exact isGreatest_lastAccepted_cons hclosed hsorted haccept

end Greatest

end PqMqtt.EarlyStop
