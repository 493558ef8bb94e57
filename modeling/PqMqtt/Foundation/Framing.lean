import Mathlib.Data.List.Basic
import Mathlib.Data.List.Infix

/-!
# Framed streams

A sender makes attempts to put frames on a stream.  Each attempt leaves a prefix of its frame
there; it is torn when that prefix is neither empty nor the whole frame.  A reader of the stream
can find the frames again as long as nothing is sent after a torn attempt: then the stream is a
concatenation of complete frames followed by at most one piece of a frame.
-/

namespace PqMqtt.Framing

variable {α : Type*}

/-- An attempt to send a frame; what was sent is a prefix of it. -/
structure Attempt (α : Type*) where
  frame : List α
  sent : List α
  sent_prefix : sent <+: frame

/-- Part of the frame was sent, and not all of it. -/
def Attempt.Torn (attempt : Attempt α) : Prop := attempt.sent ≠ [] ∧ attempt.sent ≠ attempt.frame

instance [DecidableEq α] (attempt : Attempt α) : Decidable attempt.Torn :=
  inferInstanceAs (Decidable (_ ∧ _))

def stream (attempts : List (Attempt α)) : List α := attempts.flatMap Attempt.sent

/-- Nothing is sent after a torn attempt. -/
def SilentAfterTear (attempts : List (Attempt α)) : Prop :=
  attempts.Pairwise fun earlier later ↦ earlier.Torn → later.sent = []

instance [DecidableEq α] (attempts : List (Attempt α)) : Decidable (SilentAfterTear attempts) :=
  inferInstanceAs (Decidable (List.Pairwise _ attempts))

/-- Complete frames, then nothing or a proper prefix of one. -/
def Framed (isFrame : List α → Prop) (bytes : List α) : Prop :=
  ∃ (frames : List (List α)) (tail : List α),
    bytes = frames.flatten ++ tail ∧ (∀ frame ∈ frames, isFrame frame) ∧
    (tail = [] ∨ ∃ frame, isFrame frame ∧ tail <+: frame ∧ tail ≠ frame)

theorem silentAfterTear_nil : SilentAfterTear ([] : List (Attempt α)) := List.Pairwise.nil

/-- One more attempt keeps the silence exactly when it is silent itself after a tear. -/
theorem silentAfterTear_append_singleton (attempts : List (Attempt α)) (last : Attempt α) :
    SilentAfterTear (attempts ++ [last]) ↔
      SilentAfterTear attempts ∧ ((∃ earlier ∈ attempts, earlier.Torn) → last.sent = []) := by
  unfold SilentAfterTear
  rw [List.pairwise_append]
  simp only [List.pairwise_singleton, List.mem_singleton, forall_eq, true_and, forall_exists_index,
    and_imp]

theorem stream_append (first second : List (Attempt α)) :
    stream (first ++ second) = stream first ++ stream second :=
  List.flatMap_append

/-- Silence after a tear keeps the stream framed. -/
theorem framed_of_silentAfterTear {isFrame : List α → Prop} {attempts : List (Attempt α)}
    (hframes : ∀ attempt ∈ attempts, isFrame attempt.frame) (h : SilentAfterTear attempts) :
    Framed isFrame (stream attempts) := by
  induction attempts with
  | nil => exact ⟨[], [], rfl, by simp, Or.inl rfl⟩
  | cons attempt attempts ih =>
    obtain ⟨hlater, hrest⟩ := List.pairwise_cons.mp h
    have hframe := hframes attempt (List.mem_cons_self ..)
    obtain ⟨frames, tail, hstream, hall, htail⟩ :=
      ih (fun later hmem ↦ hframes later (List.mem_cons_of_mem attempt hmem)) hrest
    have hcons : stream (attempt :: attempts) = attempt.sent ++ stream attempts := rfl
    by_cases hempty : attempt.sent = []
    · exact ⟨frames, tail, by rw [hcons, hempty, List.nil_append, hstream], hall, htail⟩
    by_cases hwhole : attempt.sent = attempt.frame
    · refine ⟨attempt.frame :: frames, tail, ?_, List.forall_mem_cons.mpr ⟨hframe, hall⟩, htail⟩
      rw [hcons, hwhole, hstream, List.flatten_cons, List.append_assoc]
    · -- The attempt is torn, so it is the last one that reaches the stream.
      have hsilent : stream attempts = [] :=
        List.flatMap_eq_nil_iff.mpr fun later hmem ↦ hlater later hmem ⟨hempty, hwhole⟩
      refine ⟨[], attempt.sent, ?_, by simp,
        Or.inr ⟨attempt.frame, hframe, attempt.sent_prefix, hwhole⟩⟩
      rw [hcons, hsilent, List.append_nil, List.flatten_nil, List.nil_append]

end PqMqtt.Framing
