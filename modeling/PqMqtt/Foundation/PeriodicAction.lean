import PqMqtt.Foundation.PolledWait

/-!
# Periodic actions on a 32-bit clock

A loop reads a clock of milliseconds in every round and acts when the reading is at least an
interval after the reading of its last action, with a subtraction modulo `2 ^ 32`.  The wrap of the
clock never makes an action early.  It delays none either, as long as the rounds follow each other
closely enough for no difference to wrap.
-/

namespace PqMqtt.Periodic

variable {interval : UInt32}

/-- The loop acts in a round. -/
def due (interval last : UInt32) (time : ℕ) : Bool := interval ≤ millis time - last

/-- The rounds in which the loop acts. -/
def actions (interval : UInt32) : UInt32 → List ℕ → List ℕ
  | _, [] => []
  | last, time :: times =>
    if due interval last time then time :: actions interval (millis time) times
    else actions interval last times

/-- The reading of the last action after some rounds. -/
def lastAfter (interval : UInt32) : UInt32 → List ℕ → UInt32
  | last, [] => last
  | last, time :: times =>
    lastAfter interval (if due interval last time then millis time else last) times

theorem actions_append (last : UInt32) (first second : List ℕ) :
    actions interval last (first ++ second) =
      actions interval last first ++ actions interval (lastAfter interval last first) second := by
  induction first generalizing last with
  | nil => rfl
  | cons time times ih =>
    rw [List.cons_append, actions, actions, lastAfter]
    split
    · rw [ih, List.cons_append]
    · exact ih last

theorem lastAfter_concat (last : UInt32) (times : List ℕ) (time : ℕ) :
    lastAfter interval last (times ++ [time]) =
      if due interval (lastAfter interval last times) time then millis time
      else lastAfter interval last times := by
  induction times generalizing last with
  | nil => rfl
  | cons first times ih => exact ih _

/-- The difference of two readings is the time between them modulo `2 ^ 32`. -/
theorem toNat_millis_sub {start time : ℕ} (h : start ≤ time) :
    (millis time - millis start).toNat = (time / 1000 - start / 1000) % 2 ^ 32 := by
  have hstart := millis_toNat start
  have htime := millis_toNat time
  have hle : start / 1000 ≤ time / 1000 := Nat.div_le_div_right h
  rw [UInt32.toNat_sub, hstart, htime]
  omega

/-- An action is due after the interval only. -/
theorem le_of_due {start time : ℕ} (h : start ≤ time) (hdue : due interval (millis start) time) :
    start / 1000 + interval.toNat ≤ time / 1000 := by
  have hreading := UInt32.le_iff_toNat_le.mp (of_decide_eq_true hdue)
  rw [toNat_millis_sub h] at hreading
  have hmod := Nat.mod_le (time / 1000 - start / 1000) (2 ^ 32)
  have hlt := interval.toNat_lt
  have hle : start / 1000 ≤ time / 1000 := Nat.div_le_div_right h
  omega

/-- As long as the difference does not wrap an action is due after the interval. -/
theorem due_iff {start time : ℕ} (h : start ≤ time)
    (hwrap : time / 1000 - start / 1000 < 2 ^ 32) :
    due interval (millis start) time = true ↔ start / 1000 + interval.toNat ≤ time / 1000 := by
  have hle : start / 1000 ≤ time / 1000 := Nat.div_le_div_right h
  unfold due
  rw [decide_eq_true_iff, UInt32.le_iff_toNat_le, toNat_millis_sub h, Nat.mod_eq_of_lt hwrap]
  omega

/-- One action follows another after the interval. -/
def Spaced (interval : UInt32) (first second : ℕ) : Prop :=
  first / 1000 + interval.toNat ≤ second / 1000

/-- No action is early, however often the clock wraps. -/
theorem actions_spaced {start : ℕ} {times : List ℕ}
    (hmonotone : (start :: times).Pairwise (· ≤ ·)) :
    (start :: actions interval (millis start) times).IsChain (Spaced interval) := by
  have hgeneral : ∀ (earlier : ℕ), earlier ≤ start → ∀ last, last = millis earlier →
      (earlier :: actions interval last times).IsChain (Spaced interval) := by
    induction times generalizing start with
    | nil => exact fun earlier _ last _ ↦ .singleton earlier
    | cons time times ih =>
      rintro earlier hearlier last rfl
      obtain ⟨hstart, hrest⟩ := List.pairwise_cons.mp hmonotone
      have hle : earlier ≤ time := hearlier.trans (hstart time (List.mem_cons_self ..))
      rw [actions]
      split
      · rename_i hdue
        exact List.isChain_cons_cons.mpr ⟨le_of_due hle hdue, ih hrest time le_rfl _ rfl⟩
      · exact ih hrest earlier hle _ rfl
  exact hgeneral start le_rfl _ rfl

/-- The rounds follow each other within some milliseconds. -/
def Close (gap first second : ℕ) : Prop := first ≤ second ∧ second / 1000 ≤ first / 1000 + gap

/-- Closely followed rounds act soon after the interval, also when the clock wraps, and in the last
of them no action is overdue. -/
theorem actions_prompt {gap : ℕ} (hgap : interval.toNat + gap < 2 ^ 32) {start : ℕ}
    {times : List ℕ} (hclose : (start :: times).IsChain (Close gap)) :
    (start :: (actions interval (millis start) times ++ (start :: times).getLast?.toList)).IsChain
      fun first second ↦ second / 1000 < first / 1000 + interval.toNat + gap + 1 := by
  have hgeneral : ∀ (earlier : ℕ), earlier ≤ start →
      start / 1000 < earlier / 1000 + interval.toNat + 1 → ∀ last, last = millis earlier →
      (earlier :: (actions interval last times ++ (start :: times).getLast?.toList)).IsChain
        fun first second ↦ second / 1000 < first / 1000 + interval.toNat + gap + 1 := by
    induction times generalizing start with
    | nil =>
      intro earlier _ hrecent last _
      have hlate : start / 1000 < earlier / 1000 + interval.toNat + gap + 1 := by omega
      exact List.isChain_cons_cons.mpr ⟨hlate, .singleton start⟩
    | cons time times ih =>
      rintro earlier hearlier hrecent last rfl
      obtain ⟨⟨hstart, hnear⟩, hrest⟩ := List.isChain_cons_cons.mp hclose
      have hle : earlier ≤ time := hearlier.trans hstart
      have hdiv : earlier / 1000 ≤ time / 1000 := Nat.div_le_div_right hle
      rw [actions, List.getLast?_cons_cons]
      split
      · apply List.isChain_cons_cons.mpr
        exact ⟨by omega, ih hrest time le_rfl (by omega) _ rfl⟩
      · rename_i hnot
        rw [due_iff hle (by omega)] at hnot
        exact ih hrest earlier hle (by omega) _ rfl
  exact hgeneral start le_rfl (by omega) _ rfl

/-- The first action of a loop, and its rounds afterwards. -/
theorem exists_rounds_after {last : UInt32} {times : List ℕ} {first : ℕ} {later : List ℕ}
    (h : actions interval last times = first :: later) :
    ∃ before after, times = before ++ first :: after ∧
      later = actions interval (millis first) after := by
  induction times generalizing last with
  | nil => cases h
  | cons time times ih =>
    rw [actions] at h
    split at h
    · obtain ⟨rfl, rfl⟩ := List.cons.inj h
      exact ⟨[], times, rfl, rfl⟩
    · obtain ⟨before, after, rfl, hlater⟩ := ih h
      exact ⟨time :: before, after, rfl, hlater⟩

end PqMqtt.Periodic
