import Mathlib.Data.List.Pairwise
import Mathlib.Tactic.NormNum
import PqMqtt.Foundation.Run

/-!
# The cycle counter

`bench_cycles` combines the 24-bit down counter SysTick with the count of its wraps that
`isr_systick` keeps.  It reads the wrap count, the counter and the wrap count again until both
counts agree.  Ticks and handler runs fall anywhere between these reads; the handler of a wrap is
done before the next read.  Only wraps raise the exception, not the first reload of the register
that `bench_init` cleared.
-/

namespace PqMqtt.Firmware

open Run

/-! ## SysTick and its handler -/

/-- `SYSTICK_RELOAD` -/
def systickReload : UInt32 := 0x00FFFFFF

/-- The counter, the wrap count, and the ticks of the processor clock since `bench_init`. -/
structure SysTick where
  cvr : UInt32
  /-- The register has counted since it was cleared, so that reaching 0 raises the exception. -/
  counted : Bool
  /-- Wraps whose handler has not run. -/
  outstanding : ℕ
  gWraps : UInt32
  ticks : ℕ
  firstReload : Option ℕ

namespace SysTick

/-- `bench_init` -/
def benchInit : SysTick := ⟨0, false, 0, 0, 0, none⟩

def tick (timer : SysTick) : SysTick where
  cvr := if timer.cvr = 0 then systickReload else timer.cvr - 1
  counted := timer.counted || timer.cvr ≠ 0
  outstanding :=
    if timer.cvr = 0 ∧ timer.counted = true then timer.outstanding + 1 else timer.outstanding
  gWraps := timer.gWraps
  ticks := timer.ticks + 1
  firstReload :=
    timer.firstReload.or (if timer.cvr = 0 then some (timer.ticks + 1) else none)

/-- `isr_systick` -/
def isrSystick (timer : SysTick) : SysTick :=
  { timer with outstanding := timer.outstanding - 1, gWraps := timer.gWraps + 1 }

end SysTick

/-! ## The three reads -/

/-- A value returned by `bench_cycles`, with the tick of the read of the counter that it uses. -/
structure CycleReading where
  value : UInt64
  readAt : ℕ

/-- Where `bench_cycles` is in its loop. -/
inductive ReadState where
  | start
  | first (w1 : UInt32)
  | second (w1 v : UInt32) (readAt : ℕ)

/-- `((uint64_t)w1 * (SYSTICK_RELOAD + 1ull)) + (SYSTICK_RELOAD - v)` -/
def combine (w1 v : UInt32) : UInt64 :=
  w1.toUInt64 * (systickReload.toUInt64 + 1) + (systickReload - v).toUInt64

structure Foreground where
  state : ReadState
  returned : List CycleReading

/-- The next read of `bench_cycles`; the last one returns or starts again. -/
def benchCycles (timer : SysTick) (foreground : Foreground) : Foreground :=
  match foreground.state with
  | .start => { foreground with state := .first timer.gWraps }
  | .first w1 => { foreground with state := .second w1 (timer.cvr &&& systickReload) timer.ticks }
  | .second w1 v readAt =>
    if w1 ≠ timer.gWraps then { foreground with state := .start }
    else ⟨.start, foreground.returned ++ [⟨combine w1 v, readAt⟩]⟩

/-! ## Interleavings -/

inductive TimerEvent where
  | tick
  | isrSystick
  | read
deriving DecidableEq

structure TimedProgram where
  timer : SysTick
  foreground : Foreground

namespace TimedProgram

def start : TimedProgram := ⟨.benchInit, ⟨.start, []⟩⟩

def step (program : TimedProgram) : TimerEvent → TimedProgram
  | .tick => { program with timer := program.timer.tick }
  | .isrSystick => { program with timer := program.timer.isrSystick }
  | .read => { program with foreground := benchCycles program.timer program.foreground }

/-- The handler runs once for each wrap, before the next read. -/
def Serviced (program : TimedProgram) : TimerEvent → Prop
  | .tick => True
  | .isrSystick => 0 < program.timer.outstanding
  | .read => program.timer.outstanding = 0

end TimedProgram

/-! ## The counter is exact -/

/-- One less than the number of ticks, from the parts of the counter. -/
def elapsed (wraps : ℕ) (counter : UInt32) : ℕ := wraps * 2 ^ 24 + (0xFFFFFF - counter.toNat)

theorem toNat_systickReload : systickReload.toNat = 0xFFFFFF := rfl

namespace SysTick

/-- The wraps, handled or not, and the counter give the number of ticks. -/
structure Exact (timer : SysTick) : Prop where
  cvr_le : timer.cvr.toNat ≤ 0xFFFFFF
  cleared : timer.ticks = 0 → timer.cvr = 0 ∧ timer.counted = false ∧ timer.outstanding = 0 ∧
    timer.gWraps = 0 ∧ timer.firstReload = none
  counts : 0 < timer.ticks → timer.firstReload = some 1 ∧
    (timer.cvr = 0 → timer.counted = true) ∧
    elapsed (timer.gWraps.toNat + timer.outstanding) timer.cvr + 1 = timer.ticks

theorem exact_benchInit : benchInit.Exact where
  cvr_le := Nat.zero_le _
  cleared _ := ⟨rfl, rfl, rfl, rfl, rfl⟩
  counts h := absurd h (Nat.lt_irrefl 0)

variable {timer : SysTick}

theorem toNat_cvr_tick (h : timer.cvr ≠ 0) : timer.tick.cvr.toNat = timer.cvr.toNat - 1 := by
  have hone : (1 : UInt32) ≤ timer.cvr := by
    rw [UInt32.le_iff_toNat_le]
    exact Nat.one_le_iff_ne_zero.mpr fun hzero ↦ h (UInt32.toNat_inj.mp hzero)
  rw [tick, if_neg h, UInt32.toNat_sub_of_le _ _ hone]
  rfl

theorem Exact.tick (h : timer.Exact) : timer.tick.Exact := by
  by_cases hcvr : timer.cvr = 0
  · have hreload : timer.tick.cvr = systickReload := if_pos hcvr
    refine ⟨hreload ▸ toNat_systickReload.le, fun hticks ↦ absurd hticks (Nat.succ_ne_zero _), ?_⟩
    intro _
    rw [hreload]
    rcases Nat.eq_zero_or_pos timer.ticks with hticks | hticks
    · -- The first tick reloads the cleared register and raises no exception.
      obtain ⟨-, hcounted, houtstanding, hwraps, hfirst⟩ := h.cleared hticks
      simp [SysTick.tick, hcvr, hcounted, houtstanding, hwraps, hfirst, hticks, elapsed,
        systickReload]
    · obtain ⟨hfirst, hcounted, helapsed⟩ := h.counts hticks
      rw [elapsed, hcvr] at helapsed
      have houtstanding : timer.tick.outstanding = timer.outstanding + 1 :=
        if_pos ⟨hcvr, hcounted hcvr⟩
      refine ⟨by rw [SysTick.tick, hfirst]; rfl, fun hzero ↦ absurd hzero (by decide), ?_⟩
      rw [houtstanding, elapsed, toNat_systickReload]
      change _ = timer.ticks + 1
      change (timer.gWraps.toNat + timer.outstanding) * 2 ^ 24 + 0xFFFFFF + 1 = _ at helapsed
      change (timer.gWraps.toNat + (timer.outstanding + 1)) * 2 ^ 24 + 0 + 1 = _
      omega
  · have hvalue := toNat_cvr_tick hcvr
    have hle := h.cvr_le
    have hpositive : timer.cvr.toNat ≠ 0 := fun hzero ↦ hcvr (UInt32.toNat_inj.mp hzero)
    refine ⟨by omega, fun hticks ↦ absurd hticks (Nat.succ_ne_zero _), fun _ ↦ ?_⟩
    have hticks : 0 < timer.ticks := Nat.pos_of_ne_zero fun hzero ↦ hcvr (h.cleared hzero).1
    obtain ⟨hfirst, -, helapsed⟩ := h.counts hticks
    have houtstanding : timer.tick.outstanding = timer.outstanding := if_neg fun hand ↦ hcvr hand.1
    have hcounted : timer.tick.counted = true := by simp [SysTick.tick, hcvr]
    refine ⟨by rw [SysTick.tick, hfirst]; rfl, fun _ ↦ hcounted, ?_⟩
    rw [houtstanding, elapsed, hvalue]
    change _ = timer.ticks + 1
    change (timer.gWraps.toNat + timer.outstanding) * 2 ^ 24 + _ + 1 = _
    unfold elapsed at helapsed
    omega

theorem Exact.isrSystick (h : timer.Exact) (houtstanding : 0 < timer.outstanding)
    (hwraps : timer.gWraps.toNat + 1 < 2 ^ 32) : timer.isrSystick.Exact := by
  have hvalue : timer.isrSystick.gWraps.toNat = timer.gWraps.toNat + 1 := by
    rw [SysTick.isrSystick, UInt32.toNat_add]
    exact Nat.mod_eq_of_lt hwraps
  constructor
  · exact h.cvr_le
  · intro hticks
    rw [(h.cleared hticks).2.2.1] at houtstanding
    exact absurd houtstanding (Nat.lt_irrefl 0)
  · intro hticks
    obtain ⟨hfirst, hcounted, helapsed⟩ := h.counts hticks
    refine ⟨hfirst, hcounted, ?_⟩
    have hsum : timer.isrSystick.gWraps.toNat + timer.isrSystick.outstanding =
        timer.gWraps.toNat + timer.outstanding := by
      rw [hvalue]
      change timer.gWraps.toNat + 1 + (timer.outstanding - 1) = _
      omega
    rw [hsum]
    exact helapsed

end SysTick

/-! ## The values are exact -/

theorem toNat_masked {cvr : UInt32} (h : cvr.toNat ≤ 0xFFFFFF) : cvr &&& systickReload = cvr := by
  apply UInt32.toNat_inj.mp
  rw [UInt32.toNat_and, toNat_systickReload]
  exact (Nat.and_two_pow_sub_one_eq_mod _ 24).trans (Nat.mod_eq_of_lt (by omega))

/-- The recombination does not overflow. -/
theorem toNat_combine (w1 : UInt32) {v : UInt32} (h : v.toNat ≤ 0xFFFFFF) :
    (combine w1 v).toNat = elapsed w1.toNat v := by
  have hle : v ≤ systickReload := UInt32.le_iff_toNat_le.mpr h
  have hw1 := w1.toNat_lt
  have hperiod : (systickReload.toUInt64 + 1).toNat = 2 ^ 24 := by decide
  rw [combine, UInt64.toNat_add, UInt64.toNat_mul, UInt32.toNat_toUInt64, UInt32.toNat_toUInt64,
    UInt32.toNat_sub_of_le _ _ hle, hperiod, toNat_systickReload, elapsed]
  omega

/-- What the reads so far say about the counter. -/
def ReadState.Sound (timer : SysTick) (returned : List CycleReading) : ReadState → Prop
  | .start => True
  | .first w1 => w1.toNat ≤ timer.gWraps.toNat
  | .second w1 v readAt => v.toNat ≤ 0xFFFFFF ∧ readAt ≤ timer.ticks ∧
    (∀ reading ∈ returned, reading.readAt ≤ readAt) ∧
    ∃ wraps, w1.toNat ≤ wraps ∧ wraps ≤ timer.gWraps.toNat ∧
      (0 < readAt → elapsed wraps v + 1 = readAt)

/-- Values returned after the first reload are exact and in the order of their reads. -/
structure Foreground.Exact (timer : SysTick) (foreground : Foreground) : Prop where
  state : foreground.state.Sound timer foreground.returned
  values : ∀ reading ∈ foreground.returned, 0 < reading.readAt →
    reading.value.toNat + 1 = reading.readAt
  past : ∀ reading ∈ foreground.returned, reading.readAt ≤ timer.ticks
  ordered : foreground.returned.Pairwise fun earlier later ↦ earlier.readAt ≤ later.readAt

section Foreground

variable {timer : SysTick} {foreground : Foreground}

/-- Later ticks and wraps change nothing of what was read. -/
theorem Foreground.Exact.mono (h : foreground.Exact timer) {next : SysTick}
    (hticks : timer.ticks ≤ next.ticks) (hwraps : timer.gWraps.toNat ≤ next.gWraps.toNat) :
    foreground.Exact next where
  state := by
    have hstate := h.state
    cases hread : foreground.state with
    | start => trivial
    | first w1 =>
      rw [hread] at hstate
      exact hstate.trans hwraps
    | second w1 v readAt =>
      rw [hread] at hstate
      obtain ⟨hv, hreadAt, hpast, wraps, hle, hlater, helapsed⟩ := hstate
      exact ⟨hv, hreadAt.trans hticks, hpast, wraps, hle, hlater.trans hwraps, helapsed⟩
  values := h.values
  past reading hmem := (h.past reading hmem).trans hticks
  ordered := h.ordered

/-- A read keeps the values exact: two equal wrap counts are the count at the read between. -/
theorem Foreground.Exact.benchCycles (h : foreground.Exact timer) (htimer : timer.Exact)
    (houtstanding : timer.outstanding = 0) : (benchCycles timer foreground).Exact timer := by
  obtain ⟨state, returned⟩ := foreground
  have hstate := h.state
  unfold PqMqtt.Firmware.benchCycles
  cases state with
  | start => exact { h with state := le_rfl }
  | first w1 =>
    refine { h with state := ?_ }
    have hmasked := toNat_masked htimer.cvr_le
    refine ⟨?_, le_rfl, h.past, timer.gWraps.toNat, hstate, le_rfl, fun hticks ↦ ?_⟩
    · rw [hmasked]
      exact htimer.cvr_le
    · obtain ⟨-, -, helapsed⟩ := htimer.counts hticks
      rw [houtstanding] at helapsed
      rw [hmasked]
      exact helapsed
  | second w1 v readAt =>
    obtain ⟨hv, hreadAt, hpast, wraps, hle, hlater, helapsed⟩ := hstate
    dsimp only
    split
    · exact { h with state := trivial }
    · rename_i hequal
      have hwraps : wraps = w1.toNat := by
        rw [not_not.mp hequal] at hle ⊢
        exact le_antisymm hlater hle
      constructor
      · trivial
      · intro reading hmem hpositive
        rcases List.mem_append.mp hmem with hearlier | hlast
        · exact h.values reading hearlier hpositive
        · obtain rfl := List.mem_singleton.mp hlast
          rw [toNat_combine w1 hv, ← hwraps, helapsed hpositive]
      · intro reading hmem
        rcases List.mem_append.mp hmem with hearlier | hlast
        · exact h.past reading hearlier
        · obtain rfl := List.mem_singleton.mp hlast
          exact hreadAt
      · apply List.pairwise_append.mpr
        refine ⟨h.ordered, List.pairwise_singleton _ _, fun earlier hearlier later hlater ↦ ?_⟩
        obtain rfl := List.mem_singleton.mp hlater
        exact hpast earlier hearlier

end Foreground

/-! ## Every interleaving -/

/-- The counter and the values read from it are exact. -/
def TimedProgram.Exact (program : TimedProgram) : Prop :=
  program.timer.Exact ∧ program.foreground.Exact program.timer

namespace TimedProgram

theorem exact_start : start.Exact := by
  refine ⟨SysTick.exact_benchInit, trivial, ?_, ?_, List.Pairwise.nil⟩
  · intro reading hmem
    exact absurd hmem List.not_mem_nil
  · intro reading hmem
    exact absurd hmem List.not_mem_nil

theorem Exact.step {program : TimedProgram} (h : program.Exact) {event : TimerEvent}
    (hserviced : program.Serviced event)
    (hwraps : event = .isrSystick → program.timer.gWraps.toNat + 1 < 2 ^ 32) :
    (program.step event).Exact := by
  obtain ⟨htimer, hforeground⟩ := h
  cases event with
  | tick => exact ⟨htimer.tick, hforeground.mono (Nat.le_succ _) le_rfl⟩
  | isrSystick =>
    refine ⟨htimer.isrSystick hserviced (hwraps rfl), hforeground.mono le_rfl ?_⟩
    change _ ≤ (program.timer.gWraps + 1).toNat
    rw [UInt32.toNat_add]
    exact (Nat.le_succ _).trans (Nat.mod_eq_of_lt (hwraps rfl)).ge
  | read => exact ⟨htimer, hforeground.benchCycles htimer hserviced⟩

theorem toNat_gWraps_step_le (program : TimedProgram) (event : TimerEvent) :
    (program.step event).timer.gWraps.toNat ≤
      program.timer.gWraps.toNat + [event].count .isrSystick := by
  cases event with
  | tick => exact le_rfl
  | isrSystick =>
    change (program.timer.gWraps + 1).toNat ≤ _
    rw [UInt32.toNat_add]
    exact Nat.mod_le _ _
  | read => exact le_rfl

theorem Exact.run {program : TimedProgram} (h : program.Exact) {events : List TimerEvent}
    (hserviced : AllSteps TimedProgram.step Serviced program events)
    (hwraps : program.timer.gWraps.toNat + events.count .isrSystick < 2 ^ 32) :
    (Run.run TimedProgram.step program events).Exact := by
  induction events generalizing program with
  | nil => exact h
  | cons event events ih =>
    have hcount : (event :: events).count .isrSystick =
        [event].count .isrSystick + events.count .isrSystick := by
      rw [← List.singleton_append, List.count_append]
    have hnext := toNat_gWraps_step_le program event
    refine ih (h.step hserviced.1 ?_) hserviced.2 (by omega)
    rintro rfl
    rw [hcount, List.count_singleton_self] at hwraps
    omega

/-- The ticks of the program are the ticks of the run. -/
theorem ticks_run (program : TimedProgram) (events : List TimerEvent) :
    (Run.run step program events).timer.ticks = program.timer.ticks + events.count .tick := by
  induction events generalizing program with
  | nil => rfl
  | cons event events ih =>
    rw [run_cons, ih]
    cases event with
    | tick =>
      rw [List.count_cons_self]
      exact (Nat.add_assoc _ _ _).trans (congrArg _ (Nat.add_comm _ _))
    | isrSystick => rfl
    | read => rfl

end TimedProgram

/-- In every interleaving, each value whose counter read follows the first reload is the number of
ticks between the two, so such values never decrease and their differences count the ticks. -/
theorem cycles_exact (events : List TimerEvent)
    (hserviced : AllSteps TimedProgram.step TimedProgram.Serviced .start events)
    (hwraps : events.count .isrSystick < 2 ^ 32) {firstReload : ℕ}
    (hreload : (run TimedProgram.step .start events).timer.firstReload = some firstReload) :
    (∀ reading ∈ (run TimedProgram.step .start events).foreground.returned,
      firstReload ≤ reading.readAt → reading.value.toNat = reading.readAt - firstReload) ∧
    (run TimedProgram.step .start events).foreground.returned.Pairwise fun earlier later ↦
      earlier.readAt ≤ later.readAt ∧ (firstReload ≤ earlier.readAt →
        earlier.value ≤ later.value ∧
        (later.value - earlier.value).toNat = later.readAt - earlier.readAt) := by
  obtain ⟨htimer, hforeground⟩ := TimedProgram.exact_start.run hserviced
    ((Nat.zero_add _).trans_lt hwraps)
  generalize run TimedProgram.step .start events = program at *
  have hticks : 0 < program.timer.ticks := by
    apply Nat.pos_of_ne_zero
    intro hzero
    rw [(htimer.cleared hzero).2.2.2.2] at hreload
    cases hreload
  obtain rfl : 1 = firstReload := Option.some.inj ((htimer.counts hticks).1.symm.trans hreload)
  have hvalue : ∀ reading ∈ program.foreground.returned, 1 ≤ reading.readAt →
      reading.value.toNat = reading.readAt - 1 := by
    intro reading hmem hafter
    have hexact := hforeground.values reading hmem hafter
    omega
  refine ⟨hvalue, hforeground.ordered.imp_of_mem ?_⟩
  intro earlier later hearlier hlater hle
  refine ⟨hle, fun hafter ↦ ?_⟩
  have hfirst := hvalue earlier hearlier hafter
  have hsecond := hvalue later hlater (hafter.trans hle)
  have hvalues : earlier.value ≤ later.value := by
    rw [UInt64.le_iff_toNat_le]
    omega
  refine ⟨hvalues, ?_⟩
  rw [UInt64.toNat_sub_of_le _ _ hvalues]
  omega

/-- The counter falls from the tick that reloads it. -/
theorem run_firstPeriod {count : ℕ} (h : count ≤ 0xFFFFFF) :
    run TimedProgram.step .start (.tick :: List.replicate count .tick)
      = ⟨⟨systickReload - UInt32.ofNat count, decide (0 < count), 0, 0, count + 1, some 1⟩,
          ⟨.start, []⟩⟩ := by
  induction count with
  | zero => rfl
  | succ count ih =>
    have hcount : (UInt32.ofNat count).toNat = count := by
      rw [UInt32.toNat_ofNat', Nat.mod_eq_of_lt (by omega)]
    have hle : UInt32.ofNat count ≤ systickReload := by
      rw [UInt32.le_iff_toNat_le, hcount, toNat_systickReload]
      omega
    have hcvr : systickReload - UInt32.ofNat count ≠ 0 := by
      intro hzero
      have hvalue := congrArg UInt32.toNat hzero
      rw [UInt32.toNat_sub_of_le _ _ hle, hcount, toNat_systickReload] at hvalue
      change 0xFFFFFF - count = 0 at hvalue
      omega
    have hnext : systickReload - UInt32.ofNat count - 1
        = systickReload - UInt32.ofNat (count + 1) := by
      have hone : UInt32.ofNat (count + 1) = 1 + UInt32.ofNat count := by
        rw [UInt32.ofNat_add, UInt32.add_comm]
        rfl
      rw [UInt32.sub_eq_iff_eq_add, UInt32.sub_eq_iff_eq_add, UInt32.add_assoc, hone,
        UInt32.sub_add_cancel]
    rw [List.replicate_succ', ← List.cons_append, run_append, ih (by omega)]
    simp [TimedProgram.step, SysTick.tick, hcvr, hnext]

theorem serviced_ticks (program : TimedProgram) (count : ℕ) :
    AllSteps TimedProgram.step TimedProgram.Serviced program (List.replicate count .tick) := by
  induction count generalizing program with
  | zero => trivial
  | succ count ih => exact ⟨trivial, ih _⟩

/-- The events of two calls: the counter wraps between the first two reads, the handler runs, the
first call reads again, and a tick later the second call follows. -/
def wrapEvents : List TimerEvent :=
  [.read, .tick, .isrSystick, .read, .read, .read, .read, .read, .tick, .read, .read, .read]

/-- Two calls at the first wrap of the counter. -/
def twoCalls : List TimerEvent := (.tick :: List.replicate 0xFFFFFF .tick) ++ wrapEvents

/-- The program before the first of the two calls. -/
def beforeWrap : TimedProgram := ⟨⟨0, true, 0, 0, 0x1000000, some 1⟩, ⟨.start, []⟩⟩

theorem run_twoCalls :
    run TimedProgram.step .start twoCalls = run TimedProgram.step beforeWrap wrapEvents := by
  rw [twoCalls, run_append, run_firstPeriod le_rfl]
  rfl

theorem serviced_twoCalls :
    AllSteps TimedProgram.step TimedProgram.Serviced .start twoCalls := by
  rw [twoCalls, allSteps_append, run_firstPeriod le_rfl]
  refine ⟨⟨trivial, serviced_ticks _ _⟩, ?_⟩
  simp [wrapEvents, AllSteps, TimedProgram.Serviced, TimedProgram.step, SysTick.tick,
    SysTick.isrSystick, systickReload]

theorem cycles_exact_two_calls :
    (∀ reading ∈ (run TimedProgram.step .start twoCalls).foreground.returned,
      1 ≤ reading.readAt → reading.value.toNat = reading.readAt - 1) ∧
    (run TimedProgram.step .start twoCalls).foreground.returned.Pairwise fun earlier later ↦
      earlier.readAt ≤ later.readAt ∧ (1 ≤ earlier.readAt →
        earlier.value ≤ later.value ∧
        (later.value - earlier.value).toNat = later.readAt - earlier.readAt) := by
  have hwraps : twoCalls.count .isrSystick < 2 ^ 32 := by
    rw [twoCalls, List.count_append, List.count_cons_of_ne (by decide),
      List.count_replicate, if_neg (by decide)]
    decide
  have hreload : (run TimedProgram.step .start twoCalls).timer.firstReload = some 1 := by
    rw [run_twoCalls]
    rfl
  exact cycles_exact twoCalls serviced_twoCalls hwraps hreload

example : (run TimedProgram.step beforeWrap wrapEvents).foreground.returned.map
    (fun reading ↦ (reading.value, reading.readAt))
      = [(0x1000000, 0x1000001), (0x1000001, 0x1000002)] := by
  decide

/-- A call before the first tick reads the cleared register and returns a whole period. -/
theorem cycles_before_first_reload :
    let calls : List TimerEvent := [.read, .read, .read, .tick, .read, .read, .read]
    AllSteps TimedProgram.step TimedProgram.Serviced .start calls ∧
      calls.count .isrSystick < 2 ^ 32 ∧
      (run TimedProgram.step .start calls).foreground.returned.map
        (fun reading ↦ (reading.value, reading.readAt)) = [(0xFFFFFF, 0), (0, 1)] ∧
      ¬ (run TimedProgram.step .start calls).foreground.returned.Pairwise fun earlier later ↦
        earlier.value ≤ later.value := by
  refine ⟨?_, by decide, by decide, by decide⟩
  simp [AllSteps, TimedProgram.Serviced, TimedProgram.step, TimedProgram.start, SysTick.benchInit,
    SysTick.tick]

end PqMqtt.Firmware
