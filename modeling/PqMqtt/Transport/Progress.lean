import PqMqtt.Foundation.Lifecycle
import PqMqtt.Transport.Handshake
import PqMqtt.Transport.Resolve

/-!
# The progress of a connect call

`tls_connect_common` and `tls_connect_plain_attempt` take one connection object through the phases
DNS, TCP and, on the TLS transport, the handshake.  `Progress` is what such a call has done so far:
the object, the caller's result, and, for the history, the durations that were measured and the
operations on the object.  A call that returns makes a `Progress (Option γ)`, where `none` is NULL.

What is outside comes from a scenario: the return values of lwIP and wolfSSL, and the callbacks that
run while the call is waiting or between two of its steps.
-/

namespace PqMqtt.Transport

open Lifecycle
open Analysis (AttemptResult Timings FailureStage)

/-- `ERR_MEM` -/
def errMem : ℤ := -1

/-- `TLS_ATTEMPT_ERR_ALLOCATION` -/
def errAllocation : ℤ := -1000

/-- `struct timeval` -/
structure Timeval where
  tvSec : UInt64
  tvUsec : UInt64

/-- `(uint64_t)tv.tv_sec * 1000u + (uint64_t)tv.tv_usec / 1000u` -/
def Timeval.epochMs (tv : Timeval) : UInt64 := tv.tvSec * 1000 + tv.tvUsec / 1000

/-- What `memset` makes of the caller's result. -/
def zeroedResult : AttemptResult where
  timings := ⟨0, 0, 0, 0, 0⟩
  bandwidth := ⟨0, 0, 0, 0, 0, 0⟩
  tcpStartEpochMs := 0
  failureStage := .none
  errorCode := 0
  timedOut := false

/-- `time_us_64() - t0`, from two readings of the clock. -/
def Timer.elapsed (timer : Timer) (tick : ℕ) : UInt64 :=
  (timer.reading (tick + 1)).us - (timer.reading tick).us

/-- The time between two readings, added to the earlier one. -/
theorem Timer.us_add_sub {timer : Timer} {first second : ℕ} (h : first ≤ second) :
    timer.us first + ((timer.reading second).us - (timer.reading first).us).toNat
      = timer.us second := by
  have hle : timer.us first ≤ timer.us second := Timer.us_le h
  have hsub : ((timer.reading second).us - (timer.reading first).us).toNat
      = timer.us second - timer.us first :=
    UInt64.toNat_sub_of_le _ _ (UInt64.le_iff_toNat_le.mpr hle)
  omega

theorem Timer.us_add_elapsed (timer : Timer) (tick : ℕ) :
    timer.us tick + (timer.elapsed tick).toNat = timer.us (tick + 1) :=
  Timer.us_add_sub (Nat.le_succ tick)

/-- `*timed_out` of a call of `resolve_host`. -/
def Verdict.expired {α : Type*} : Verdict α → Bool
  | timedOut _ => true
  | _ => false

theorem Verdict.errorCode_of_expired {α : Type*} {verdict : Verdict α}
    (h : verdict.expired = true) : verdict.errorCode = some errTimeout := by
  cases verdict with
  | timedOut query => rfl
  | _ => exact nomatch h

/-- The operations of `tls_transport.h` on a connection object, and its allocation. -/
inductive ObjectOp where
  | calloc
  | getTimings
  | getBandwidth
  | ioTimedOut
  | write
  | read
  | close
deriving DecidableEq

def ObjectOp.effect : ObjectOp → Effect
  | calloc => .acquire
  | close => .release
  | _ => .use

namespace ObjectOp

theorem effect_eq_acquire_iff (op : ObjectOp) : op.effect = .acquire ↔ op = calloc := by
  cases op <;> decide

theorem effect_eq_release_iff (op : ObjectOp) : op.effect = .release ↔ op = close := by
  cases op <;> decide

theorem effect_eq_use_iff (op : ObjectOp) : op.effect = .use ↔ op ≠ calloc ∧ op ≠ close := by
  cases op <;> decide

end ObjectOp

/-- A callback of lwIP for a connection. -/
inductive Callback where
  | connected (err : ℤ)
  | recv (chain : Option Pbuf) (err : ℤ)
  | err (code : ℤ)

/-- What a connect call meets up to the end of its TCP phase: `calloc`, `resolve_host`,
`gettimeofday`, `tcp_new_ip_type`, `tcp_connect`, and the callbacks before the last look of the TCP
loop at the flags, between that look and the next one, and after it. -/
structure TcpScenario where
  allocated : Bool
  dns : Verdict UInt32
  wallClock : Timeval
  pcb : Bool
  tcpConnect : ℤ
  waiting : List Callback
  checking : List Callback
  settled : List Callback

/-- The durations of the phases that have ended. -/
structure Measured where
  dns : Option UInt64
  tcp : Option UInt64

structure Progress (γ : Type*) where
  conn : γ
  result : Option AttemptResult
  measured : Measured
  ops : List ObjectOp
  tick : ℕ

namespace Progress

variable {γ δ : Type*}

/-- Something happens to the object. -/
def map (progress : Progress γ) (change : γ → δ) : Progress δ where
  conn := change progress.conn
  result := progress.result
  measured := progress.measured
  ops := progress.ops
  tick := progress.tick

/-- An assignment to the caller's result, under `if (result)`. -/
def store (progress : Progress γ) (assign : AttemptResult → AttemptResult) : Progress γ :=
  { progress with result := progress.result.map assign }

/-- Values that the getters return are saved in the caller's result, under `if (result)`. -/
def save (progress : Progress γ) (getters : List ObjectOp)
    (assign : AttemptResult → AttemptResult) : Progress γ :=
  match progress.result with
  | none => progress
  | some result =>
      { progress with result := some (assign result), ops := progress.ops ++ getters }

/-- `calloc` has returned NULL. -/
def notAllocated (result : Option AttemptResult) (tick : ℕ) : Progress (Option γ) where
  conn := none
  result := result.map fun _ ↦
    { zeroedResult with failureStage := .dns, errorCode := Int32.ofInt errAllocation }
  measured := ⟨none, none⟩
  ops := []
  tick := tick

/-- `calloc` has returned an object. -/
def allocated (conn : γ) (result : Option AttemptResult) (tick : ℕ) : Progress γ where
  conn := conn
  result := result.map fun _ ↦ zeroedResult
  measured := ⟨none, none⟩
  ops := [.calloc]
  tick := tick

/-- `c->dns_us = time_us_64() - t0;` -/
def recordDns (progress : Progress γ) (timer : Timer) (assign : γ → UInt64 → γ) : Progress γ :=
  let dnsUs := timer.elapsed progress.tick
  { progress with
    conn := assign progress.conn dnsUs
    measured := { progress.measured with dns := some dnsUs }
    tick := progress.tick + 2 }

/-- `c->tcp_connect_us = time_us_64() - t0;` -/
def recordTcp (progress : Progress γ) (timer : Timer) (assign : γ → UInt64 → γ) : Progress γ :=
  let tcpUs := timer.elapsed progress.tick
  { progress with
    conn := assign progress.conn tcpUs
    measured := { progress.measured with tcp := some tcpUs }
    tick := progress.tick + 2 }

/-- `tls_close(c); return NULL;` -/
def closed (progress : Progress γ) : Progress (Option γ) where
  conn := none
  result := progress.result
  measured := progress.measured
  ops := progress.ops ++ [.close]
  tick := progress.tick

/-- `return c;` -/
def returned (progress : Progress γ) : Progress (Option γ) where
  conn := some progress.conn
  result := progress.result
  measured := progress.measured
  ops := progress.ops
  tick := progress.tick

end Progress

/-! ## What holds on the way and at the exits -/

section Invariants

variable {γ : Type*} (timer : Timer) (timings : γ → Timings) (asked : Bool)

/-- The object is live and holds the durations measured so far, the result is there if it was asked
for and says nothing of a failure, and the phases fit in the time that has passed. -/
structure Progress.Sound (progress : Progress γ) : Prop where
  live : lifetime ObjectOp.effect progress.ops = .live
  pointer : progress.result.isSome = asked
  clear : ∀ result ∈ progress.result,
    result.failureStage = .none ∧ result.errorCode = 0 ∧ result.timedOut = false
  dns : ∀ us ∈ progress.measured.dns, (timings progress.conn).dnsUs = us
  tcp : ∀ us ∈ progress.measured.tcp, (timings progress.conn).tcpUs = us
  spent : (timings progress.conn).tcpUs.toNat + (timings progress.conn).tlsUs.toNat
    ≤ timer.us progress.tick

/-- The stages at which a connect call can fail. -/
def connectStages : List FailureStage :=
  [.dns, .tcp, .tlsContext, .certificate, .privateKey, .keyShare, .tlsHandshake]

/-- A connect call returned NULL: the object is gone or was never there, and the result names a
stage, with the timeout code if it says that a deadline passed. -/
structure Progress.Failed (progress : Progress (Option γ)) : Prop where
  gone : progress.ops = [] ∨ lifetime ObjectOp.effect progress.ops = .gone
  pointer : progress.result.isSome = asked
  stage : ∀ result ∈ progress.result, result.failureStage ∈ connectStages
  timeout : ∀ result ∈ progress.result,
    result.timedOut = true → result.errorCode = Int32.ofInt errTimeout
  spent : ∀ result ∈ progress.result,
    result.timings.tcpUs.toNat + result.timings.tlsUs.toNat < 2 ^ 64

/-- What a connect call guarantees when it returns. -/
def Progress.Settled (progress : Progress (Option γ)) : Prop :=
  match progress.conn with
  | none => progress.Failed asked
  | some conn => Progress.Sound timer timings asked { progress with conn := conn }

/-- A connect call that failed keeps the durations of the phases that ended in the result. -/
def Progress.Retained (progress : Progress (Option γ)) : Prop :=
  progress.conn = none → ∀ result ∈ progress.result,
    (∀ us ∈ progress.measured.dns, result.timings.dnsUs = us) ∧
      ∀ us ∈ progress.measured.tcp, result.timings.tcpUs = us

variable {timer timings asked}

theorem Progress.Settled.failed {progress : Progress (Option γ)}
    (h : progress.Settled timer timings asked) (hconn : progress.conn = none) :
    progress.Failed asked := by
  unfold Progress.Settled at h
  rwa [hconn] at h

theorem Progress.Settled.sound {progress : Progress (Option γ)}
    (h : progress.Settled timer timings asked) {conn : γ} (hconn : progress.conn = some conn) :
    Progress.Sound timer timings asked { progress with conn := conn } := by
  unfold Progress.Settled at h
  rwa [hconn] at h

/-- A change of the object that keeps its timings. -/
theorem Progress.Sound.map {δ : Type*} {timings' : δ → Timings} {progress : Progress γ}
    (h : progress.Sound timer timings asked) {change : γ → δ}
    (hchange : timings' (change progress.conn) = timings progress.conn) :
    (progress.map change).Sound timer timings' asked where
  live := h.live
  pointer := h.pointer
  clear := h.clear
  dns us hus := (congrArg Timings.dnsUs hchange).trans (h.dns us hus)
  tcp us hus := (congrArg Timings.tcpUs hchange).trans (h.tcp us hus)
  spent := by
    change (timings' (change progress.conn)).tcpUs.toNat
      + (timings' (change progress.conn)).tlsUs.toNat ≤ timer.us progress.tick
    rw [hchange]
    exact h.spent

/-- An assignment to the result that does not speak of a failure. -/
def Silent (assign : AttemptResult → AttemptResult) : Prop :=
  ∀ result, (assign result).failureStage = result.failureStage ∧
    (assign result).errorCode = result.errorCode ∧ (assign result).timedOut = result.timedOut

theorem Progress.Sound.store {progress : Progress γ} (h : progress.Sound timer timings asked)
    {assign : AttemptResult → AttemptResult} (hassign : Silent assign) :
    (progress.store assign).Sound timer timings asked where
  live := h.live
  pointer := Option.isSome_map.trans h.pointer
  clear stored hstored := by
    obtain ⟨result, hresult, rfl⟩ := Option.map_eq_some_iff.mp hstored
    obtain ⟨hstage, hcode, hout⟩ := hassign result
    rw [hstage, hcode, hout]
    exact h.clear result hresult
  dns := h.dns
  tcp := h.tcp
  spent := h.spent

theorem Progress.save_of_none {progress : Progress γ} (hresult : progress.result = none)
    (getters : List ObjectOp) (assign : AttemptResult → AttemptResult) :
    progress.save getters assign = progress := by
  unfold Progress.save
  rw [hresult]

theorem Progress.save_of_some {progress : Progress γ} {result : AttemptResult}
    (hresult : progress.result = some result) (getters : List ObjectOp)
    (assign : AttemptResult → AttemptResult) :
    progress.save getters assign =
      { progress with result := some (assign result), ops := progress.ops ++ getters } := by
  unfold Progress.save
  rw [hresult]

theorem Progress.Sound.save {progress : Progress γ} (h : progress.Sound timer timings asked)
    {getters : List ObjectOp} (hgetters : ∀ op ∈ getters, op.effect = .use)
    {assign : AttemptResult → AttemptResult} (hassign : Silent assign) :
    (progress.save getters assign).Sound timer timings asked := by
  cases hresult : progress.result with
  | none =>
    rw [Progress.save_of_none hresult]
    exact h
  | some result =>
    rw [Progress.save_of_some hresult]
    exact
      { live := live_append h.live hgetters
        pointer := (congrArg Option.isSome hresult).symm.trans h.pointer
        clear := fun stored hstored ↦ by
          obtain ⟨hstage, hcode, hout⟩ := hassign result
          rw [← Option.some.inj hstored, hstage, hcode, hout]
          exact h.clear result hresult
        dns := h.dns
        tcp := h.tcp
        spent := h.spent }

theorem Progress.Sound.recordDns {progress : Progress γ} (h : progress.Sound timer timings asked)
    {assign : γ → UInt64 → γ} (hassign : ∀ us,
      timings (assign progress.conn us) = { timings progress.conn with dnsUs := us }) :
    (progress.recordDns timer assign).Sound timer timings asked where
  live := h.live
  pointer := h.pointer
  clear := h.clear
  dns us hus := by
    rw [← Option.some.inj hus]
    exact congrArg Timings.dnsUs (hassign _)
  tcp us hus := (congrArg Timings.tcpUs (hassign _)).trans (h.tcp us hus)
  spent := by
    have hnow : timer.us progress.tick ≤ timer.us (progress.tick + 2) :=
      Timer.us_le (Nat.le_add_right _ 2)
    have hearlier := h.spent
    simp only [Progress.recordDns, hassign]
    omega

theorem Progress.Sound.recordTcp {progress : Progress γ} (h : progress.Sound timer timings asked)
    {assign : γ → UInt64 → γ} (hassign : ∀ us,
      timings (assign progress.conn us) = { timings progress.conn with tcpUs := us }) :
    (progress.recordTcp timer assign).Sound timer timings asked where
  live := h.live
  pointer := h.pointer
  clear := h.clear
  dns us hus := (congrArg Timings.dnsUs (hassign _)).trans (h.dns us hus)
  tcp us hus := by
    rw [← Option.some.inj hus]
    exact congrArg Timings.tcpUs (hassign _)
  spent := by
    have hearlier := h.spent
    have helapsed := timer.us_add_elapsed progress.tick
    have hnow : timer.us (progress.tick + 1) ≤ timer.us (progress.tick + 2) :=
      Timer.us_le (Nat.le_succ _)
    simp only [Progress.recordTcp, hassign]
    omega

/-- A failure exit: the result is filled in and the object is closed. -/
theorem Progress.Sound.failed {progress : Progress γ} (h : progress.Sound timer timings asked)
    {assign : AttemptResult → AttemptResult}
    (hstage : ∀ result, (assign result).failureStage ∈ connectStages)
    (htimeout : ∀ result ∈ progress.result, (assign result).timedOut = true →
      (assign result).errorCode = Int32.ofInt errTimeout)
    (hspent : ∀ result ∈ progress.result,
      (assign result).timings.tcpUs.toNat + (assign result).timings.tlsUs.toNat < 2 ^ 64) :
    (progress.store assign).closed.Failed asked where
  gone := Or.inr (gone_release h.live rfl)
  pointer := Option.isSome_map.trans h.pointer
  stage stored hstored := by
    obtain ⟨result, -, rfl⟩ := Option.map_eq_some_iff.mp hstored
    exact hstage result
  timeout stored hstored := by
    obtain ⟨result, hresult, rfl⟩ := Option.map_eq_some_iff.mp hstored
    exact htimeout result hresult
  spent stored hstored := by
    obtain ⟨result, hresult, rfl⟩ := Option.map_eq_some_iff.mp hstored
    exact hspent result hresult

/-- A failure exit that saves the timings first. -/
theorem Progress.Sound.settled_save {progress : Progress γ}
    (h : progress.Sound timer timings asked)
    {getters : List ObjectOp} (hgetters : ∀ op ∈ getters, op.effect = .use)
    {saved assign : AttemptResult → AttemptResult} (hsilent : Silent saved)
    (hsaved : ∀ result, (assign (saved result)).timings = timings progress.conn)
    (hstage : ∀ result, (assign result).failureStage ∈ connectStages)
    (htimeout : ∀ result, result.timedOut = false → (assign result).timedOut = true →
      (assign result).errorCode = Int32.ofInt errTimeout) :
    ((progress.save getters saved).store assign).closed.Settled timer timings asked ∧
      ((progress.save getters saved).store assign).closed.Retained := by
  have hsound := h.save hgetters hsilent
  have hmeasured : (progress.save getters saved).measured = progress.measured := by
    unfold Progress.save
    split <;> rfl
  have htimings : ∀ result ∈ (progress.save getters saved).result,
      (assign result).timings = timings progress.conn := by
    intro result hmem
    cases hresult : progress.result with
    | none =>
      rw [Progress.save_of_none hresult] at hmem
      exact nomatch hresult.symm.trans hmem
    | some stored =>
      rw [Progress.save_of_some hresult] at hmem
      rw [← Option.some.inj hmem]
      exact hsaved stored
  constructor
  · refine hsound.failed hstage (fun result hresult ↦ ?_) (fun result hresult ↦ ?_)
    · exact htimeout result (hsound.clear result hresult).2.2
    · rw [htimings result hresult]
      exact h.spent.trans_lt (timer.us_lt progress.tick)
  · intro _ stored hstored
    obtain ⟨result, hresult, rfl⟩ := Option.map_eq_some_iff.mp hstored
    change (∀ us ∈ (progress.save getters saved).measured.dns, (assign result).timings.dnsUs = us) ∧
      ∀ us ∈ (progress.save getters saved).measured.tcp, (assign result).timings.tcpUs = us
    rw [hmeasured, htimings result hresult]
    exact ⟨h.dns, h.tcp⟩

theorem Progress.settled_notAllocated (result : Option AttemptResult) (tick : ℕ) :
    (notAllocated result tick : Progress (Option γ)).Settled timer timings result.isSome := by
  refine ⟨Or.inl rfl, Option.isSome_map, ?_, ?_, ?_⟩
  all_goals
    intro stored hstored
    obtain ⟨-, -, rfl⟩ := Option.map_eq_some_iff.mp hstored
  · exact List.mem_cons_self ..
  · exact fun hout ↦ nomatch hout
  · exact Nat.two_pow_pos 64

theorem Progress.retained_notAllocated (result : Option AttemptResult) (tick : ℕ) :
    (notAllocated result tick : Progress (Option γ)).Retained :=
  fun _ _ _ ↦ ⟨fun _ hus ↦ (nomatch hus), fun _ hus ↦ (nomatch hus)⟩

theorem Progress.sound_allocated {conn : γ} (hspent : (timings conn).tcpUs.toNat +
    (timings conn).tlsUs.toNat = 0) (result : Option AttemptResult) (tick : ℕ) :
    (allocated conn result tick).Sound timer timings result.isSome where
  live := live_singleton rfl
  pointer := Option.isSome_map
  clear stored hstored := by
    obtain ⟨-, -, rfl⟩ := Option.map_eq_some_iff.mp hstored
    exact ⟨rfl, rfl, rfl⟩
  dns _ hus := nomatch hus
  tcp _ hus := nomatch hus
  spent := hspent.trans_le (Nat.zero_le _)

end Invariants

end PqMqtt.Transport
