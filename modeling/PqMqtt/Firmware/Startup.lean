import PqMqtt.Firmware.Ownership
import PqMqtt.Foundation.PeriodicAction

/-!
# The firmware from power on to its end

`main`: the chip and the network are brought up, the clock is set, the certificates are checked, and
the benchmark or one session with the broker follows.  A step is one call and what the world answers
to it; a round of a polling loop is one step as well.  The session is the one of `Mqtt.Session`,
here with the clock that decides when a reading is sent.
-/

namespace PqMqtt.Firmware

open Mqtt (Event Phase Session SessionConfig StatePayload TlsApi)

/-! ## The code -/

/-- What `main` is compiled for. -/
structure ProgramBuild where
  plain : Bool
  benchIters : ℕ
  caCertLen : ℕ
  clientCertLen : ℕ
  clientKeyLen : ℕ

/-- `CYW43_LINK_UP` -/
def linkUp : ℤ := 3

/-- `CYW43_LINK_BADAUTH`, `CYW43_LINK_FAIL` and `CYW43_LINK_NONET` -/
def linkFailures : List ℤ := [-3, -1, -2]

def ntpSyncTimeoutMs : ℕ := 60000

/-- 2025-01-01T00:00:00Z -/
def minValidUnixTime : ℤ := 1735689600

def pubIntervalMs : UInt32 := 5000

/-- What the world answers to a call: the time since boot in microseconds, the number that the
call returns, whether the interface has an address, the seconds of `gettimeofday` if it succeeds,
whether SNTP has set the clock, the new connection, and the payload if it could be built. -/
structure Answer (σ : Type*) where
  time : ℕ
  code : ℤ
  validIp : Bool
  seconds : Option ℤ
  sntpTimeSet : Bool
  conn : Option σ
  payload : Option StatePayload

/-- `current_time_is_sane` -/
def Answer.currentTimeIsSane {σ : Type*} (answer : Answer σ) : Bool :=
  answer.seconds.any fun seconds ↦ minValidUnixTime ≤ seconds

/-- The call that `main` makes next. -/
inductive Stage (σ : Type*) where
  | init
  | wifiConnect (attempt : ℕ)
  | wifiPoll (attempt deadline : ℕ)
  | clock
  | clockPoll (deadline : ℕ)
  | certificates
  | benchmark
  | connect
  | session (lastPub : UInt32) (returns : ℤ) (session : Session σ)
  | deinit (returns : ℤ)
  | exited (returns : ℤ)

/-- `main` between two calls, and the time before which it sleeps. -/
structure Program (σ : Type*) where
  stage : Stage σ
  ready : ℕ

namespace Program

section Code

variable {σ : Type*}

/-- After `sleep_ms(ms)`. -/
def sleep (stage : Stage σ) (answer : Answer σ) (ms : ℕ) : Program σ :=
  ⟨stage, answer.time + ms * 1000⟩

/-- The next round of the loop in `wifi_connect`, or its end. -/
def nextAttempt (attempt : ℕ) : Stage σ :=
  if attempt < 5 then .wifiConnect (attempt + 1) else .deinit 1

variable (build : ProgramBuild) (cfg : SessionConfig) (api : TlsApi σ)

/-- A build without TLS and without the benchmark skips the synchronization. -/
def needsClock : Bool := build.benchIters > 0 || !build.plain

/-- The certificates were populated. -/
def certificatesPopulated : Bool :=
  build.plain || !(build.caCertLen ≤ 1 || build.clientCertLen ≤ 1 || build.clientKeyLen ≤ 1)

/-- One turn of the publish loop, or the call of another phase. -/
def sessionStep (lastPub : UInt32) (returns : ℤ) (session : Session σ) (answer : Answer σ) :
    Program σ :=
  if session.phase = .publishing then
    if Periodic.due pubIntervalMs lastPub answer.time then
      let event := answer.payload.elim Event.turn Event.reading
      let after := session.step cfg api event
      if after.phase = .publishing then
        sleep (.session (millis answer.time) returns after) answer 10
      else sleep (.session (millis answer.time) 0 after) answer 0
    else sleep (.session lastPub returns session) answer 10
  else
    let after := session.step cfg api .turn
    if after.phase = .closed then sleep (.deinit returns) answer 0
    else sleep (.session lastPub returns after) answer 0

/-- `main`, from one call to the next. -/
def step (program : Program σ) (answer : Answer σ) : Program σ :=
  match program.stage with
  | .init =>
    if answer.code ≠ 0 then sleep (.exited 1) answer 0 else sleep (.wifiConnect 1) answer 0
  | .wifiConnect attempt =>
    if answer.code ≠ 0 then sleep (nextAttempt attempt) answer 3000
    else sleep (.wifiPoll attempt (answer.time + 60000 * 1000)) answer 0
  | .wifiPoll attempt deadline =>
    if deadline ≤ answer.time then sleep (nextAttempt attempt) answer 3000
    else if answer.code = linkUp && answer.validIp then
      sleep (if needsClock build then .clock else .certificates) answer 0
    else if answer.code ∈ linkFailures then sleep (nextAttempt attempt) answer 3000
    else sleep (.wifiPoll attempt deadline) answer 500
  | .clock =>
    if answer.currentTimeIsSane then sleep .certificates answer 0
    else sleep (.clockPoll (answer.time + ntpSyncTimeoutMs * 1000)) answer 0
  | .clockPoll deadline =>
    if deadline ≤ answer.time then sleep (.deinit 1) answer 0
    else if answer.sntpTimeSet && answer.currentTimeIsSane then sleep .certificates answer 0
    else sleep (.clockPoll deadline) answer 250
  | .certificates =>
    if certificatesPopulated build then
      sleep (if build.benchIters > 0 then .benchmark else .connect) answer 0
    else sleep (.deinit 1) answer 0
  | .benchmark => sleep (.deinit answer.code) answer 0
  | .connect =>
    match answer.conn with
    | none => sleep (.deinit 1) answer 0
    | some device => sleep (.session 0 1 (Session.start device)) answer 0
  | .session lastPub returns session => sessionStep cfg api lastPub returns session answer
  | .deinit returns => sleep (.exited returns) answer 0
  | .exited _ => program

/-- Power on. -/
def start : Program σ := ⟨.init, 0⟩

/-- The call of a step with its answer; nothing is called after the end. -/
def made (program : Program σ) (answer : Answer σ) : List (Stage σ × Answer σ) :=
  match program.stage with
  | .exited _ => []
  | stage => [(stage, answer)]

end Code

/-! ## Guards -/

section Guards

variable {σ : Type*} (build : ProgramBuild) (cfg : SessionConfig) (api : TlsApi σ)

/-- The network was found up with an address, before the deadline of its attempt. -/
def NetworkUp (calls : List (Stage σ × Answer σ)) : Prop :=
  ∃ call ∈ calls, ∃ attempt deadline, call.1 = .wifiPoll attempt deadline ∧
    call.2.time < deadline ∧ call.2.code = linkUp ∧ call.2.validIp = true

/-- The clock was read, at once or after SNTP had set it, and was not before 2025. -/
def ClockRead (calls : List (Stage σ × Answer σ)) : Prop :=
  ∃ call ∈ calls, (call.1 = .clock ∨ ∃ deadline, call.1 = .clockPoll deadline ∧
    call.2.time < deadline ∧ call.2.sntpTimeSet = true) ∧
      ∃ seconds, call.2.seconds = some seconds ∧ minValidUnixTime ≤ seconds

/-- A connection was opened. -/
def Opened (calls : List (Stage σ × Answer σ)) (device : σ) : Prop :=
  ∃ call ∈ calls, call.1 = .connect ∧ call.2.conn = some device

/-- What has happened before a stage. -/
def Guarded (calls : List (Stage σ × Answer σ)) : Stage σ → Prop
  | .clock | .clockPoll _ => NetworkUp calls
  | .certificates => NetworkUp calls ∧ (needsClock build = true → ClockRead calls)
  | .benchmark | .connect => NetworkUp calls ∧ (needsClock build = true → ClockRead calls) ∧
      certificatesPopulated build = true
  | .session _ _ session => NetworkUp calls ∧ (needsClock build = true → ClockRead calls) ∧
      certificatesPopulated build = true ∧ session.phase ≠ .closed ∧
      ∃ device events, Opened calls device ∧
        session = Run.run (Session.step cfg api) (Session.start device) events
  | _ => True

variable {calls : List (Stage σ × Answer σ)}

theorem NetworkUp.append (h : NetworkUp calls) (more : List (Stage σ × Answer σ)) :
    NetworkUp (calls ++ more) := by
  obtain ⟨call, hcall, hup⟩ := h
  exact ⟨call, List.mem_append_left more hcall, hup⟩

theorem ClockRead.append (h : ClockRead calls) (more : List (Stage σ × Answer σ)) :
    ClockRead (calls ++ more) := by
  obtain ⟨call, hcall, hread⟩ := h
  exact ⟨call, List.mem_append_left more hcall, hread⟩

theorem Opened.append {device : σ} (h : Opened calls device) (more : List (Stage σ × Answer σ)) :
    Opened (calls ++ more) device := by
  obtain ⟨call, hcall, hopened⟩ := h
  exact ⟨call, List.mem_append_left more hcall, hopened⟩

theorem exists_seconds {answer : Answer σ} (h : answer.currentTimeIsSane = true) :
    ∃ seconds, answer.seconds = some seconds ∧ minValidUnixTime ≤ seconds := by
  obtain ⟨seconds, hseconds, hvalid⟩ := (Option.any_eq_true _ _).mp h
  exact ⟨seconds, hseconds, of_decide_eq_true hvalid⟩

theorem next_eq_closed {phase : Phase} {ok : Bool} (h : phase.next ok = .closed) :
    phase = .disconnecting ∨ phase = .closed := by
  cases phase <;> cases ok <;> simp_all [Phase.next]

/-- A session that is not closed closes by its call of `mqtt_disconnect`. -/
theorem disconnecting_of_closed {session : Session σ} (hopen : session.phase ≠ .closed)
    {event : Event} (h : (session.step cfg api event).phase = .closed) :
    session.phase = .disconnecting := by
  unfold Session.step at h
  split at h
  · exact absurd h hopen
  · exact (next_eq_closed h).elim id fun hclosed ↦ absurd hclosed hopen

/-- What is kept of a session by one more of its steps. -/
theorem exists_run_step {session : Session σ} (h : ∃ device events, Opened calls device ∧
      session = Run.run (Session.step cfg api) (Session.start device) events)
    (event : Event) (more : List (Stage σ × Answer σ)) :
    ∃ device events, Opened (calls ++ more) device ∧
      session.step cfg api event =
        Run.run (Session.step cfg api) (Session.start device) events := by
  obtain ⟨device, events, hopened, hsession⟩ := h
  refine ⟨device, events ++ [event], hopened.append more, ?_⟩
  rw [Run.run_append, ← hsession]
  rfl

theorem guarded_sessionStep {lastPub : UInt32} {returns : ℤ} {session : Session σ}
    (h : Guarded build cfg api calls (.session lastPub returns session)) (answer : Answer σ)
    (more : List (Stage σ × Answer σ)) :
    Guarded build cfg api (calls ++ more)
      (sessionStep cfg api lastPub returns session answer).stage := by
  obtain ⟨hnetwork, hclock, hcertificates, hphase, hsession⟩ := h
  have hmore : NetworkUp (calls ++ more) ∧ (needsClock build = true → ClockRead (calls ++ more)) ∧
      certificatesPopulated build = true :=
    ⟨hnetwork.append more, fun hneeds ↦ (hclock hneeds).append more, hcertificates⟩
  have hopen {event : Event} (hnot : session.phase ≠ .disconnecting) :
      (session.step cfg api event).phase ≠ .closed :=
    fun hclosed ↦ hnot (disconnecting_of_closed cfg api hphase hclosed)
  unfold sessionStep
  split
  · rename_i hpublishing
    have hnot : session.phase ≠ .disconnecting := by
      rw [hpublishing]
      exact Phase.noConfusion
    split
    · dsimp only
      split
      · exact ⟨hmore.1, hmore.2.1, hmore.2.2, hopen hnot, exists_run_step cfg api hsession _ _⟩
      · exact ⟨hmore.1, hmore.2.1, hmore.2.2, hopen hnot, exists_run_step cfg api hsession _ _⟩
    · obtain ⟨device, events, hopened, hrun⟩ := hsession
      exact ⟨hmore.1, hmore.2.1, hmore.2.2, hphase, device, events, hopened.append more, hrun⟩
  · dsimp only
    split
    · trivial
    · rename_i hclosed
      exact ⟨hmore.1, hmore.2.1, hmore.2.2, hclosed, exists_run_step cfg api hsession _ _⟩

theorem guarded_nextAttempt (attempt : ℕ) :
    Guarded build cfg api calls (nextAttempt attempt : Stage σ) := by
  unfold nextAttempt
  split <;> trivial

theorem guarded_wifiConnect (attempt ready : ℕ) (answer : Answer σ) :
    Guarded build cfg api calls
      (step build cfg api ⟨.wifiConnect attempt, ready⟩ answer).stage := by
  unfold step
  dsimp only
  split
  · exact guarded_nextAttempt build cfg api attempt
  · trivial

/-- The network is up when the polling of its attempt ends well. -/
theorem guarded_wifiPoll (attempt deadline ready : ℕ) (answer : Answer σ) :
    Guarded build cfg api (calls ++ [(.wifiPoll attempt deadline, answer)])
      (step build cfg api ⟨.wifiPoll attempt deadline, ready⟩ answer).stage := by
  unfold step
  dsimp only
  split
  · exact guarded_nextAttempt build cfg api attempt
  rename_i hreached
  split
  · rename_i hup
    rw [Bool.and_eq_true, decide_eq_true_iff] at hup
    have hnetwork : NetworkUp (calls ++ [(Stage.wifiPoll attempt deadline, answer)]) :=
      ⟨_, List.mem_append_right calls (List.mem_singleton_self _), attempt, deadline, rfl,
        Nat.lt_of_not_le hreached, hup.1, hup.2⟩
    cases hneeds : needsClock build with
    | true => exact hnetwork
    | false => exact ⟨hnetwork, fun hclock ↦ absurd (hneeds.symm.trans hclock) Bool.noConfusion⟩
  split
  · exact guarded_nextAttempt build cfg api attempt
  · trivial

/-- A sane clock is read at once or after SNTP has set it. -/
theorem guarded_clock (ready : ℕ) (h : NetworkUp calls) (answer : Answer σ) :
    Guarded build cfg api (calls ++ [(.clock, answer)])
      (step build cfg api ⟨.clock, ready⟩ answer).stage := by
  unfold step
  dsimp only
  split
  · rename_i hsane
    exact ⟨h.append _, fun _ ↦ ⟨_, List.mem_append_right calls (List.mem_singleton_self _),
      Or.inl rfl, exists_seconds hsane⟩⟩
  · exact h.append _

theorem guarded_clockPoll (deadline ready : ℕ) (h : NetworkUp calls) (answer : Answer σ) :
    Guarded build cfg api (calls ++ [(.clockPoll deadline, answer)])
      (step build cfg api ⟨.clockPoll deadline, ready⟩ answer).stage := by
  unfold step
  dsimp only
  split
  · trivial
  rename_i hreached
  split
  · rename_i hset
    rw [Bool.and_eq_true] at hset
    exact ⟨h.append _, fun _ ↦ ⟨_, List.mem_append_right calls (List.mem_singleton_self _),
      Or.inr ⟨deadline, rfl, Nat.lt_of_not_le hreached, hset.1⟩, exists_seconds hset.2⟩⟩
  · exact h.append _

theorem guarded_certificates (ready : ℕ) (h : Guarded build cfg api calls .certificates)
    (answer : Answer σ) (more : List (Stage σ × Answer σ)) :
    Guarded build cfg api (calls ++ more)
      (step build cfg api ⟨.certificates, ready⟩ answer).stage := by
  unfold step
  dsimp only
  split
  · rename_i hpopulated
    have hmore := And.intro (h.1.append more)
      (And.intro (fun hneeds ↦ (h.2 hneeds).append more) hpopulated)
    split
    · exact hmore
    · exact hmore
  · trivial

theorem guarded_connect (ready : ℕ) (h : Guarded build cfg api calls .connect)
    (answer : Answer σ) :
    Guarded build cfg api (calls ++ [(.connect, answer)])
      (step build cfg api ⟨.connect, ready⟩ answer).stage := by
  unfold step
  dsimp only
  cases hconn : answer.conn with
  | none => trivial
  | some device =>
    exact ⟨h.1.append _, fun hneeds ↦ (h.2.1 hneeds).append _, h.2.2, Phase.noConfusion, device,
      [], ⟨_, List.mem_append_right calls (List.mem_singleton_self _), rfl, hconn⟩, rfl⟩

theorem guarded_step {program : Program σ}
    (h : Guarded build cfg api calls program.stage) (answer : Answer σ) :
    Guarded build cfg api (calls ++ made program answer)
      (step build cfg api program answer).stage := by
  obtain ⟨stage, ready⟩ := program
  cases stage with
  | init =>
    unfold step
    dsimp only
    split <;> trivial
  | wifiConnect attempt => exact guarded_wifiConnect build cfg api attempt ready answer
  | wifiPoll attempt deadline => exact guarded_wifiPoll build cfg api attempt deadline ready answer
  | clock => exact guarded_clock build cfg api ready h answer
  | clockPoll deadline => exact guarded_clockPoll build cfg api deadline ready h answer
  | certificates => exact guarded_certificates build cfg api ready h answer _
  | benchmark => trivial
  | connect => exact guarded_connect build cfg api ready h answer
  | session lastPub returns session => exact guarded_sessionStep build cfg api h answer _
  | deinit returns => trivial
  | exited returns => trivial

/-! ## The end -/

/-- `cyw43_arch_deinit` has not been called. -/
def Running (calls : List (Stage σ × Answer σ)) : Prop :=
  ∀ call ∈ calls, ∀ returns, call.1 ≠ .deinit returns

/-- `mqtt_disconnect` has been called. -/
def Disconnected (calls : List (Stage σ × Answer σ)) : Prop :=
  ∃ call ∈ calls, ∃ lastPub returns session, call.1 = .session lastPub returns session ∧
    session.phase = .disconnecting

/-- A connection that was opened was given up. -/
def GivenUp (calls : List (Stage σ × Answer σ)) : Prop :=
  (∃ device, Opened calls device) → Disconnected calls

/-- The chip is shut down by the last call, after the connection was given up; only a chip that did
not start is not shut down. -/
def Shutdown (calls : List (Stage σ × Answer σ)) (returns : ℤ) : Prop :=
  (∃ answer : Answer σ, calls = [(.init, answer)] ∧ answer.code ≠ 0 ∧ returns = 1) ∨
    ∃ before answer, calls = before ++ [(.deinit returns, answer)] ∧ Running before ∧ GivenUp before

/-- Before the session there is no connection, and nothing has been shut down. -/
def Early (calls : List (Stage σ × Answer σ)) : Prop :=
  Running calls ∧ ∀ device, ¬Opened calls device

/-- The connections and the shutdown before a stage. -/
def Ending (calls : List (Stage σ × Answer σ)) : Stage σ → Prop
  | .session _ _ session => Running calls ∧ session.phase ≠ .closed
  | .deinit _ => Running calls ∧ GivenUp calls
  | .exited returns => Shutdown calls returns
  | .init => calls = []
  | _ => Early calls

theorem Running.concat (h : Running calls) {stage : Stage σ}
    (hstage : ∀ returns, stage ≠ .deinit returns) (answer : Answer σ) :
    Running (calls ++ [(stage, answer)]) := by
  intro call hcall
  rcases List.mem_append.mp hcall with hbefore | hlast
  · exact h call hbefore
  · rw [List.mem_singleton.mp hlast]
    exact hstage

theorem not_opened_concat (h : ∀ device, ¬Opened calls device) {stage : Stage σ}
    (hstage : stage ≠ .connect) (answer : Answer σ) (device : σ) :
    ¬Opened (calls ++ [(stage, answer)]) device := by
  intro ⟨call, hcall, hconnect, hconn⟩
  rcases List.mem_append.mp hcall with hbefore | hlast
  · exact h device ⟨call, hbefore, hconnect, hconn⟩
  · rw [List.mem_singleton.mp hlast] at hconnect
    exact hstage hconnect

theorem givenUp_of_not_opened (h : ∀ device, ¬Opened calls device) : GivenUp calls :=
  fun ⟨device, hopened⟩ ↦ absurd hopened (h device)

theorem ending_sessionStep {lastPub : UInt32} {returns : ℤ} {session : Session σ}
    (h : Ending calls (.session lastPub returns session)) (answer : Answer σ) :
    Ending (calls ++ [(.session lastPub returns session, answer)])
      (sessionStep cfg api lastPub returns session answer).stage := by
  obtain ⟨hrunning, hphase⟩ := h
  have hmore : Running (calls ++ [(Stage.session lastPub returns session, answer)]) :=
    hrunning.concat (by simp) answer
  have hopen {event : Event} (hnot : session.phase ≠ .disconnecting) :
      (session.step cfg api event).phase ≠ .closed :=
    fun hclosed ↦ hnot (disconnecting_of_closed cfg api hphase hclosed)
  unfold sessionStep
  split
  · rename_i hpublishing
    have hnot : session.phase ≠ .disconnecting := by
      rw [hpublishing]
      exact Phase.noConfusion
    split
    · dsimp only
      split
      · exact ⟨hmore, hopen hnot⟩
      · exact ⟨hmore, hopen hnot⟩
    · exact ⟨hmore, hphase⟩
  · dsimp only
    split
    · rename_i hclosed
      exact ⟨hmore, fun _ ↦ ⟨_, List.mem_append_right calls (List.mem_singleton_self _), lastPub,
        returns, session, rfl, disconnecting_of_closed cfg api hphase hclosed⟩⟩
    · rename_i hclosed
      exact ⟨hmore, hclosed⟩

theorem Early.concat (h : Early calls) {stage : Stage σ} (hconnect : stage ≠ .connect)
    (hdeinit : ∀ returns, stage ≠ .deinit returns) (answer : Answer σ) :
    Early (calls ++ [(stage, answer)]) :=
  ⟨h.1.concat hdeinit answer, not_opened_concat h.2 hconnect answer⟩

theorem Early.deinit (h : Early calls) (returns : ℤ) : Ending calls (.deinit returns) :=
  ⟨h.1, givenUp_of_not_opened h.2⟩

theorem Early.nextAttempt (h : Early calls) (attempt : ℕ) :
    Ending calls (nextAttempt attempt : Stage σ) := by
  unfold Program.nextAttempt
  split
  · exact h
  · exact h.deinit 1

theorem ending_init (ready : ℕ) (answer : Answer σ) :
    Ending [(.init, answer)] (step build cfg api ⟨.init, ready⟩ answer).stage := by
  unfold step
  dsimp only
  split
  · rename_i hfailed
    exact Or.inl ⟨answer, rfl, hfailed, rfl⟩
  · have hempty : Early ([] : List (Stage σ × Answer σ)) :=
      ⟨fun call hcall ↦ absurd hcall List.not_mem_nil,
        fun device ⟨call, hcall, _⟩ ↦ absurd hcall List.not_mem_nil⟩
    exact hempty.concat (by simp) (by simp) answer

theorem ending_wifiPoll (attempt deadline ready : ℕ) (h : Early calls) (answer : Answer σ) :
    Ending calls (step build cfg api ⟨.wifiPoll attempt deadline, ready⟩ answer).stage := by
  unfold step
  dsimp only
  split
  · exact h.nextAttempt attempt
  split
  · cases needsClock build with
    | true => exact h
    | false => exact h
  split
  · exact h.nextAttempt attempt
  · exact h

theorem ending_clockPoll (deadline ready : ℕ) (h : Early calls) (answer : Answer σ) :
    Ending calls (step build cfg api ⟨.clockPoll deadline, ready⟩ answer).stage := by
  unfold step
  dsimp only
  split
  · exact h.deinit 1
  split
  · exact h
  · exact h

theorem ending_certificates (ready : ℕ) (h : Early calls) (answer : Answer σ) :
    Ending calls (step build cfg api ⟨.certificates, ready⟩ answer).stage := by
  unfold step
  dsimp only
  split
  · split
    · exact h
    · exact h
  · exact h.deinit 1

theorem ending_connect (ready : ℕ) (h : Early calls) (answer : Answer σ) :
    Ending (calls ++ [(.connect, answer)])
      (step build cfg api ⟨.connect, ready⟩ answer).stage := by
  have hrunning : Running (calls ++ [(Stage.connect, answer)]) := h.1.concat (by simp) answer
  unfold step
  dsimp only
  cases hconn : answer.conn with
  | none =>
    refine ⟨hrunning, givenUp_of_not_opened ?_⟩
    intro device ⟨call, hcall, hconnect, hopened⟩
    rcases List.mem_append.mp hcall with hbefore | hlast
    · exact h.2 device ⟨call, hbefore, hconnect, hopened⟩
    · rw [List.mem_singleton.mp hlast, hconn] at hopened
      cases hopened
  | some device => exact ⟨hrunning, Phase.noConfusion⟩

theorem ending_step {program : Program σ} (h : Ending calls program.stage) (answer : Answer σ) :
    Ending (calls ++ made program answer) (step build cfg api program answer).stage := by
  obtain ⟨stage, ready⟩ := program
  -- Before the session every call but that of the connection leaves things as they are.
  have hmore (hearly : Early calls) (hconnect : stage ≠ .connect)
      (hdeinit : ∀ returns, stage ≠ .deinit returns) : Early (calls ++ [(stage, answer)]) :=
    hearly.concat hconnect hdeinit answer
  cases stage with
  | init =>
    obtain rfl : calls = [] := h
    exact ending_init build cfg api ready answer
  | wifiConnect attempt =>
    unfold step
    dsimp only
    split
    · exact (hmore h (by simp) (by simp)).nextAttempt attempt
    · exact hmore h (by simp) (by simp)
  | wifiPoll attempt deadline =>
    exact ending_wifiPoll build cfg api attempt deadline ready (hmore h (by simp) (by simp)) answer
  | clock =>
    unfold step
    dsimp only
    split
    · exact hmore h (by simp) (by simp)
    · exact hmore h (by simp) (by simp)
  | clockPoll deadline =>
    exact ending_clockPoll build cfg api deadline ready (hmore h (by simp) (by simp)) answer
  | certificates =>
    exact ending_certificates build cfg api ready (hmore h (by simp) (by simp)) answer
  | benchmark => exact (hmore h (by simp) (by simp)).deinit answer.code
  | connect => exact ending_connect build cfg api ready h answer
  | session lastPub returns session => exact ending_sessionStep cfg api h answer
  | deinit returns => exact Or.inr ⟨calls, answer, rfl, h⟩
  | exited returns =>
    unfold made
    rw [List.append_nil]
    exact h

/-- What `main` has done before its next call. -/
structure Guards (program : Program σ) (calls : List (Stage σ × Answer σ)) : Prop where
  guarded : Guarded build cfg api calls program.stage
  ending : Ending calls program.stage

/-- In every run no connection is attempted and no benchmark runs without the network, a clock after
2025 in every build that needs one, and certificates in every build with TLS.  The session is a run
of the session machine over the connection that was opened.  Every end but that of a chip that did
not start shuts the chip down once, last, and after the connection was given up. -/
theorem startup_guards (answers : List (Answer σ)) :
    Guards build cfg api (Run.run (step build cfg api) start answers)
      (Run.trace (step build cfg api) made start answers) := by
  have hstart : Guards build cfg api start [] := ⟨trivial, rfl⟩
  refine Run.run_trace_invariant ?_ hstart answers
  intro program calls answer h
  exact ⟨guarded_step build cfg api h.guarded answer, ending_step build cfg api h.ending answer⟩

end Guards

/-! ## The start ends -/

section Termination

variable {σ : Type*} (build : ProgramBuild) (cfg : SessionConfig) (api : TlsApi σ)

/-- The clock does not go back, and `sleep_ms` sleeps for its time at least. -/
def Timed (program : Program σ) (answer : Answer σ) : Prop := program.ready ≤ answer.time

/-- The rounds that are left of a loop that sleeps between its rounds. -/
def roundsLeft (width deadline ready : ℕ) : ℕ := (deadline - ready + (width - 1)) / width + 1

/-- The calls that are left before a session or the end. -/
def callsLeft (program : Program σ) : ℕ :=
  match program.stage with
  | .init => 855
  | .wifiConnect attempt => (6 - attempt) * 122 + 244
  | .wifiPoll attempt deadline =>
    (5 - attempt) * 122 + roundsLeft (500 * 1000) deadline program.ready + 244
  | .clock => 244
  | .clockPoll deadline => roundsLeft (250 * 1000) deadline program.ready + 2
  | .certificates => 2
  | .benchmark | .connect => 1
  | _ => 0

/-- The attempts are counted up to five. -/
def Counted (program : Program σ) : Prop :=
  match program.stage with
  | .wifiConnect attempt | .wifiPoll attempt _ => attempt ≤ 5
  | _ => True

/-- A round before the deadline uses up one of the rounds that are left. -/
theorem roundsLeft_sleep {width deadline ready time : ℕ} (hwidth : 0 < width)
    (hready : ready ≤ time) (htime : time < deadline) :
    roundsLeft width deadline (time + width) + 1 ≤ roundsLeft width deadline ready := by
  unfold roundsLeft
  have hleft : (deadline - (time + width) + (width - 1)) / width + 1 ≤
      (deadline - ready + (width - 1)) / width := by
    rcases le_total width (deadline - ready) with hlong | hshort
    · rw [← Nat.add_div_right _ hwidth]
      exact Nat.div_le_div_right (by omega)
    · have hlast : deadline - (time + width) = 0 := by omega
      rw [hlast, Nat.zero_add, Nat.div_eq_of_lt (by omega), Nat.zero_add,
        Nat.le_div_iff_mul_le hwidth]
      omega
  omega

theorem callsLeft_nextAttempt {attempt : ℕ} (hattempt : attempt ≤ 5) (answer : Answer σ) (ms : ℕ) :
    Counted (sleep (nextAttempt attempt) answer ms) ∧
      callsLeft (sleep (nextAttempt attempt) answer ms) ≤ (5 - attempt) * 122 + 244 := by
  unfold nextAttempt
  split
  · rename_i hmore
    exact ⟨hmore, by simp only [callsLeft, sleep]; omega⟩
  · exact ⟨trivial, Nat.zero_le _⟩

/-- A step before the session uses up one of the calls that are left. -/
def UsesUp (program after : Program σ) : Prop :=
  Counted after ∧ callsLeft after ≤ callsLeft program - 1

section Phases

variable {answer : Answer σ}

theorem usesUp_wifiConnect {attempt : ℕ} (hattempt : attempt ≤ 5) (ready : ℕ) :
    UsesUp ⟨.wifiConnect attempt, ready⟩
      (step build cfg api ⟨.wifiConnect attempt, ready⟩ answer) := by
  unfold step
  dsimp only
  split
  · obtain ⟨hnext, hleft⟩ := callsLeft_nextAttempt hattempt answer 3000
    exact ⟨hnext, by simp only [callsLeft] at hleft ⊢; omega⟩
  · have hrounds : roundsLeft (500 * 1000) (answer.time + 60000 * 1000) answer.time = 121 := by
      unfold roundsLeft
      rw [Nat.add_sub_cancel_left]
    refine ⟨hattempt, ?_⟩
    simp only [callsLeft, sleep, Nat.zero_mul, Nat.add_zero, hrounds]
    omega

theorem usesUp_wifiPoll {attempt ready : ℕ} (hattempt : attempt ≤ 5) (deadline : ℕ)
    (htimed : ready ≤ answer.time) :
    UsesUp ⟨.wifiPoll attempt deadline, ready⟩
      (step build cfg api ⟨.wifiPoll attempt deadline, ready⟩ answer) := by
  obtain ⟨hnext, hleft⟩ := callsLeft_nextAttempt hattempt answer 3000
  have hlater : callsLeft (sleep (nextAttempt attempt) answer 3000) ≤
      callsLeft (⟨.wifiPoll attempt deadline, ready⟩ : Program σ) - 1 := by
    simp only [callsLeft, roundsLeft] at hleft ⊢
    omega
  unfold step
  dsimp only
  split
  · exact ⟨hnext, hlater⟩
  rename_i hreached
  split
  · split
    · exact ⟨trivial, by simp only [callsLeft, sleep, roundsLeft]; omega⟩
    · exact ⟨trivial, by simp only [callsLeft, sleep, roundsLeft]; omega⟩
  split
  · exact ⟨hnext, hlater⟩
  · have hround : roundsLeft (500 * 1000) deadline (answer.time + 500 * 1000) + 1 ≤
        roundsLeft (500 * 1000) deadline ready :=
      roundsLeft_sleep (by omega) htimed (Nat.lt_of_not_le hreached)
    exact ⟨hattempt, by simp only [callsLeft, sleep]; omega⟩

theorem usesUp_clock (ready : ℕ) :
    UsesUp ⟨.clock, ready⟩ (step build cfg api ⟨.clock, ready⟩ answer) := by
  unfold step
  dsimp only
  split
  · exact ⟨trivial, by simp [callsLeft, sleep]⟩
  · have hrounds : roundsLeft (250 * 1000) (answer.time + ntpSyncTimeoutMs * 1000) answer.time =
        241 := by
      unfold roundsLeft
      rw [Nat.add_sub_cancel_left]
      rfl
    refine ⟨trivial, ?_⟩
    simp only [callsLeft, sleep, Nat.zero_mul, Nat.add_zero, hrounds]
    omega

theorem usesUp_clockPoll {ready : ℕ} (deadline : ℕ) (htimed : ready ≤ answer.time) :
    UsesUp ⟨.clockPoll deadline, ready⟩
      (step build cfg api ⟨.clockPoll deadline, ready⟩ answer) := by
  unfold step
  dsimp only
  split
  · exact ⟨trivial, Nat.zero_le _⟩
  rename_i hreached
  split
  · exact ⟨trivial, by simp only [callsLeft, sleep, roundsLeft]; omega⟩
  · have hround : roundsLeft (250 * 1000) deadline (answer.time + 250 * 1000) + 1 ≤
        roundsLeft (250 * 1000) deadline ready :=
      roundsLeft_sleep (by omega) htimed (Nat.lt_of_not_le hreached)
    exact ⟨trivial, by simp only [callsLeft, sleep]; omega⟩

theorem usesUp_certificates (ready : ℕ) :
    UsesUp ⟨.certificates, ready⟩ (step build cfg api ⟨.certificates, ready⟩ answer) := by
  unfold step
  dsimp only
  split
  · split
    · exact ⟨trivial, by simp [callsLeft, sleep]⟩
    · exact ⟨trivial, by simp [callsLeft, sleep]⟩
  · exact ⟨trivial, Nat.zero_le _⟩

/-- From the session on no call is left. -/
theorem usesUp_sessionStep (program : Program σ) (lastPub : UInt32) (returns : ℤ)
    (session : Session σ) :
    UsesUp program (sessionStep cfg api lastPub returns session answer) := by
  have hsession (stage : Stage σ) (ms : ℕ) (h : (∃ lastPub returns session,
      stage = .session lastPub returns session) ∨ ∃ returns, stage = .deinit returns) :
      UsesUp program (sleep stage answer ms) := by
    obtain ⟨lastPub, returns, session, rfl⟩ | ⟨returns, rfl⟩ := h
    · exact ⟨trivial, Nat.zero_le _⟩
    · exact ⟨trivial, Nat.zero_le _⟩
  unfold sessionStep
  dsimp only
  split_ifs
  · exact hsession _ _ (Or.inl ⟨_, _, _, rfl⟩)
  · exact hsession _ _ (Or.inl ⟨_, _, _, rfl⟩)
  · exact hsession _ _ (Or.inl ⟨_, _, _, rfl⟩)
  · exact hsession _ _ (Or.inr ⟨_, rfl⟩)
  · exact hsession _ _ (Or.inl ⟨_, _, _, rfl⟩)

end Phases

theorem callsLeft_step {program : Program σ} {answer : Answer σ} (hcounted : Counted program)
    (htimed : Timed program answer) : UsesUp program (step build cfg api program answer) := by
  obtain ⟨stage, ready⟩ := program
  cases stage with
  | init =>
    unfold step
    dsimp only
    split
    · exact ⟨trivial, Nat.zero_le _⟩
    · exact ⟨by simp [Counted, sleep], by simp [callsLeft, sleep]⟩
  | wifiConnect attempt => exact usesUp_wifiConnect build cfg api hcounted ready
  | wifiPoll attempt deadline => exact usesUp_wifiPoll build cfg api hcounted deadline htimed
  | clock => exact usesUp_clock build cfg api ready
  | clockPoll deadline => exact usesUp_clockPoll build cfg api deadline htimed
  | certificates => exact usesUp_certificates build cfg api ready
  | benchmark => exact ⟨trivial, Nat.zero_le _⟩
  | connect =>
    unfold step
    dsimp only
    split
    · exact ⟨trivial, Nat.zero_le _⟩
    · exact ⟨trivial, Nat.zero_le _⟩
  | session lastPub returns session => exact usesUp_sessionStep cfg api _ lastPub returns session
  | deinit returns => exact ⟨trivial, Nat.zero_le _⟩
  | exited returns => exact ⟨trivial, Nat.zero_le _⟩

/-- The session or the end has been reached. -/
inductive Started : Stage σ → Prop
  | session (lastPub : UInt32) (returns : ℤ) (session : Session σ) :
      Started (.session lastPub returns session)
  | deinit (returns : ℤ) : Started (.deinit returns)
  | exited (returns : ℤ) : Started (.exited returns)

/-- Whatever the network, the time servers and the benchmark answer, `main` reaches its session or
its end after at most 855 calls. -/
theorem startup_ends {answers : List (Answer σ)}
    (htimed : Run.AllSteps (step build cfg api) Timed start answers)
    (hlength : 855 ≤ answers.length) :
    Started (Run.run (step build cfg api) start answers).stage := by
  have hstart : Counted (start : Program σ) := trivial
  have hleft : callsLeft (Run.run (step build cfg api) start answers) ≤
      callsLeft (start : Program σ) - answers.length :=
    Run.measure_run_le callsLeft
      (fun _ _ hcounted htimed ↦ callsLeft_step build cfg api hcounted htimed) hstart htimed
  have hzero : callsLeft (Run.run (step build cfg api) start answers) = 0 := by
    have hmost : callsLeft (start : Program σ) = 855 := rfl
    omega
  generalize Run.run (step build cfg api) start answers = program at hzero
  obtain ⟨stage, ready⟩ := program
  cases stage with
  | session lastPub returns session => exact Started.session lastPub returns session
  | deinit returns => exact Started.deinit returns
  | exited returns => exact Started.exited returns
  | init | wifiConnect | wifiPoll | clock | clockPoll | certificates | benchmark | connect =>
    simp [callsLeft] at hzero

end Termination

/-! ## The publish loop -/

section Publishing

variable {σ : Type*} (build : ProgramBuild) (cfg : SessionConfig) (api : TlsApi σ)

/-- The time of a turn of the publish loop. -/
def turnTime (call : Stage σ × Answer σ) : Option ℕ :=
  match call.1 with
  | .session _ _ session => if session.phase = .publishing then some call.2.time else none
  | _ => none

/-- The time of a turn in which a reading is due: its payload is built and sent, and when it cannot
be built, the turn counts for the interval all the same. -/
def readingTime (call : Stage σ × Answer σ) : Option ℕ :=
  match call.1 with
  | .session lastPub _ session =>
    if session.phase = .publishing ∧ Periodic.due pubIntervalMs lastPub call.2.time then
      some call.2.time
    else none
  | _ => none

/-- The turns of the publish loop so far. -/
def turns (calls : List (Stage σ × Answer σ)) : List ℕ := calls.filterMap turnTime

/-- The turns so far in which a reading was due. -/
def readings (calls : List (Stage σ × Answer σ)) : List ℕ := calls.filterMap readingTime

/-- `last_pub` is the clock at the last reading. -/
def LastPub (turns : List ℕ) : Stage σ → Prop
  | .session lastPub _ _ => lastPub = Periodic.lastAfter pubIntervalMs 0 turns
  | .deinit _ | .exited _ => True
  | _ => turns = []

/-- The readings are the periodic actions of the publish loop. -/
structure Clocked (program : Program σ) (calls : List (Stage σ × Answer σ)) : Prop where
  readings : readings calls = Periodic.actions pubIntervalMs 0 (turns calls)
  lastPub : LastPub (turns calls) program.stage

variable {calls : List (Stage σ × Answer σ)}

/-- A call outside the publish loop is neither a turn nor a reading. -/
theorem turns_concat {call : Stage σ × Answer σ} (h : turnTime call = none) :
    turns (calls ++ [call]) = turns calls := by
  unfold turns
  rw [List.filterMap_append, List.filterMap_cons_none h, List.filterMap_nil, List.append_nil]

theorem readings_concat {call : Stage σ × Answer σ} (h : readingTime call = none) :
    readings (calls ++ [call]) = readings calls := by
  unfold readings
  rw [List.filterMap_append, List.filterMap_cons_none h, List.filterMap_nil, List.append_nil]

theorem clocked_sessionStep {lastPub : UInt32} {returns : ℤ} {session : Session σ}
    (hreadings : readings calls = Periodic.actions pubIntervalMs 0 (turns calls))
    (hlast : lastPub = Periodic.lastAfter pubIntervalMs 0 (turns calls)) (answer : Answer σ) :
    Clocked (sessionStep cfg api lastPub returns session answer)
      (calls ++ [(.session lastPub returns session, answer)]) := by
  by_cases hpublishing : session.phase = .publishing
  · have hturn : turns (calls ++ [(Stage.session lastPub returns session, answer)]) =
        turns calls ++ [answer.time] := by
      have htime : turnTime (Stage.session lastPub returns session, answer) = some answer.time :=
        if_pos hpublishing
      unfold turns
      rw [List.filterMap_append, List.filterMap_cons_some htime, List.filterMap_nil]
    have hactions : Periodic.actions pubIntervalMs 0 (turns calls ++ [answer.time]) =
        readings calls ++ if Periodic.due pubIntervalMs lastPub answer.time then [answer.time]
          else [] := by
      rw [Periodic.actions_append, ← hlast, hreadings]
      rfl
    have hclock : Periodic.lastAfter pubIntervalMs 0 (turns calls ++ [answer.time]) =
        if Periodic.due pubIntervalMs lastPub answer.time then millis answer.time else lastPub := by
      rw [Periodic.lastAfter_concat, ← hlast]
    by_cases hdue : Periodic.due pubIntervalMs lastPub answer.time = true
    · have hreading : readings (calls ++ [(Stage.session lastPub returns session, answer)]) =
          readings calls ++ [answer.time] := by
        have htime : readingTime (Stage.session lastPub returns session, answer) =
            some answer.time := if_pos ⟨hpublishing, hdue⟩
        unfold readings
        rw [List.filterMap_append, List.filterMap_cons_some htime, List.filterMap_nil]
      rw [if_pos hdue] at hactions hclock
      unfold sessionStep
      rw [if_pos hpublishing, if_pos hdue]
      dsimp only
      constructor
      · rw [hreading, hturn, hactions]
      · split
        · exact (hturn ▸ hclock).symm
        · exact (hturn ▸ hclock).symm
    · have hreading : readings (calls ++ [(Stage.session lastPub returns session, answer)]) =
          readings calls := readings_concat (if_neg fun h ↦ hdue h.2)
      rw [if_neg hdue] at hactions hclock
      unfold sessionStep
      rw [if_pos hpublishing, if_neg hdue]
      constructor
      · rw [hreading, hturn, hactions, List.append_nil]
      · exact (hturn ▸ hclock).symm
  · have hturn : turns (calls ++ [(Stage.session lastPub returns session, answer)]) =
        turns calls := turns_concat (if_neg hpublishing)
    have hreading : readings (calls ++ [(Stage.session lastPub returns session, answer)]) =
        readings calls := readings_concat (if_neg fun h ↦ hpublishing h.1)
    unfold sessionStep
    rw [if_neg hpublishing]
    dsimp only
    constructor
    · rw [hreading, hturn, hreadings]
    · split
      · trivial
      · rw [hturn]
        exact hlast

/-- Outside the publish loop the turns stay as they are. -/
theorem clocked_of_not_session {stage : Stage σ} {next : Program σ} {answer : Answer σ}
    (hreadings : readings calls = Periodic.actions pubIntervalMs 0 (turns calls))
    (hstage : ∀ lastPub returns session, stage ≠ .session lastPub returns session)
    (hnext : LastPub (turns calls) next.stage) : Clocked next (calls ++ [(stage, answer)]) := by
  have hcall : turnTime (stage, answer) = none ∧ readingTime (stage, answer) = none := by
    cases stage with
    | session lastPub returns session => exact absurd rfl (hstage lastPub returns session)
    | _ => exact ⟨rfl, rfl⟩
  constructor
  · rw [readings_concat hcall.2, turns_concat hcall.1, hreadings]
  · rw [turns_concat hcall.1]
    exact hnext

/-- A session starts with `last_pub` zero. -/
theorem lastPub_step {program : Program σ} {answer : Answer σ}
    (hsession : ∀ lastPub returns session, program.stage ≠ .session lastPub returns session)
    (hexited : ∀ returns, program.stage ≠ .exited returns) :
    LastPub [] (step build cfg api program answer).stage := by
  have hattempt (attempt : ℕ) : LastPub [] (nextAttempt attempt : Stage σ) := by
    unfold nextAttempt
    split
    · rfl
    · trivial
  obtain ⟨stage, ready⟩ := program
  unfold step
  cases stage with
  | session lastPub returns session => exact absurd rfl (hsession lastPub returns session)
  | exited returns => exact absurd rfl (hexited returns)
  | deinit returns => trivial
  | benchmark => trivial
  | init =>
    dsimp only
    split
    · trivial
    · rfl
  | wifiConnect attempt =>
    dsimp only
    split
    · exact hattempt attempt
    · rfl
  | wifiPoll attempt deadline =>
    dsimp only
    split
    · exact hattempt attempt
    split
    · cases needsClock build <;> rfl
    split
    · exact hattempt attempt
    · rfl
  | clock =>
    dsimp only
    split <;> rfl
  | clockPoll deadline =>
    dsimp only
    split
    · trivial
    split <;> rfl
  | certificates =>
    dsimp only
    split
    · by_cases hbench : build.benchIters > 0
      · rw [if_pos hbench]
        rfl
      · rw [if_neg hbench]
        rfl
    · trivial
  | connect =>
    dsimp only
    split
    · trivial
    · rfl

theorem clocked_step {program : Program σ} (h : Clocked program calls) (answer : Answer σ) :
    Clocked (step build cfg api program answer) (calls ++ made program answer) := by
  obtain ⟨stage, ready⟩ := program
  cases stage with
  | session lastPub returns session => exact clocked_sessionStep cfg api h.readings h.lastPub answer
  | exited returns =>
    unfold made
    rw [List.append_nil]
    exact h
  | deinit returns => exact clocked_of_not_session h.readings (by simp) trivial
  | init | wifiConnect | wifiPoll | clock | clockPoll | certificates | benchmark | connect =>
    have hnone : turns calls = [] := h.lastPub
    apply clocked_of_not_session h.readings (by simp)
    rw [hnone]
    exact lastPub_step build cfg api (by simp) (by simp)

theorem clocked_run (answers : List (Answer σ)) :
    Clocked (Run.run (step build cfg api) start answers)
      (Run.trace (step build cfg api) made start answers) := by
  have hstart : Clocked (start : Program σ) [] := ⟨rfl, rfl⟩
  refine Run.run_trace_invariant ?_ hstart answers
  intro program calls answer h
  exact clocked_step build cfg api h answer

/-- In every run with a clock that does not go back, readings are due at least five seconds apart,
and the first not before five seconds after boot, however often the millisecond counter wraps.  When
the turns of the loop follow each other within some milliseconds, a reading is taken at most that
much later, and in the last turn none is later than that. -/
theorem readings_keep_the_interval (answers : List (Answer σ))
    (hclock : (turns (Run.trace (step build cfg api) made start answers)).Pairwise (· ≤ ·)) :
    (0 :: readings (Run.trace (step build cfg api) made start answers)).IsChain
        (Periodic.Spaced pubIntervalMs) ∧
    ∀ gap, 5000 + gap < 2 ^ 32 →
      (turns (Run.trace (step build cfg api) made start answers)).IsChain (Periodic.Close gap) →
      (readings (Run.trace (step build cfg api) made start answers) ++
          (turns (Run.trace (step build cfg api) made start answers)).getLast?.toList).IsChain
        fun first second ↦ second / 1000 < first / 1000 + 5000 + gap + 1 := by
  rw [(clocked_run build cfg api answers).readings]
  generalize turns (Run.trace (step build cfg api) made start answers) = times at hclock ⊢
  have hboot : (0 : UInt32) = millis 0 := rfl
  constructor
  · rw [hboot]
    exact Periodic.actions_spaced (List.pairwise_cons.mpr ⟨fun _ _ ↦ Nat.zero_le _, hclock⟩)
  · intro gap hgap hclose
    cases hactions : Periodic.actions pubIntervalMs 0 times with
    | nil =>
      rw [List.nil_append]
      cases times.getLast? with
      | none => exact .nil
      | some last => exact .singleton last
    | cons first later =>
      obtain ⟨before, after, rfl, rfl⟩ := Periodic.exists_rounds_after hactions
      have hsmall : pubIntervalMs.toNat + gap < 2 ^ 32 := hgap
      rw [List.getLast?_append_of_ne_nil _ (List.cons_ne_nil _ _)]
      exact Periodic.actions_prompt hsmall hclose.right_of_append

end Publishing

/-! ## Two runs -/

def picoBuild : ProgramBuild := ⟨false, 0, 741, 736, 1281⟩

/-- An answer with a time in milliseconds and a number. -/
def answerAt (ms : ℕ) (code : ℤ) : Answer Mqtt.Script :=
  { time := ms * 1000, code := code, validIp := false, seconds := none, sntpTimeSet := false
    conn := none, payload := none }

/-- The chip starts, five attempts to join the network fail to start, and the chip is shut down. -/
def noNetwork : List (Answer Mqtt.Script) :=
  [answerAt 2000 0, answerAt 3000 5, answerAt 6000 5, answerAt 9000 5, answerAt 12000 5,
    answerAt 15000 5, answerAt 18000 0]

/-- The end stays the end for the calls that `startup_ends` allows. -/
def noNetworkLong : List (Answer Mqtt.Script) := noNetwork ++ List.replicate 850 (answerAt 18000 0)

theorem start_without_network :
    Started (Run.run (step picoBuild Mqtt.picoW Mqtt.scripted) start noNetworkLong).stage := by
  apply startup_ends picoBuild Mqtt.picoW Mqtt.scripted
  · unfold noNetworkLong
    rw [Run.allSteps_append]
    constructor
    · unfold Timed
      decide +kernel
    · exact Run.allSteps_replicate rfl (by unfold Timed; decide +kernel) 850
  · unfold noNetworkLong
    rw [List.length_append, List.length_replicate]
    decide

/-- The network and the clock are there at once, the broker accepts, and the loop turns at 6, 8 and
11.5 seconds after boot. -/
def promptAnswers : List (Answer Mqtt.Script) :=
  [answerAt 2000 0, answerAt 3000 0, { answerAt 4000 linkUp with validIp := true },
    { answerAt 4100 0 with seconds := some 1750000000 }, answerAt 4100 0,
    { answerAt 5000 0 with conn := some ⟨List.replicate 40 1000, [0x20, 0x02, 0x00, 0x00]⟩ },
    answerAt 5100 0, answerAt 5200 0, answerAt 5300 0,
    { answerAt 6000 0 with payload := some Mqtt.sampleReading }, answerAt 8000 0,
    { answerAt 11500 0 with payload := some Mqtt.sampleReading }]

def promptCalls : List (Stage Mqtt.Script × Answer Mqtt.Script) :=
  Run.trace (step picoBuild Mqtt.picoW Mqtt.scripted) made start promptAnswers

theorem prompt_readings :
    (0 :: readings promptCalls).IsChain (Periodic.Spaced pubIntervalMs) ∧
    ∀ gap, 5000 + gap < 2 ^ 32 → (turns promptCalls).IsChain (Periodic.Close gap) →
      (readings promptCalls ++ (turns promptCalls).getLast?.toList).IsChain
        fun first second ↦ second / 1000 < first / 1000 + 5000 + gap + 1 :=
  readings_keep_the_interval picoBuild Mqtt.picoW Mqtt.scripted promptAnswers (by decide +kernel)

example : turns promptCalls = [6000000, 8000000, 11500000] ∧
    readings promptCalls = [6000000, 11500000] := by decide +kernel

end Program

end PqMqtt.Firmware
