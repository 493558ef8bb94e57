import Mathlib.Tactic
import PqMqtt.Foundation.Run

/-!
# Host resolution

`resolve_host` and `dns_cb`, which stand in the same words in both transports.  The callback knows
nothing of the query it answers: it writes three variables of the file, and whichever call of
`resolve_host` is waiting takes them for its own answer.  A query whose call timed out stays in
flight, and lwIP still delivers its answer.

The steps of a call and the callbacks interleave freely, except that `dns_gethostbyname` runs under
the lwIP lock.  Queries are numbered in the order in which lwIP accepted them.
-/

namespace PqMqtt.Transport

open Run

/-- `ERR_INPROGRESS` -/
def errInprogress : ℤ := -5

/-- `ERR_VAL` -/
def errVal : ℤ := -6

/-- `TLS_ATTEMPT_ERR_TIMEOUT` -/
def errTimeout : ℤ := -1001

/-- What `dns_gethostbyname` returns, and the address it stores when that is `ERR_OK`. -/
structure DnsReply (α : Type*) where
  e : ℤ
  addr : α

/-- How a call of `resolve_host` ends.  The last three exits are behind the wait for the callback
and name the query of the call. -/
inductive Verdict (α : Type*) where
  | cached (addr : α)
  | refused (e : ℤ)
  | timedOut (query : ℕ)
  | failed (query : ℕ)
  | resolved (query : ℕ) (addr : α)

namespace Verdict

variable {α : Type*}

/-- The address stored in `*out` by a call that returns true. -/
def out : Verdict α → Option α
  | cached addr => some addr
  | resolved _ addr => some addr
  | _ => none

/-- The value stored in `*error_code` by a call that returns false. -/
def errorCode : Verdict α → Option ℤ
  | refused e => some e
  | timedOut _ => some errTimeout
  | failed _ => some errVal
  | _ => none

end Verdict

/-- The next step of a call of `resolve_host`. -/
inductive ResolvePoint (ν : Type*) where
  | clearDone (host : ν)
  | clearErr (host : ν)
  | ask (host : ν)
  | arm (query : ℕ)
  | wait (query : ℕ) (deadline : UInt32)
  | check (query : ℕ)
  | copy (query : ℕ)

/-- The variables of the file, the call that is running, and the history: the hosts of the queries
lwIP accepted, the answers it delivered, and the verdicts of the finished calls. -/
structure Resolver (ν α : Type*) where
  dnsDone : Bool
  dnsErr : Bool
  dnsResult : α
  point : Option (ResolvePoint ν)
  queries : List ν
  answers : List (ℕ × Option α)
  verdicts : List (Verdict α)

/-- A call, the next step of the running call with the reading of the clock and the reply of
`dns_gethostbyname`, or the callback for a query. -/
inductive ResolveEvent (ν α : Type*) where
  | call (host : ν)
  | turn (clock : UInt32) (reply : DnsReply α)
  | answer (query : ℕ) (addr : Option α)

namespace Resolver

variable {ν α : Type*}

def start (addr : α) : Resolver ν α := ⟨false, false, addr, none, [], [], []⟩

/-- `dns_cb` -/
def dnsCb (resolver : Resolver ν α) : Option α → Resolver ν α
  | some addr => { resolver with dnsResult := addr, dnsDone := true }
  | none => { resolver with dnsErr := true, dnsDone := true }

/-- lwIP has not answered the query. -/
def InFlight (resolver : Resolver ν α) (query : ℕ) : Prop :=
  query < resolver.queries.length ∧ query ∉ resolver.answers.map Prod.fst

instance (resolver : Resolver ν α) (query : ℕ) : Decidable (resolver.InFlight query) :=
  inferInstanceAs (Decidable (_ ∧ _))

def finish (resolver : Resolver ν α) (verdict : Verdict α) : Resolver ν α :=
  { resolver with point := none, verdicts := resolver.verdicts ++ [verdict] }

/-- The next step of `resolve_host`. -/
def turn (resolver : Resolver ν α) (clock : UInt32) (reply : DnsReply α) :
    ResolvePoint ν → Resolver ν α
  | .clearDone host => { resolver with dnsDone := false, point := some (.clearErr host) }
  | .clearErr host => { resolver with dnsErr := false, point := some (.ask host) }
  | .ask host =>
      if reply.e = 0 then resolver.finish (.cached reply.addr)
      else if reply.e ≠ errInprogress then resolver.finish (.refused reply.e)
      else
        { resolver with
          queries := resolver.queries ++ [host]
          point := some (.arm resolver.queries.length) }
  | .arm query => { resolver with point := some (.wait query (clock + 10000)) }
  | .wait query deadline =>
      if resolver.dnsDone then { resolver with point := some (.check query) }
      else if clock > deadline then resolver.finish (.timedOut query)
      else resolver
  | .check query =>
      if resolver.dnsErr then resolver.finish (.failed query)
      else { resolver with point := some (.copy query) }
  | .copy query => resolver.finish (.resolved query resolver.dnsResult)

def step (resolver : Resolver ν α) : ResolveEvent ν α → Resolver ν α
  | .call host =>
      match resolver.point with
      | none => { resolver with point := some (.clearDone host) }
      | some _ => resolver
  | .turn clock reply =>
      match resolver.point with
      | none => resolver
      | some point => resolver.turn clock reply point
  | .answer query addr =>
      if resolver.InFlight query then
        { resolver.dnsCb addr with answers := resolver.answers ++ [(query, addr)] }
      else resolver

end Resolver

/-! ## Answers and verdicts -/

variable {ν α : Type*}

/-- A verdict that came through the callback is the answer to the query of the call. -/
def Verdict.Own (answers : List (ℕ × Option α)) : Verdict α → Prop
  | resolved query addr => (query, some addr) ∈ answers
  | failed query => (query, none) ∈ answers
  | _ => True

/-- The answers a call can tell from its own: before it clears `dns_done` every answer, later those
to its query. -/
def ResolvePoint.Expects (query : ℕ) : ResolvePoint ν → Prop
  | clearDone _ => True
  | clearErr _ => False
  | ask _ => False
  | arm own => query = own
  | wait own _ => query = own
  | check own => query = own
  | copy own => query = own

namespace Resolver

/-- Every finished call took the answer to its own query. -/
def AnswersOwn (resolver : Resolver ν α) : Prop :=
  ∀ verdict ∈ resolver.verdicts, verdict.Own resolver.answers

/-- While a call is running, no answer to the query of another call is delivered. -/
def Expected (resolver : Resolver ν α) : ResolveEvent ν α → Prop
  | .answer query _ =>
      resolver.InFlight query → ∀ point ∈ resolver.point, point.Expects query
  | _ => True

/-! ## The flags belong to the waiting query -/

/-- The flags hold the answer to a query. -/
def Holds (resolver : Resolver ν α) (query : ℕ) : Prop :=
  if resolver.dnsErr then (query, none) ∈ resolver.answers
  else (query, some resolver.dnsResult) ∈ resolver.answers

/-- The flags are clear, or hold the answer to the query. -/
def Fresh (resolver : Resolver ν α) (query : ℕ) : Prop :=
  if resolver.dnsDone then resolver.Holds query else resolver.dnsErr = false

/-- What the flags say at a step of a call. -/
def FlagsAt (resolver : Resolver ν α) : ResolvePoint ν → Prop
  | .clearDone _ => True
  | .clearErr _ => resolver.dnsDone = false
  | .ask _ => resolver.dnsDone = false ∧ resolver.dnsErr = false
  | .arm query => resolver.Fresh query
  | .wait query _ => resolver.Fresh query
  | .check query => resolver.dnsDone = true ∧ resolver.Holds query
  | .copy query => resolver.dnsDone = true ∧ resolver.dnsErr = false ∧ resolver.Holds query

/-- The finished calls took their own answers, and the running one will. -/
def Sound (resolver : Resolver ν α) : Prop :=
  resolver.AnswersOwn ∧ ∀ point ∈ resolver.point, resolver.FlagsAt point

theorem sound_finish {resolver : Resolver ν α} (h : resolver.Sound) {verdict : Verdict α}
    (hverdict : verdict.Own resolver.answers) : (resolver.finish verdict).Sound := by
  refine ⟨?_, fun _ hpoint ↦ nomatch hpoint⟩
  intro other hother
  rcases List.mem_append.mp hother with hearlier | hlast
  · exact h.1 other hearlier
  · rw [List.mem_singleton.mp hlast]
    exact hverdict

/-- A step to another point of the call keeps the history. -/
theorem sound_goto {resolver next : Resolver ν α} (h : resolver.Sound)
    (hverdicts : next.verdicts = resolver.verdicts) (hanswers : next.answers = resolver.answers)
    {point : ResolvePoint ν} (hpoint : next.point = some point) (hflags : next.FlagsAt point) :
    next.Sound := by
  constructor
  · rw [AnswersOwn, hverdicts, hanswers]
    exact h.1
  · intro other hother
    rw [hpoint] at hother
    rwa [← Option.some.inj hother]

theorem sound_turn {resolver : Resolver ν α} (h : resolver.Sound) {point : ResolvePoint ν}
    (hpoint : resolver.point = some point) (clock : UInt32) (reply : DnsReply α) :
    (resolver.turn clock reply point).Sound := by
  have hflags : resolver.FlagsAt point := h.2 point hpoint
  cases point with
  | clearDone host => exact sound_goto h rfl rfl rfl rfl
  | clearErr host => exact sound_goto h rfl rfl rfl ⟨hflags, rfl⟩
  | ask host =>
    have hfresh : resolver.Fresh resolver.queries.length := by
      simp [Fresh, hflags.1, hflags.2]
    simp only [turn]
    split
    · exact sound_finish h trivial
    split
    · exact sound_finish h trivial
    · exact sound_goto h rfl rfl rfl hfresh
  | arm query => exact sound_goto h rfl rfl rfl hflags
  | wait query deadline =>
    simp only [turn]
    split
    next hdone =>
      have hholds : resolver.Holds query := by
        simpa only [FlagsAt, Fresh, hdone, if_true] using hflags
      exact sound_goto h rfl rfl rfl ⟨hdone, hholds⟩
    next =>
      split
      · exact sound_finish h trivial
      · exact h
  | check query =>
    simp only [turn]
    split
    next herr =>
      have hanswer : (query, none) ∈ resolver.answers := by
        simpa only [Holds, herr, if_true] using hflags.2
      exact sound_finish h hanswer
    next herr =>
      exact sound_goto h rfl rfl rfl ⟨hflags.1, Bool.not_eq_true _ ▸ herr, hflags.2⟩
  | copy query =>
    have hanswer : (query, some resolver.dnsResult) ∈ resolver.answers := by
      simpa [Holds, hflags.2.1] using hflags.2.2
    exact sound_finish h hanswer

/-- The answer to the query of the call sets the flags for it. -/
theorem holds_dnsCb (resolver : Resolver ν α) {query : ℕ} (herr : resolver.dnsErr = false)
    (addr : Option α) :
    Holds { resolver.dnsCb addr with answers := resolver.answers ++ [(query, addr)] } query := by
  cases addr with
  | some addr => simp [Holds, dnsCb, herr]
  | none => simp [Holds, dnsCb]

theorem Holds.mem_answered {resolver : Resolver ν α} {query : ℕ} (h : resolver.Holds query) :
    query ∈ resolver.answers.map Prod.fst := by
  unfold Holds at h
  split at h
  · exact List.mem_map_of_mem h
  · exact List.mem_map_of_mem h

theorem fresh_answer {resolver : Resolver ν α} {query : ℕ} (h : resolver.Fresh query)
    (hflight : resolver.InFlight query) (addr : Option α) :
    Fresh { resolver.dnsCb addr with answers := resolver.answers ++ [(query, addr)] } query := by
  have hdone : resolver.dnsDone = false := by
    by_contra hdone
    simp only [Fresh, Bool.not_eq_false _ ▸ hdone, if_true] at h
    exact hflight.2 h.mem_answered
  have herr : resolver.dnsErr = false := by simpa [Fresh, hdone] using h
  have hset : (resolver.dnsCb addr).dnsDone = true := by cases addr <;> rfl
  simpa only [Fresh, hset, if_true] using holds_dnsCb resolver herr addr

/-- An answer that is expected keeps the flags right. -/
theorem sound_answer {resolver : Resolver ν α} (h : resolver.Sound) {query : ℕ}
    (hflight : resolver.InFlight query)
    (hexpected : ∀ point ∈ resolver.point, point.Expects query) (addr : Option α) :
    Sound { resolver.dnsCb addr with answers := resolver.answers ++ [(query, addr)] } := by
  have hpoint : (resolver.dnsCb addr).point = resolver.point := by cases addr <;> rfl
  have hverdicts : (resolver.dnsCb addr).verdicts = resolver.verdicts := by cases addr <;> rfl
  constructor
  · intro verdict hverdict
    rw [hverdicts] at hverdict
    have hown := h.1 verdict hverdict
    cases verdict with
    | resolved other addr => exact List.mem_append_left _ hown
    | failed other => exact List.mem_append_left _ hown
    | _ => trivial
  · intro point hrunning
    rw [hpoint] at hrunning
    have hflags := h.2 point hrunning
    have hmine := hexpected point hrunning
    cases point with
    | clearDone host => trivial
    | clearErr host => exact absurd hmine id
    | ask host => exact absurd hmine id
    | arm own => exact hmine ▸ fresh_answer (hmine ▸ hflags) hflight addr
    | wait own deadline => exact hmine ▸ fresh_answer (hmine ▸ hflags) hflight addr
    | check own =>
      obtain rfl : query = own := hmine
      exact absurd hflags.2.mem_answered hflight.2
    | copy own =>
      obtain rfl : query = own := hmine
      exact absurd hflags.2.2.mem_answered hflight.2

theorem sound_step (resolver : Resolver ν α) (event : ResolveEvent ν α) (h : resolver.Sound)
    (hexpected : resolver.Expected event) : (resolver.step event).Sound := by
  cases event with
  | call host =>
    simp only [step]
    split
    · exact sound_goto h rfl rfl rfl trivial
    · exact h
  | turn clock reply =>
    simp only [step]
    split
    · exact h
    next point hpoint => exact sound_turn h hpoint clock reply
  | answer query addr =>
    simp only [step]
    split
    next hflight => exact sound_answer h hflight (hexpected hflight) addr
    · exact h

/-- In a run in which no call meets the answer to another query, every call that returned through
the callback took the answer to its own query. -/
theorem answersOwn_of_expected (addr : α) {events : List (ResolveEvent ν α)}
    (h : AllSteps step Expected (start addr) events) :
    (run step (start addr) events).AnswersOwn := by
  have hstart : (start addr : Resolver ν α).Sound :=
    ⟨fun _ hverdict ↦ absurd hverdict List.not_mem_nil, fun _ hpoint ↦ nomatch hpoint⟩
  exact (run_of_allSteps sound_step hstart h).1

/-- A call that waits without an answer of its own returns the answer to whatever query is answered
next. -/
theorem stray_answer_returned {resolver : Resolver ν α} {own query : ℕ} {deadline : UInt32}
    (hpoint : resolver.point = some (.wait own deadline)) (herr : resolver.dnsErr = false)
    (hopen : own ∉ resolver.answers.map Prod.fst) (hflight : resolver.InFlight query)
    (hne : query ≠ own) (addr : Option α) (clock : UInt32) (reply : DnsReply α) :
    ¬(run step resolver
      [.answer query addr, .turn clock reply, .turn clock reply,
        .turn clock reply]).AnswersOwn := by
  have hunanswered : ∀ answer : Option α,
      (own, answer) ∉ resolver.answers ++ [(query, addr)] := by
    intro answer hanswer
    rcases List.mem_append.mp hanswer with hearlier | hlast
    · exact hopen (List.mem_map_of_mem hearlier)
    · exact hne (Prod.mk.inj (List.mem_singleton.mp hlast)).1.symm
  intro hown
  cases addr with
  | some addr =>
    have hverdicts : (run step resolver [.answer query (some addr), .turn clock reply,
        .turn clock reply, .turn clock reply]).verdicts
          = resolver.verdicts ++ [.resolved own addr] := by
      simp [run, step, hflight, dnsCb, hpoint, turn, herr, finish]
    have hanswers : (run step resolver [.answer query (some addr), .turn clock reply,
        .turn clock reply, .turn clock reply]).answers
          = resolver.answers ++ [(query, some addr)] := by
      simp [run, step, hflight, dnsCb, hpoint, turn, herr, finish]
    rw [AnswersOwn, hverdicts, hanswers, List.forall_mem_append] at hown
    exact hunanswered (some addr) (hown.2 _ (List.mem_singleton.mpr rfl))
  | none =>
    have hverdicts : (run step resolver [.answer query none, .turn clock reply,
        .turn clock reply, .turn clock reply]).verdicts = resolver.verdicts ++ [.failed own] := by
      simp [run, step, hflight, dnsCb, hpoint, turn, finish]
    have hanswers : (run step resolver [.answer query none, .turn clock reply,
        .turn clock reply, .turn clock reply]).answers = resolver.answers ++ [(query, none)] := by
      simp [run, step, hflight, dnsCb, hpoint, turn, finish]
    rw [AnswersOwn, hverdicts, hanswers, List.forall_mem_append] at hown
    exact hunanswered none (hown.2 _ (List.mem_singleton.mpr rfl))

/-- One call whose query is answered while it waits. -/
def answeredRun : List (ResolveEvent String ℕ) :=
  [.call "broker", .turn 0 ⟨0, 0⟩, .turn 0 ⟨0, 0⟩, .turn 0 ⟨errInprogress, 0⟩, .turn 0 ⟨0, 0⟩,
    .answer 0 (some 17), .turn 1 ⟨0, 0⟩, .turn 1 ⟨0, 0⟩, .turn 1 ⟨0, 0⟩]

theorem answersOwn_of_expected_answered :
    AllSteps step Expected (start 0) answeredRun ∧
      (run step (start 0) answeredRun).AnswersOwn := by
  have hexpected : AllSteps step Expected (start 0) answeredRun := by
    refine ⟨trivial, trivial, trivial, trivial, trivial, ?_, trivial, trivial, trivial, trivial⟩
    intro _ point hpoint
    obtain rfl : ResolvePoint.wait 0 10000 = point := Option.some.inj hpoint
    rfl
  exact ⟨hexpected, answersOwn_of_expected 0 hexpected⟩

/-- The query for the first host outlives the timeout of its call. -/
def timedOutRun : List (ResolveEvent String ℕ) :=
  [.call "first", .turn 0 ⟨0, 0⟩, .turn 0 ⟨0, 0⟩, .turn 0 ⟨errInprogress, 0⟩, .turn 0 ⟨0, 0⟩,
    .turn 10001 ⟨0, 0⟩,
    .call "second", .turn 10002 ⟨0, 0⟩, .turn 10002 ⟨0, 0⟩, .turn 10002 ⟨errInprogress, 0⟩,
    .turn 10002 ⟨0, 0⟩]

/-- The late answer for the first host is returned for the second. -/
theorem late_answer_resolves_second_host :
    ¬(run step (start 0) (timedOutRun ++
      [.answer 0 (some 17), .turn 10003 ⟨0, 0⟩, .turn 10003 ⟨0, 0⟩,
        .turn 10003 ⟨0, 0⟩])).AnswersOwn := by
  have hwaits : (run step (start 0) timedOutRun).point = some (.wait 1 20002) := rfl
  rw [run_append]
  exact stray_answer_returned hwaits rfl (by decide) (by decide) (by decide) (some 17) 10003 ⟨0, 0⟩

end Resolver

end PqMqtt.Transport
