import PqMqtt.Foundation.Interaction

/-!
# Transcripts of interactions

The questions of a run with their answers, in order.  A computation followed by another has the
transcript of the one followed by that of the other, and rounds that stop at a failure have the
transcripts of rounds that succeed, followed at most by that of one that fails.
-/

namespace PqMqtt.Interaction

universe u

variable {ι ω σ : Type*} {α β γ ε : Type u}

/-! ## Computations one after the other -/

def bind : Interaction ι ω α → (α → Interaction ι ω β) → Interaction ι ω β
  | finish result, next => next result
  | ask question answered, next => ask question fun answer ↦ (answered answer).bind next

instance : Monad (Interaction ι ω) where
  pure := finish
  bind := bind

/-- The questions of a run with their answers. -/
def transcript (handle : σ → ι → ω × σ) : Interaction ι ω β → σ → List (ι × ω)
  | finish _, _ => []
  | ask question next, state =>
      (question, (handle state question).1) ::
        (next (handle state question).1).transcript handle (handle state question).2

/-- The computation finishes with the result after the answers of the transcript. -/
def Yields : Interaction ι ω β → List (ι × ω) → β → Prop
  | finish value, log, result => log = [] ∧ value = result
  | ask question next, log, result =>
      ∃ answer rest, log = (question, answer) :: rest ∧ (next answer).Yields rest result

theorem yields_transcript (handle : σ → ι → ω × σ) (interaction : Interaction ι ω β) (state : σ) :
    interaction.Yields (interaction.transcript handle state) (interaction.run handle state).1 := by
  induction interaction generalizing state with
  | finish result => exact ⟨rfl, rfl⟩
  | ask question next ih => exact ⟨_, _, rfl, ih _ _⟩

variable {log : List (ι × ω)}

theorem yields_bind {interaction : Interaction ι ω α} {next : α → Interaction ι ω β} {result : β} :
    (interaction >>= next).Yields log result ↔
      ∃ first second middle, log = first ++ second ∧ interaction.Yields first middle ∧
        (next middle).Yields second result := by
  induction interaction generalizing log with
  | finish value =>
    constructor
    · intro h
      exact ⟨[], log, value, rfl, ⟨rfl, rfl⟩, h⟩
    · rintro ⟨first, second, middle, rfl, ⟨rfl, rfl⟩, h⟩
      exact h
  | ask question answered ih =>
    constructor
    · rintro ⟨answer, rest, rfl, h⟩
      obtain ⟨first, second, middle, rfl, hfirst, hsecond⟩ := (ih answer).mp h
      exact ⟨(question, answer) :: first, second, middle, rfl, ⟨answer, first, rfl, hfirst⟩, hsecond⟩
    · rintro ⟨-, second, middle, rfl, ⟨answer, first, rfl, hfirst⟩, hsecond⟩
      exact ⟨answer, first ++ second, rfl,
        (ih answer).mpr ⟨first, second, middle, rfl, hfirst, hsecond⟩⟩

/-! ## Questions -/

/-- Every question that the computation may ask satisfies the predicate. -/
def Asks (p : ι → Prop) : Interaction ι ω β → Prop
  | finish _ => True
  | ask question next => p question ∧ ∀ answer, (next answer).Asks p

section Asks

variable {p : ι → Prop} {interaction : Interaction ι ω α}

theorem Asks.mono {q : ι → Prop} (himp : ∀ question, p question → q question)
    (h : interaction.Asks p) : interaction.Asks q := by
  induction interaction with
  | finish result => trivial
  | ask question next ih => exact ⟨himp _ h.1, fun answer ↦ ih answer (h.2 answer)⟩

theorem asks_bind {next : α → Interaction ι ω β} (h : interaction.Asks p)
    (hnext : ∀ value, (next value).Asks p) : (interaction >>= next).Asks p := by
  induction interaction with
  | finish result => exact hnext result
  | ask question answered ih => exact ⟨h.1, fun answer ↦ ih answer (h.2 answer)⟩

theorem Asks.of_yields {result : α} (h : interaction.Asks p)
    (hyields : interaction.Yields log result) :
    ∀ exchange ∈ log, p exchange.1 := by
  induction interaction generalizing log with
  | finish value =>
    obtain ⟨rfl, -⟩ := hyields
    exact List.forall_mem_nil _
  | ask question next ih =>
    obtain ⟨answer, rest, rfl, hrest⟩ := hyields
    rw [List.forall_mem_cons]
    exact ⟨h.1, ih answer (h.2 answer) hrest⟩

end Asks

/-! ## Rounds -/

/-- At most `n` rounds with a state, up to the first that fails. -/
def rounds (round : γ → Interaction ι ω (Except ε α × γ)) :
    ℕ → γ → Interaction ι ω (Except ε (List α) × γ)
  | 0, state => pure (.ok [], state)
  | n + 1, state => do
    match ← round state with
    | (.error failure, after) => pure (.error failure, after)
    | (.ok value, after) =>
      match ← rounds round n after with
      | (.error failure, last) => pure (.error failure, last)
      | (.ok values, last) => pure (.ok (value :: values), last)

/-- Rounds that succeed one after the other, with the transcript of each. -/
inductive Succeed (round : γ → Interaction ι ω (Except ε α × γ)) :
    γ → List (List (ι × ω)) → List α → γ → Prop
  | nil (state : γ) : Succeed round state [] [] state
  | cons {state after last : γ} {log : List (ι × ω)} {logs : List (List (ι × ω))} {value : α}
      {values : List α} (head : (round state).Yields log (.ok value, after))
      (tail : Succeed round after logs values last) :
      Succeed round state (log :: logs) (value :: values) last

variable {round : γ → Interaction ι ω (Except ε α × γ)} {n : ℕ} {state last : γ}

theorem yields_rounds_ok {values : List α}
    (h : (rounds round n state).Yields log (.ok values, last)) :
    ∃ logs, log = logs.flatten ∧ values.length = n ∧ Succeed round state logs values last := by
  induction n generalizing state log values with
  | zero =>
    obtain ⟨rfl, heq⟩ := h
    obtain ⟨hvalues, rfl⟩ := Prod.mk.inj heq
    obtain rfl := Except.ok.inj hvalues
    exact ⟨[], rfl, rfl, .nil _⟩
  | succ n ih =>
    obtain ⟨first, second, ⟨outcome, after⟩, rfl, hfirst, hsecond⟩ := yields_bind.mp h
    cases outcome with
    | error failure =>
      obtain ⟨-, heq⟩ := hsecond
      exact absurd (Prod.mk.inj heq).1 (by simp)
    | ok value =>
      obtain ⟨third, fourth, ⟨rest, final⟩, rfl, hthird, hfourth⟩ := yields_bind.mp hsecond
      cases rest with
      | error failure =>
        obtain ⟨-, heq⟩ := hfourth
        exact absurd (Prod.mk.inj heq).1 (by simp)
      | ok others =>
        obtain ⟨rfl, heq⟩ := hfourth
        obtain ⟨hvalues, rfl⟩ := Prod.mk.inj heq
        obtain rfl := Except.ok.inj hvalues
        obtain ⟨logs, rfl, hlength, hsucceed⟩ := ih hthird
        exact ⟨first :: logs, by simp, congrArg (· + 1) hlength, .cons hfirst hsucceed⟩

/-- A failure is that of a round after fewer than `n` that succeed. -/
theorem yields_rounds_error {failure : ε}
    (h : (rounds round n state).Yields log (.error failure, last)) :
    ∃ logs values before final, log = logs.flatten ++ final ∧ values.length < n ∧
      Succeed round state logs values before ∧
      (round before).Yields final (.error failure, last) := by
  induction n generalizing state log with
  | zero =>
    obtain ⟨-, heq⟩ := h
    exact absurd (Prod.mk.inj heq).1 (by simp)
  | succ n ih =>
    obtain ⟨first, second, ⟨outcome, after⟩, rfl, hfirst, hsecond⟩ := yields_bind.mp h
    cases outcome with
    | error other =>
      obtain ⟨rfl, heq⟩ := hsecond
      obtain ⟨hfailure, rfl⟩ := Prod.mk.inj heq
      obtain rfl := Except.error.inj hfailure
      exact ⟨[], [], state, first, by simp, Nat.succ_pos n, .nil _, hfirst⟩
    | ok value =>
      obtain ⟨third, fourth, ⟨rest, final⟩, rfl, hthird, hfourth⟩ := yields_bind.mp hsecond
      cases rest with
      | error other =>
        obtain ⟨rfl, heq⟩ := hfourth
        obtain ⟨hfailure, rfl⟩ := Prod.mk.inj heq
        obtain rfl := Except.error.inj hfailure
        obtain ⟨logs, values, before, final, rfl, hlength, hsucceed, hfinal⟩ := ih hthird
        exact ⟨first :: logs, value :: values, before, final, by simp, Nat.succ_lt_succ hlength,
          .cons hfirst hsucceed, hfinal⟩
      | ok others =>
        obtain ⟨-, heq⟩ := hfourth
        exact absurd (Prod.mk.inj heq).1 (by simp)

end PqMqtt.Interaction
