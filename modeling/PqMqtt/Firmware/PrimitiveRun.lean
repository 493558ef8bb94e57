import PqMqtt.Firmware.PrimitiveBench

/-!
# What a benchmark run prints

The RESULT rows of a run are those of the operations all of whose calls succeeded, each with the
statistics of its measured calls; a run with fewer rows ended at the first call of the scheme that
failed.
-/

namespace PqMqtt.Firmware

open Analysis Binary64 Statistics Interaction

/-! ## Exchanges -/

/-- The calls with their answers. -/
abbrev BenchLog := List (BenchCall × BenchAnswer)

/-- The call is one of the scheme. -/
def SchemeCall : BenchCall → Prop
  | .schemeInit | .schemeDoSign _ | .schemeDoVerify _ _ _ => True
  | _ => False

/-- The RESULT row that a call prints. -/
def rowsOf : BenchCall → List ResultRow
  | .print line => line.rows
  | _ => []

def printedRows (log : BenchLog) : List ResultRow := log.flatMap fun exchange ↦ rowsOf exchange.1

/-- The call is none of the scheme and prints no row. -/
def Quiet (question : BenchCall) : Prop := ¬SchemeCall question ∧ rowsOf question = []

/-- The calls of the scheme succeeded. -/
def Clean (log : BenchLog) : Prop := ∀ exchange ∈ log, SchemeCall exchange.1 → exchange.2.rc = 0

/-- The last call of the scheme failed, and no call before it. -/
def Fails (log : BenchLog) : Prop :=
  ∃ before question answer after, log = before ++ (question, answer) :: after ∧
    SchemeCall question ∧ answer.rc ≠ 0 ∧ Clean before ∧
    ∀ exchange ∈ after, ¬SchemeCall exchange.1

section Exchanges

variable {first second : BenchLog}

theorem printedRows_append : printedRows (first ++ second) = printedRows first ++ printedRows second :=
  List.flatMap_append

theorem printedRows_eq_nil (h : ∀ exchange ∈ first, rowsOf exchange.1 = []) :
    printedRows first = [] :=
  List.flatMap_eq_nil_iff.mpr h

theorem clean_of_quiet (h : ∀ exchange ∈ first, Quiet exchange.1) : Clean first :=
  fun exchange hmem hscheme ↦ absurd hscheme (h exchange hmem).1

theorem Clean.append (hfirst : Clean first) (hsecond : Clean second) : Clean (first ++ second) :=
  List.forall_mem_append.mpr ⟨hfirst, hsecond⟩

theorem Clean.fails_append (hfirst : Clean first) (hsecond : Fails second) :
    Fails (first ++ second) := by
  obtain ⟨before, question, answer, after, rfl, hscheme, hrc, hbefore, hafter⟩ := hsecond
  exact ⟨first ++ before, question, answer, after, (List.append_assoc ..).symm, hscheme, hrc,
    hfirst.append hbefore, hafter⟩

theorem Fails.append (hfirst : Fails first) (hsecond : ∀ exchange ∈ second, ¬SchemeCall exchange.1) :
    Fails (first ++ second) := by
  obtain ⟨before, question, answer, after, rfl, hscheme, hrc, hbefore, hafter⟩ := hfirst
  refine ⟨before, question, answer, after ++ second, by simp, hscheme, hrc, hbefore, ?_⟩
  exact List.forall_mem_append.mpr ⟨hafter, hsecond⟩

theorem fails_singleton {question : BenchCall} {answer : BenchAnswer} (hscheme : SchemeCall question)
    (hrc : answer.rc ≠ 0) : Fails [(question, answer)] :=
  ⟨[], question, answer, [], rfl, hscheme, hrc, List.forall_mem_nil _, List.forall_mem_nil _⟩

end Exchanges

/-! ## bench_run -/

/-- The exchanges of one measured call. -/
def Sample.exchanges (question : BenchCall) (sample : Sample) : BenchLog :=
  [(.benchCycles, sample.startCycles), (.benchUs, sample.startUs), (question, sample.called),
    (.benchUs, sample.endUs), (.benchCycles, sample.endCycles)]

/-- The exchanges of a benchmark: the calls to warm up, and those that are measured. -/
def window (question : BenchCall) (warmup : List BenchAnswer) (samples : List Sample) : BenchLog :=
  warmup.map (fun answer ↦ (question, answer)) ++ samples.flatMap (Sample.exchanges question)

/-- All the calls of a benchmark succeeded, and there were as many as the image was built with. -/
structure Measures (image : BenchImage) (warmup : List BenchAnswer) (samples : List Sample) :
    Prop where
  iters : image.benchIters ≠ 0
  length_warmup : warmup.length = image.benchWarmup
  length_samples : samples.length = min image.benchIters benchMaxIters
  warmup_ok : ∀ answer ∈ warmup, answer.rc = 0
  samples_ok : ∀ sample ∈ samples, sample.called.rc = 0

/-- The function asks the same question whatever its calls do to the globals. -/
def BenchFn.Steady (fn : BenchFn) : Prop :=
  ∀ answer globals, fn.question (fn.after answer globals) = fn.question globals

theorem yields_call {question : BenchCall} {log : BenchLog} {answer : BenchAnswer} :
    (call question).Yields log answer ↔ log = [(question, answer)] := by
  constructor
  · rintro ⟨given, rest, rfl, rfl, rfl⟩
    rfl
  · rintro rfl
    exact ⟨answer, [], rfl, rfl, rfl⟩

section BenchRun

variable {fn : BenchFn} {globals after : Globals} {log : BenchLog}

theorem yields_warmupRound {outcome : Except ℤ BenchAnswer} :
    (warmupRound fn globals).Yields log (outcome, after) ↔
      ∃ answer, log = [(fn.question globals, answer)] ∧ after = fn.after answer globals ∧
        outcome = if answer.rc ≠ 0 then .error answer.rc else .ok answer := by
  unfold warmupRound
  rw [yields_bind]
  simp only [yields_call]
  constructor
  · rintro ⟨_, _, answer, rfl, rfl, h⟩
    refine ⟨answer, ?_⟩
    split_ifs at h ⊢ with hrc <;>
    · obtain ⟨rfl, heq⟩ := h
      obtain ⟨rfl, rfl⟩ := Prod.mk.inj heq
      exact ⟨rfl, rfl, rfl⟩
  · rintro ⟨answer, rfl, rfl, rfl⟩
    refine ⟨_, [], answer, rfl, rfl, ?_⟩
    split_ifs <;> exact ⟨rfl, rfl⟩

theorem yields_measuredRound {outcome : Except ℤ Sample} :
    (measuredRound fn globals).Yields log (outcome, after) ↔
      ∃ sample : Sample, log = sample.exchanges (fn.question globals) ∧
        after = fn.after sample.called globals ∧
        outcome = if sample.called.rc ≠ 0 then .error sample.called.rc else .ok sample := by
  unfold measuredRound
  simp only [yields_bind, yields_call]
  constructor
  · rintro ⟨_, _, c0, rfl, rfl, _, _, u0, rfl, rfl, _, _, answer, rfl, rfl, _, _, u1, rfl, rfl, _, _,
      c1, rfl, rfl, h⟩
    refine ⟨⟨c0, u0, answer, u1, c1⟩, ?_⟩
    dsimp only
    split_ifs at h ⊢ with hrc <;>
    · obtain ⟨rfl, heq⟩ := h
      obtain ⟨rfl, rfl⟩ := Prod.mk.inj heq
      exact ⟨rfl, rfl, rfl⟩
  · rintro ⟨sample, rfl, rfl, rfl⟩
    refine ⟨_, _, _, rfl, rfl, _, _, _, rfl, rfl, _, _, _, rfl, rfl, _, _, _, rfl, rfl, _, [], _, rfl,
      rfl, ?_⟩
    split_ifs <;> exact ⟨rfl, rfl⟩

/-- The globals after some calls. -/
def BenchFn.afterAll (fn : BenchFn) (answers : List BenchAnswer) (globals : Globals) : Globals :=
  answers.foldl (fun globals answer ↦ fn.after answer globals) globals

theorem question_afterAll (hsteady : fn.Steady) (answers : List BenchAnswer) :
    fn.question (fn.afterAll answers globals) = fn.question globals := by
  induction answers generalizing globals with
  | nil => rfl
  | cons answer answers ih => exact ih.trans (hsteady ..)

theorem succeed_warmupRound (hsteady : fn.Steady) {logs : List BenchLog} {answers : List BenchAnswer}
    (h : Succeed (warmupRound fn) globals logs answers after) :
    logs.flatten = answers.map (fun answer ↦ (fn.question globals, answer)) ∧
      (∀ answer ∈ answers, answer.rc = 0) ∧ after = fn.afterAll answers globals := by
  induction h with
  | nil globals => exact ⟨rfl, List.forall_mem_nil _, rfl⟩
  | @cons globals middle after log logs value answers head tail ih =>
    obtain ⟨answer, rfl, rfl, houtcome⟩ := yields_warmupRound.mp head
    obtain ⟨hlogs, hanswers, rfl⟩ := ih
    split_ifs at houtcome with hrc
    obtain rfl := Except.ok.inj houtcome
    refine ⟨?_, List.forall_mem_cons.mpr ⟨not_not.mp hrc, hanswers⟩, rfl⟩
    rw [List.flatten_cons, hlogs, hsteady]
    rfl

theorem succeed_measuredRound (hsteady : fn.Steady) {logs : List BenchLog} {samples : List Sample}
    (h : Succeed (measuredRound fn) globals logs samples after) :
    logs.flatten = samples.flatMap (Sample.exchanges (fn.question globals)) ∧
      (∀ sample ∈ samples, sample.called.rc = 0) ∧
      after = fn.afterAll (samples.map Sample.called) globals := by
  induction h with
  | nil globals => exact ⟨rfl, List.forall_mem_nil _, rfl⟩
  | @cons globals middle after log logs value samples head tail ih =>
    obtain ⟨sample, rfl, rfl, houtcome⟩ := yields_measuredRound.mp head
    obtain ⟨hlogs, hsamples, rfl⟩ := ih
    split_ifs at houtcome with hrc
    obtain rfl := Except.ok.inj houtcome
    refine ⟨?_, List.forall_mem_cons.mpr ⟨not_not.mp hrc, hsamples⟩, rfl⟩
    rw [List.flatten_cons, hlogs, hsteady, List.flatMap_cons]

/-- Only the calls of the function are calls of the scheme, and a benchmark prints nothing. -/
theorem quiet_or_question_of_window {question : BenchCall} {warmup : List BenchAnswer}
    {samples : List Sample} :
    ∀ exchange ∈ window question warmup samples, Quiet exchange.1 ∨
      (exchange.1 = question ∧ (exchange.2 ∈ warmup ∨ ∃ sample ∈ samples,
        exchange.2 = sample.called)) := by
  intro exchange hmem
  rcases List.mem_append.mp hmem with hwarmup | hsamples
  · obtain ⟨answer, hanswer, rfl⟩ := List.mem_map.mp hwarmup
    exact Or.inr ⟨rfl, Or.inl hanswer⟩
  · obtain ⟨sample, hsample, hexchange⟩ := List.mem_flatMap.mp hsamples
    have hquiet (q : BenchCall) (hq : q = .benchCycles ∨ q = .benchUs) : Quiet q := by
      rcases hq with rfl | rfl <;> exact ⟨not_false, rfl⟩
    simp only [Sample.exchanges, List.mem_cons, List.not_mem_nil, or_false] at hexchange
    rcases hexchange with rfl | rfl | rfl | rfl | rfl
    · exact Or.inl (hquiet _ (Or.inl rfl))
    · exact Or.inl (hquiet _ (Or.inr rfl))
    · exact Or.inr ⟨rfl, Or.inr ⟨sample, hsample, rfl⟩⟩
    · exact Or.inl (hquiet _ (Or.inr rfl))
    · exact Or.inl (hquiet _ (Or.inl rfl))

theorem clean_window {question : BenchCall} {warmup : List BenchAnswer} {samples : List Sample}
    (hwarmup : ∀ answer ∈ warmup, answer.rc = 0)
    (hsamples : ∀ sample ∈ samples, sample.called.rc = 0) :
    Clean (window question warmup samples) := by
  intro exchange hmem hscheme
  obtain hquiet | ⟨-, hanswer | ⟨sample, hsample, hcalled⟩⟩ :=
    quiet_or_question_of_window exchange hmem
  · exact absurd hscheme hquiet.1
  · exact hwarmup _ hanswer
  · rw [hcalled]
    exact hsamples sample hsample

theorem printedRows_window {question : BenchCall} (hrows : rowsOf question = [])
    (warmup : List BenchAnswer) (samples : List Sample) :
    printedRows (window question warmup samples) = [] := by
  apply printedRows_eq_nil
  intro exchange hmem
  obtain hquiet | ⟨hquestion, -⟩ := quiet_or_question_of_window exchange hmem
  · exact hquiet.2
  · rw [hquestion]
    exact hrows

variable {image : BenchImage}

theorem benchRun_ok (hsteady : fn.Steady) {s : BenchResult}
    (h : (benchRun image.sqrt fn image.benchIters image.benchWarmup globals).Yields log
      (.ok s, after)) :
    ∃ warmup samples, log = window (fn.question globals) warmup samples ∧
      Measures image warmup samples ∧
      s = benchStats image.sqrt (samples.map Sample.ms) (samples.map Sample.cyc) ∧
      after = fn.afterAll (samples.map Sample.called) (fn.afterAll warmup globals) := by
  unfold benchRun at h
  split_ifs at h with hiters
  · obtain ⟨-, heq⟩ := h
    exact absurd (Prod.mk.inj heq).1 (by simp)
  · obtain ⟨first, second, ⟨outcome, middle⟩, rfl, hfirst, hsecond⟩ := yields_bind.mp h
    cases outcome with
    | error rc =>
      obtain ⟨-, heq⟩ := hsecond
      exact absurd (Prod.mk.inj heq).1 (by simp)
    | ok warmup =>
      obtain ⟨logs, rfl, hlength, hwarm⟩ := yields_rounds_ok hfirst
      obtain ⟨hlogs, hwarmup, rfl⟩ := succeed_warmupRound hsteady hwarm
      obtain ⟨third, fourth, ⟨measured, last⟩, rfl, hthird, hfourth⟩ := yields_bind.mp hsecond
      cases measured with
      | error rc =>
        obtain ⟨-, heq⟩ := hfourth
        exact absurd (Prod.mk.inj heq).1 (by simp)
      | ok samples =>
        obtain ⟨slogs, rfl, hcount, hrun⟩ := yields_rounds_ok hthird
        obtain ⟨hslogs, hsamples, rfl⟩ := succeed_measuredRound hsteady hrun
        obtain ⟨rfl, heq⟩ := hfourth
        obtain ⟨hs, rfl⟩ := Prod.mk.inj heq
        refine ⟨warmup, samples, ?_, ⟨hiters, hlength, hcount, hwarmup, hsamples⟩,
          (Except.ok.inj hs).symm, rfl⟩
        rw [hlogs, hslogs, List.append_nil, question_afterAll hsteady]
        rfl

/-- A benchmark that fails did so at its last call, unless it was to make none. -/
theorem benchRun_error (hsteady : fn.Steady) (hrows : rowsOf (fn.question globals) = [])
    (hscheme : SchemeCall (fn.question globals)) {rc : ℤ}
    (h : (benchRun image.sqrt fn image.benchIters image.benchWarmup globals).Yields log
      (.error rc, after)) :
    printedRows log = [] ∧ (Fails log ∨ Clean log ∧ image.benchIters = 0) := by
  unfold benchRun at h
  split_ifs at h with hiters
  · obtain ⟨rfl, -⟩ := h
    exact ⟨rfl, Or.inr ⟨List.forall_mem_nil _, hiters⟩⟩
  · obtain ⟨first, second, ⟨outcome, middle⟩, rfl, hfirst, hsecond⟩ := yields_bind.mp h
    cases outcome with
    | error failure =>
      obtain ⟨rfl, -⟩ := hsecond
      obtain ⟨logs, answers, before, final, rfl, -, hwarm, hfinal⟩ := yields_rounds_error hfirst
      obtain ⟨hlogs, hanswers, rfl⟩ := succeed_warmupRound hsteady hwarm
      obtain ⟨answer, rfl, -, houtcome⟩ := yields_warmupRound.mp hfinal
      have hwindow : logs.flatten = window (fn.question globals) answers [] := by
        rw [hlogs, window, List.flatMap_nil, List.append_nil]
      split_ifs at houtcome with hrc
      rw [List.append_nil, hwindow, question_afterAll hsteady, printedRows_append,
        printedRows_window hrows]
      exact ⟨printedRows_eq_nil (List.forall_mem_singleton.mpr hrows), Or.inl
        ((clean_window hanswers (List.forall_mem_nil _)).fails_append
          (fails_singleton hscheme hrc))⟩
    | ok warmup =>
      obtain ⟨logs, rfl, -, hwarm⟩ := yields_rounds_ok hfirst
      obtain ⟨hlogs, hwarmup, rfl⟩ := succeed_warmupRound hsteady hwarm
      obtain ⟨third, fourth, ⟨measured, last⟩, rfl, hthird, hfourth⟩ := yields_bind.mp hsecond
      cases measured with
      | ok samples =>
        obtain ⟨-, heq⟩ := hfourth
        exact absurd (Prod.mk.inj heq).1 (by simp)
      | error failure =>
        obtain ⟨rfl, -⟩ := hfourth
        obtain ⟨slogs, samples, before, final, rfl, -, hrun, hfinal⟩ := yields_rounds_error hthird
        obtain ⟨hslogs, hsamples, rfl⟩ := succeed_measuredRound hsteady hrun
        obtain ⟨sample, rfl, -, houtcome⟩ := yields_measuredRound.mp hfinal
        rw [question_afterAll hsteady] at hslogs ⊢
        have hwindow : logs.flatten ++ slogs.flatten
            = window (fn.question globals) warmup samples := by
          rw [hlogs, hslogs]
          rfl
        split_ifs at houtcome with hrc
        rw [List.append_nil, ← List.append_assoc, hwindow, question_afterAll hsteady,
          printedRows_append, printedRows_window hrows]
        have hlast : sample.exchanges (fn.question globals)
            = window (fn.question globals) [] [sample] := (List.append_nil _).symm
        constructor
        · rw [hlast, printedRows_window hrows]
          rfl
        · refine Or.inl ((clean_window hwarmup hsamples).fails_append ?_)
          exact ⟨[(.benchCycles, sample.startCycles), (.benchUs, sample.startUs)], _, sample.called,
            [(.benchUs, sample.endUs), (.benchCycles, sample.endCycles)], rfl, hscheme, hrc,
            clean_of_quiet (by simp [Quiet, SchemeCall, rowsOf]), by simp [SchemeCall]⟩

end BenchRun

/-! ## Quiet parts -/

section Quiet

variable {α β : Type} {program : BenchProgram α} {log : BenchLog} {result : α}

theorem asks_call {question : BenchCall} (h : Quiet question) : (call question).Asks Quiet :=
  ⟨h, fun _ ↦ trivial⟩

theorem asks_printLine {line : SerialLine} (h : line.rows = []) : (printLine line).Asks Quiet :=
  ⟨⟨not_false, h⟩, fun _ ↦ trivial⟩

theorem quiet_of_call {question : BenchCall} {answer : BenchAnswer}
    (hyields : (call question).Yields log answer) (h : Quiet question) :
    ∀ exchange ∈ log, Quiet exchange.1 :=
  (asks_call h).of_yields hyields

theorem quiet_of_printLine {line : SerialLine} {done : Unit}
    (hyields : (printLine line).Yields log done) (h : line.rows = []) :
    ∀ exchange ∈ log, Quiet exchange.1 :=
  (asks_printLine h).of_yields hyields

theorem asks_printLines {lines : List SerialLine} (h : ∀ line ∈ lines, line.rows = []) :
    (printLines lines).Asks Quiet := by
  induction lines with
  | nil => trivial
  | cons line lines ih =>
    rw [List.forall_mem_cons] at h
    exact asks_bind (asks_printLine h.1) fun _ ↦ ih h.2

theorem asks_usbWait (n : ℕ) : (BenchImage.usbWait n).Asks Quiet := by
  induction n with
  | zero => trivial
  | succ n ih =>
    refine asks_bind (asks_call ?_) fun answer ↦ ?_
    · exact ⟨not_false, rfl⟩
    · split_ifs
      · trivial
      · refine asks_bind (asks_call ?_) fun _ ↦ ih
        exact ⟨not_false, rfl⟩

theorem printedRows_of_quiet (h : ∀ exchange ∈ log, Quiet exchange.1) : printedRows log = [] :=
  printedRows_eq_nil fun exchange hmem ↦ (h exchange hmem).2

theorem not_schemeCall_of_quiet (h : ∀ exchange ∈ log, Quiet exchange.1) :
    ∀ exchange ∈ log, ¬SchemeCall exchange.1 :=
  fun exchange hmem ↦ (h exchange hmem).1

end Quiet

/-! ## One operation -/

/-- A window of successful calls between quiet exchanges, and what the benchmark returns. -/
structure Measured (image : BenchImage) (fn : BenchFn) (globals : Globals) (log : BenchLog)
    (s : BenchResult) (after : Globals) (samples : List Sample) : Prop where
  window_eq : ∃ quiet warmup rest, log = quiet ++ window (fn.question globals) warmup samples ++ rest ∧
    (∀ exchange ∈ quiet, Quiet exchange.1) ∧ (∀ exchange ∈ rest, Quiet exchange.1) ∧
    Measures image warmup samples ∧
    after = fn.afterAll (samples.map Sample.called) (fn.afterAll warmup globals)
  stats_eq : s = benchStats image.sqrt (samples.map Sample.ms) (samples.map Sample.cyc)

section Measure

variable {image : BenchImage} {fn : BenchFn} {globals after : Globals} {log : BenchLog}

theorem Measured.clean {s : BenchResult} {samples : List Sample}
    (h : Measured image fn globals log s after samples) : Clean log := by
  obtain ⟨quiet, warmup, rest, rfl, hquiet, hrest, hmeasures, -⟩ := h.window_eq
  exact ((clean_of_quiet hquiet).append
    (clean_window hmeasures.warmup_ok hmeasures.samples_ok)).append (clean_of_quiet hrest)

theorem Measured.printedRows_eq {s : BenchResult} {samples : List Sample}
    (h : Measured image fn globals log s after samples)
    (hrows : rowsOf (fn.question globals) = []) : printedRows log = [] := by
  obtain ⟨quiet, warmup, rest, rfl, hquiet, hrest, -, -⟩ := h.window_eq
  rw [printedRows_append, printedRows_append, printedRows_of_quiet hquiet,
    printedRows_window hrows, printedRows_of_quiet hrest]
  rfl

/-- The exchanges of `measure` are those of `bench_run` between quiet ones. -/
theorem yields_measure {operation : Operation} {outcome : Except ℤ BenchResult}
    (h : (image.measure operation fn globals).Yields log (outcome, after)) :
    ∃ quiet run rest, log = quiet ++ run ++ rest ∧ (∀ exchange ∈ quiet, Quiet exchange.1) ∧
      (∀ exchange ∈ rest, Quiet exchange.1) ∧
      (benchRun image.sqrt fn image.benchIters image.benchWarmup globals).Yields run
        (outcome, after) := by
  obtain ⟨first, log, _, rfl, hfirst, h⟩ := yields_bind.mp h
  obtain ⟨second, log, _, rfl, hsecond, h⟩ := yields_bind.mp h
  obtain ⟨third, log, _, rfl, hthird, h⟩ := yields_bind.mp h
  obtain ⟨run, rest, ⟨returned, left⟩, rfl, hrun, h⟩ := yields_bind.mp h
  have hquiet : ∀ exchange ∈ first ++ second ++ third, Quiet exchange.1 := by
    rw [List.forall_mem_append, List.forall_mem_append]
    exact ⟨⟨quiet_of_printLine hfirst rfl, quiet_of_call hsecond ⟨not_false, rfl⟩⟩,
      quiet_of_call hthird ⟨not_false, rfl⟩⟩
  have hrest : (∀ exchange ∈ rest, Quiet exchange.1) ∧ outcome = returned ∧ after = left := by
    obtain ⟨fourth, log, answer, rfl, hfourth, h⟩ := yields_bind.mp h
    obtain ⟨fifth, log, _, rfl, hfifth, h⟩ := yields_bind.mp h
    have hmemory := quiet_of_call hfourth ⟨not_false, rfl⟩
    have hprint := quiet_of_printLine hfifth rfl
    rw [List.forall_mem_append, List.forall_mem_append]
    cases returned with
    | ok s =>
      obtain ⟨rfl, heq⟩ := h
      obtain ⟨rfl, rfl⟩ := Prod.mk.inj heq
      exact ⟨⟨hmemory, hprint, List.forall_mem_nil _⟩, rfl, rfl⟩
    | error rc =>
      obtain ⟨sixth, log, _, rfl, hsixth, rfl, heq⟩ := yields_bind.mp h
      obtain ⟨rfl, rfl⟩ := Prod.mk.inj heq
      have herror : (BenchImage.errorLine operation rc).rows = [] := by
        cases operation <;> rfl
      rw [List.append_nil]
      exact ⟨⟨hmemory, hprint, quiet_of_printLine hsixth herror⟩, rfl, rfl⟩
  obtain ⟨hrest, rfl, rfl⟩ := hrest
  exact ⟨_, run, rest, by simp, hquiet, hrest, hrun⟩

theorem measure_ok {operation : Operation} (hsteady : fn.Steady) {s : BenchResult}
    (h : (image.measure operation fn globals).Yields log (.ok s, after)) :
    ∃ samples, Measured image fn globals log s after samples := by
  obtain ⟨quiet, run, rest, rfl, hquiet, hrest, hrun⟩ := yields_measure h
  obtain ⟨warmup, samples, rfl, hmeasures, hstats, hafter⟩ := benchRun_ok hsteady hrun
  exact ⟨samples, ⟨quiet, warmup, rest, rfl, hquiet, hrest, hmeasures, hafter⟩, hstats⟩

theorem measure_error {operation : Operation} (hsteady : fn.Steady)
    (hrows : rowsOf (fn.question globals) = []) (hscheme : SchemeCall (fn.question globals)) {rc : ℤ}
    (h : (image.measure operation fn globals).Yields log (.error rc, after)) :
    printedRows log = [] ∧ (Fails log ∨ image.benchIters = 0) := by
  obtain ⟨quiet, run, rest, rfl, hquiet, hrest, hrun⟩ := yields_measure h
  obtain ⟨hprinted, hfails⟩ := benchRun_error hsteady hrows hscheme hrun
  rw [printedRows_append, printedRows_append, printedRows_of_quiet hquiet, hprinted,
    printedRows_of_quiet hrest]
  refine ⟨rfl, hfails.imp ?_ And.right⟩
  intro hfails
  exact ((clean_of_quiet hquiet).fails_append hfails).append (not_schemeCall_of_quiet hrest)

end Measure

/-! ## Rows -/

/-- A row has the statistics of a benchmark of signing in the log, and the length of the last
signature that was measured. -/
def SignRow (image : BenchImage) (log : BenchLog) (row : ResultRow) : Prop :=
  ∃ before part rest s after samples last hz, log = before ++ part ++ rest ∧
    Measured image image.signIter ⟨List.replicate image.sigBuf 0, 0⟩ part s after samples ∧
    samples.getLast? = some last ∧ row = image.resultRow .sign s hz last.called.sigLen

/-- A row has the statistics of a benchmark in the log that verified one signature, and the length
of that signature. -/
def VerifyRow (image : BenchImage) (log : BenchLog) (row : ResultRow) : Prop :=
  ∃ before reference part rest s after samples hz,
    log = before ++ ((.schemeDoSign image.msg, reference) :: part) ++ rest ∧ reference.rc = 0 ∧
    Measured image image.verifyIter ⟨reference.sig, reference.sigLen⟩ part s after samples ∧
    row = image.resultRow .verify s hz reference.sigLen

section Rows

variable {image : BenchImage} {log : BenchLog}

theorem SignRow.embed {row : ResultRow} (h : SignRow image log row) (before rest : BenchLog) :
    SignRow image (before ++ log ++ rest) row := by
  obtain ⟨before', part, rest', s, after, samples, last, hz, rfl, hrow⟩ := h
  exact ⟨before ++ before', part, rest' ++ rest, s, after, samples, last, hz, by simp, hrow⟩

theorem VerifyRow.embed {row : ResultRow} (h : VerifyRow image log row) (before rest : BenchLog) :
    VerifyRow image (before ++ log ++ rest) row := by
  obtain ⟨before', reference, part, rest', s, after, samples, hz, rfl, hrow⟩ := h
  exact ⟨before ++ before', reference, part, rest' ++ rest, s, after, samples, hz, by simp, hrow⟩

theorem signIter_steady (image : BenchImage) : image.signIter.Steady := fun _ _ ↦ rfl

theorem verifyIter_steady (image : BenchImage) : image.verifyIter.Steady := fun _ _ ↦ rfl

/-- Signing leaves the signature of its last call. -/
theorem signIter_afterAll {answers : List BenchAnswer} {last : BenchAnswer}
    (h : answers.getLast? = some last) (globals : Globals) :
    image.signIter.afterAll answers globals = ⟨last.sig, last.sigLen⟩ := by
  obtain ⟨before, rfl⟩ := List.getLast?_eq_some_iff.mp h
  rw [BenchFn.afterAll, List.foldl_append]
  rfl

/-- Verifying leaves the globals as they are. -/
theorem verifyIter_afterAll (answers : List BenchAnswer) (globals : Globals) :
    image.verifyIter.afterAll answers globals = globals := by
  induction answers with
  | nil => rfl
  | cons answer answers ih => exact ih

theorem Measures.exists_last {warmup : List BenchAnswer} {samples : List Sample}
    (h : Measures image warmup samples) : ∃ last, samples.getLast? = some last := by
  have hlength : samples.length ≠ 0 := by
    rw [h.length_samples]
    exact (Nat.lt_min.mpr ⟨Nat.pos_of_ne_zero h.iters, by decide⟩).ne'
  exact ⟨_, List.getLast?_eq_some_getLast (List.ne_nil_of_length_pos (Nat.pos_of_ne_zero hlength))⟩

theorem Measured.sigLen_sign {globals after : Globals} {s : BenchResult} {samples : List Sample}
    (h : Measured image image.signIter globals log s after samples) :
    ∃ last, samples.getLast? = some last ∧ after.sigLen = last.called.sigLen := by
  obtain ⟨_, warmup, _, -, -, -, hmeasures, rfl⟩ := h.window_eq
  obtain ⟨last, hlast⟩ := hmeasures.exists_last
  refine ⟨last, hlast, ?_⟩
  have hcalled : (samples.map Sample.called).getLast? = some last.called := by
    rw [List.getLast?_map, hlast, Option.map_some]
  rw [signIter_afterAll hcalled]

theorem Measured.sigLen_verify {globals after : Globals} {s : BenchResult} {samples : List Sample}
    (h : Measured image image.verifyIter globals log s after samples) : after = globals := by
  obtain ⟨_, warmup, _, -, -, -, -, rfl⟩ := h.window_eq
  rw [verifyIter_afterAll, verifyIter_afterAll]

theorem yields_printResult {operation : Operation} {s : BenchResult} {globals : Globals}
    {done : Unit} (h : (image.printResult operation s globals).Yields log done) :
    ∃ hz, printedRows log = [image.resultRow operation s hz globals.sigLen] ∧
      ∀ exchange ∈ log, ¬SchemeCall exchange.1 := by
  obtain ⟨first, log, _, rfl, hfirst, h⟩ := yields_bind.mp h
  obtain ⟨second, third, answer, rfl, hsecond, h⟩ := yields_bind.mp h
  obtain ⟨third, rest, printed, rfl, hthird, rfl, -⟩ := yields_bind.mp h
  have hlines : ∀ line ∈ image.benchPrint operation s, line.rows = [] := by
    simp only [BenchImage.benchPrint, List.forall_mem_cons, List.not_mem_nil, false_implies,
      implies_true]
    exact ⟨rfl, rfl, rfl, rfl, rfl, trivial⟩
  have hquiet := (asks_printLines hlines).of_yields hfirst
  have hclock := quiet_of_call hsecond ⟨not_false, rfl⟩
  rw [yields_call.mp hthird]
  refine ⟨answer.hz, ?_, ?_⟩
  · rw [printedRows_append, printedRows_append, printedRows_of_quiet hquiet,
      printedRows_of_quiet hclock]
    rfl
  · rw [List.forall_mem_append, List.forall_mem_append]
    exact ⟨not_schemeCall_of_quiet hquiet, not_schemeCall_of_quiet hclock, by simp [SchemeCall]⟩

theorem printedRows_sanityCheck {globals : Globals} {done : Unit}
    (h : (image.sanityCheck globals).Yields log done) : printedRows log = [] := by
  obtain ⟨first, log, _, rfl, hfirst, h⟩ := yields_bind.mp h
  obtain ⟨second, log, _, rfl, hsecond, h⟩ := yields_bind.mp h
  obtain ⟨third, fourth, _, rfl, hthird, hfourth⟩ := yields_bind.mp h
  rw [yields_call.mp hfirst, yields_call.mp hsecond, printedRows_append, printedRows_append,
    printedRows_append, printedRows_of_quiet (quiet_of_printLine hthird rfl),
    printedRows_of_quiet (quiet_of_printLine hfourth rfl)]
  rfl

/-- The second half prints the row of verifying, or fails. -/
theorem yields_verifyHalf {done : Unit} (h : image.verifyHalf.Yields log done) :
    (∃ row, printedRows log = [row] ∧ VerifyRow image log row) ∨
      (printedRows log = [] ∧ (Fails log ∨ image.benchIters = 0)) := by
  obtain ⟨first, log, reference, rfl, hfirst, hhalf⟩ := yields_bind.mp h
  obtain rfl := yields_call.mp hfirst
  have hreference : printedRows [(.schemeDoSign image.msg, reference)] = [] := rfl
  split_ifs at hhalf with hrc
  · have hquiet := quiet_of_printLine hhalf rfl
    have hfailed : Fails [(.schemeDoSign image.msg, reference)] := fails_singleton trivial hrc
    refine Or.inr ⟨?_, Or.inl (hfailed.append (not_schemeCall_of_quiet hquiet))⟩
    rw [printedRows_append, hreference, printedRows_of_quiet hquiet]
    rfl
  have hsigned : Clean [(.schemeDoSign image.msg, reference)] :=
    List.forall_mem_singleton.mpr fun _ ↦ not_not.mp hrc
  obtain ⟨part, log, ⟨outcome, globals⟩, rfl, hpart, hrest⟩ := yields_bind.mp hhalf
  rw [printedRows_append, printedRows_append, hreference, List.nil_append]
  cases outcome with
  | error rc =>
    obtain ⟨rfl, -⟩ := hrest
    obtain ⟨hprinted, hfails⟩ := measure_error (verifyIter_steady image) rfl trivial hpart
    rw [hprinted, List.append_nil]
    exact Or.inr ⟨rfl, hfails.imp_left hsigned.fails_append⟩
  | ok s =>
    obtain ⟨samples, hmeasured⟩ := measure_ok (verifyIter_steady image) hpart
    obtain rfl := hmeasured.sigLen_verify
    obtain ⟨result, sanity, _, rfl, hresult, hsanity⟩ := yields_bind.mp hrest
    obtain ⟨hz, hrow, -⟩ := yields_printResult hresult
    rw [hmeasured.printedRows_eq rfl, printedRows_append, hrow, printedRows_sanityCheck hsanity]
    refine Or.inl ⟨_, rfl, [], reference, part, result ++ sanity, s, _, samples, hz, ?_,
      not_not.mp hrc, hmeasured, rfl⟩
    simp

/-- Both rows are printed, or the run ends at a call that fails. -/
theorem yields_benchmark {done : Unit} (h : image.benchmark.Yields log done) :
    (∃ signed verified, printedRows log = [signed, verified] ∧ SignRow image log signed ∧
      VerifyRow image log verified) ∨
    ((printedRows log = [] ∨ ∃ signed, printedRows log = [signed] ∧ SignRow image log signed) ∧
      (Fails log ∨ image.benchIters = 0)) := by
  obtain ⟨part, log, ⟨outcome, globals⟩, rfl, hpart, h⟩ := yields_bind.mp h
  cases outcome with
  | error rc =>
    obtain ⟨rfl, -⟩ := h
    obtain ⟨hprinted, hfails⟩ := measure_error (signIter_steady image) rfl trivial hpart
    rw [List.append_nil]
    exact Or.inr ⟨Or.inl hprinted, hfails⟩
  | ok s =>
    obtain ⟨samples, hmeasured⟩ := measure_ok (signIter_steady image) hpart
    obtain ⟨last, hlast, hsigLen⟩ := hmeasured.sigLen_sign
    obtain ⟨line, log, _, rfl, hline, h⟩ := yields_bind.mp h
    obtain ⟨result, verified, _, rfl, hresult, hverified⟩ := yields_bind.mp h
    have hquiet := quiet_of_printLine hline rfl
    obtain ⟨hz, hrow, hnone⟩ := yields_printResult hresult
    have hsigned : SignRow image part (image.resultRow .sign s hz globals.sigLen) :=
      ⟨[], part, [], s, globals, samples, last, hz, by simp, hmeasured, hlast, by rw [hsigLen]⟩
    have hclean : Clean (part ++ line ++ result) :=
      (hmeasured.clean.append (clean_of_quiet hquiet)).append
        fun exchange hmem hscheme ↦ absurd hscheme (hnone exchange hmem)
    have hprinted : printedRows (part ++ (line ++ (result ++ verified)))
        = image.resultRow .sign s hz globals.sigLen :: printedRows verified := by
      rw [printedRows_append, printedRows_append, printedRows_append,
        hmeasured.printedRows_eq rfl, printedRows_of_quiet hquiet, hrow]
      rfl
    have hlog : part ++ (line ++ (result ++ verified)) = part ++ line ++ result ++ verified := by
      simp
    have hembedded : SignRow image (part ++ (line ++ (result ++ verified)))
        (image.resultRow .sign s hz globals.sigLen) :=
      hsigned.embed [] (line ++ (result ++ verified))
    rw [hprinted]
    rcases yields_verifyHalf hverified with ⟨row, hrows, hrowOf⟩ | ⟨hrows, hfails⟩
    · rw [hrows]
      refine Or.inl ⟨_, row, rfl, hembedded, ?_⟩
      rw [hlog, ← List.append_nil (part ++ line ++ result ++ verified)]
      exact hrowOf.embed _ []
    · rw [hrows]
      refine Or.inr ⟨Or.inr ⟨_, rfl, hembedded⟩, hfails.imp_left ?_⟩
      rw [hlog]
      exact hclean.fails_append

/-- What a run may print: both rows, or fewer when it ends at a call that fails. -/
def Reports (image : BenchImage) (log : BenchLog) : Prop :=
  (∃ signed verified, printedRows log = [signed, verified] ∧ SignRow image log signed ∧
    VerifyRow image log verified) ∨
  ((printedRows log = [] ∨ ∃ signed, printedRows log = [signed] ∧ SignRow image log signed) ∧
    (Fails log ∨ image.sigBuf < image.sigMaxBytes.toNat ∨ image.benchIters = 0))

theorem Reports.of_prefix {before : BenchLog} (hclean : Clean before)
    (hprinted : printedRows before = []) (h : Reports image log) : Reports image (before ++ log) := by
  have hembed {row : ResultRow} (hrow : SignRow image log row) :
      SignRow image (before ++ log) row := by
    rw [← List.append_nil (before ++ log)]
    exact hrow.embed before []
  unfold Reports
  rw [printedRows_append, hprinted, List.nil_append]
  rcases h with ⟨signed, verified, hrows, hsigned, hverified⟩ | ⟨hrows, hfails⟩
  · refine Or.inl ⟨signed, verified, hrows, hembed hsigned, ?_⟩
    rw [← List.append_nil (before ++ log)]
    exact hverified.embed before []
  · exact Or.inr ⟨hrows.imp_right fun ⟨signed, hrow, hsigned⟩ ↦ ⟨signed, hrow, hembed hsigned⟩,
      hfails.imp_left hclean.fails_append⟩

theorem header_rows (hz : UInt32) : ∀ line ∈ image.header hz, line.rows = [] := by
  simp only [BenchImage.header, BenchImage.ruler, List.forall_mem_cons, List.not_mem_nil,
    false_implies, implies_true]
  simp [otherLine, emptyLine, SerialLine.rows]

theorem yields_main {done : Unit} (h : image.main.Yields log done) : Reports image log := by
  obtain ⟨first, log, _, rfl, hfirst, h⟩ := yields_bind.mp h
  obtain ⟨second, log, _, rfl, hsecond, h⟩ := yields_bind.mp h
  obtain ⟨third, log, _, rfl, hthird, h⟩ := yields_bind.mp h
  obtain ⟨fourth, log, _, rfl, hfourth, h⟩ := yields_bind.mp h
  obtain ⟨fifth, log, init, rfl, hfifth, hrest⟩ := yields_bind.mp h
  have hquiet : ∀ exchange ∈ first ++ second ++ third ++ fourth, Quiet exchange.1 := by
    rw [List.forall_mem_append, List.forall_mem_append, List.forall_mem_append]
    exact ⟨⟨⟨quiet_of_call hfirst ⟨not_false, rfl⟩, (asks_usbWait 30).of_yields hsecond⟩,
      quiet_of_call hthird ⟨not_false, rfl⟩⟩, quiet_of_call hfourth ⟨not_false, rfl⟩⟩
  have hlog : first ++ (second ++ (third ++ (fourth ++ (fifth ++ log))))
      = (first ++ second ++ third ++ fourth) ++ (fifth ++ log) := by
    simp
  rw [hlog]
  apply Reports.of_prefix (clean_of_quiet hquiet) (printedRows_of_quiet hquiet)
  obtain rfl := yields_call.mp hfifth
  have hinit : printedRows [(.schemeInit, init)] = [] := rfl
  split_ifs at hrest with hrc hbuffer
  · have hfatal := quiet_of_printLine hrest rfl
    have hfailed : Fails [(.schemeInit, init)] := fails_singleton trivial hrc
    refine Or.inr ⟨Or.inl ?_, Or.inl (hfailed.append (not_schemeCall_of_quiet hfatal))⟩
    rw [printedRows_append, hinit, printedRows_of_quiet hfatal]
    rfl
  · have hfatal := quiet_of_printLine hrest rfl
    refine Or.inr ⟨Or.inl ?_, Or.inr (Or.inl hbuffer)⟩
    rw [printedRows_append, hinit, printedRows_of_quiet hfatal]
    rfl
  · have hinitialized : Clean [(.schemeInit, init)] :=
      List.forall_mem_singleton.mpr fun _ ↦ not_not.mp hrc
    apply Reports.of_prefix hinitialized hinit
    obtain ⟨clock, log, answer, rfl, hclock, hrest⟩ := yields_bind.mp hrest
    obtain ⟨header, bench, _, rfl, hheader, hbench⟩ := yields_bind.mp hrest
    have hclockQuiet := quiet_of_call hclock ⟨not_false, rfl⟩
    have hheaderQuiet := (asks_printLines (header_rows answer.hz)).of_yields hheader
    apply Reports.of_prefix (clean_of_quiet hclockQuiet) (printedRows_of_quiet hclockQuiet)
    apply Reports.of_prefix (clean_of_quiet hheaderQuiet) (printedRows_of_quiet hheaderQuiet)
    exact (yields_benchmark hbench).imp_right fun ⟨hrows, hfails⟩ ↦
      ⟨hrows, hfails.imp_right Or.inr⟩

/-- Whatever the world answers, the rows of a run are those of the operations that it completed, and
a run that does not complete both ends at the first call of the scheme that fails. -/
theorem rows_are_measured {σ : Type} (image : BenchImage)
    (handle : σ → BenchCall → BenchAnswer × σ) (world : σ) :
    Reports image (image.main.transcript handle world) :=
  yields_main (yields_transcript handle image.main world)

end Rows

/-- An image on a board where every call succeeds but the last verification. -/
def sampleImage : BenchImage where
  firmware := ResultRow.sampleFirmware .hawk512
  signs := rfl
  sqrt := id
  benchIters := 3
  benchWarmup := 1
  msgLen := 32
  sigBuf := 555
  nistLevel := 1
  pkBytes := 1024
  skBytes := 184
  sigMaxBytes := 555

def sampleAnswer (rc : ℤ) (counter : ℕ) : BenchAnswer :=
  ⟨rc, true, 125000000, counter.toUInt64, [1, 2, 3], 555,
    ⟨0, 0, 0, 0, 0, 0, 0, 0, 0, 0, 0, 0, 0, 0, 0, 0, false, false, 0, .idle⟩⟩

/-- The signature with a flipped bit is refused. -/
def sampleWorld (counter : ℕ) : BenchCall → BenchAnswer × ℕ
  | .schemeDoVerify (0 :: _) _ _ => (sampleAnswer (-1) counter, counter + 1)
  | _ => (sampleAnswer 0 counter, counter + 1)

example : (printedRows (sampleImage.main.transcript sampleWorld 0)).map
    (fun row ↦ (row.operation, row.stats.n)) = [(.sign, 3), (.verify, 3)] := by decide +kernel

end PqMqtt.Firmware
