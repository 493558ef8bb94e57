import PqMqtt.Analysis.Truncation

/-!
# Captures of a repeated campaign

A board that is reset runs its campaign again, and the capture goes on with the output of the next
boot.  `incomplete_attempts` joins starts and rows by scheme, board, campaign and run, which are
the same in every boot.  It reports all lost attempts exactly when at most one boot lost one and no
other boot got further than that boot.
-/

namespace PqMqtt.Analysis

open Delimited

/-! ## Captures -/

/-- What an image that is flashed once fixes for all of its boots. -/
structure Image where
  scheme : Scheme
  board : Board
  campaign : Int32
  iterations : ℕ
  iterations_lt : iterations < 2 ^ 31

/-- A boot with the attempts of its campaign; the first `captured` lines of its output were
received. -/
structure Boot (image : Image) where
  attempts : List Attempt
  length_eq : attempts.length = image.iterations
  captured : ℕ

variable {image : Image}

def Boot.benchmark (boot : Boot image) : Benchmark where
  scheme := image.scheme
  board := image.board
  campaign := image.campaign
  attempts := boot.attempts
  length_lt := by
    rw [boot.length_eq]
    exact image.iterations_lt

/-- The lines of a boot that were received. -/
def Boot.output (boot : Boot image) : List (List Text) :=
  boot.benchmark.lines.take boot.captured

/-- The outputs of some boots one after the other, with a row among them. -/
structure RepeatedCapture (image : Image) where
  boots : List (Boot image)
  exists_row : ∃ boot ∈ boots, ∃ line ∈ boot.output, StartsWith line "csv_hs"

def RepeatedCapture.file (capture : RepeatedCapture image) (path : LogPath) : Capture :=
  ⟨path, capture.boots.flatMap fun boot ↦ unlines '\n' (boot.output.map [','].intercalate)⟩

/-! ## Statement -/

/-- A line of the output with what it says. -/
inductive LogLine where
  | header
  | start (measured : MeasuredRun)
  | row (measured : MeasuredRun)

namespace LogLine

def started : LogLine → Option MeasuredRun
  | start measured => some measured
  | _ => none

def finished : LogLine → Option MeasuredRun
  | row measured => some measured
  | _ => none

/-- The line is the row of the attempt: scheme, board and campaign agree in all lines. -/
def isRowOf (measured : MeasuredRun) : LogLine → Bool
  | row other =>
    other.run = measured.run ∧ other.attempt.startEpochMs = measured.attempt.startEpochMs
  | _ => false

end LogLine

/-- The starts that are not followed, before the next start, by their row. -/
def lostStarts : List LogLine → List MeasuredRun
  | [] => []
  | .start measured :: rest =>
    if (rest.takeWhile (·.started.isNone)).any (LogLine.isRowOf measured) then lostStarts rest
    else measured :: lostStarts rest
  | _ :: rest => lostStarts rest

def attemptLog (measured : MeasuredRun) : List LogLine := [.start measured, .row measured]

def Boot.log (boot : Boot image) : List LogLine :=
  (.header :: boot.benchmark.runs.flatMap attemptLog).take boot.captured

def RepeatedCapture.log (capture : RepeatedCapture image) : List LogLine :=
  capture.boots.flatMap Boot.log

/-- The image without its attempts; it prints the lines of every boot. -/
def Image.printer (image : Image) : Benchmark where
  scheme := image.scheme
  board := image.board
  campaign := image.campaign
  attempts := []
  length_lt := by decide

def LogLine.fields (image : Image) : LogLine → List Text
  | header => Benchmark.headerLine
  | start measured => image.printer.startLine measured
  | row measured => image.printer.rowLine measured

/-- The report has every lost start, and as many entries as there are starts without rows. -/
def RepeatedCapture.LossesReported (capture : RepeatedCapture image) (path : LogPath) : Prop :=
  ∃ rows report, analyze [capture.file path] = .ok (rows, report) ∧
    (∀ measured ∈ lostStarts capture.log, image.printer.startOf measured ∈ report) ∧
    report.length + (capture.log.filterMap LogLine.finished).length
      = (capture.log.filterMap LogLine.started).length

namespace Boot

variable (boot : Boot image)

def started : List MeasuredRun := boot.log.filterMap LogLine.started

def finished : List MeasuredRun := boot.log.filterMap LogLine.finished

/-- The last start of the boot has no row. -/
def Loses : Prop := boot.finished.length < boot.started.length

instance : Decidable boot.Loses := inferInstanceAs (Decidable (_ < _))

end Boot

/-- At most one boot loses an attempt, and no boot gets further than one that does. -/
def RepeatedCapture.Unmasked (capture : RepeatedCapture image) : Prop :=
  capture.boots.countP (fun boot ↦ boot.Loses) ≤ 1 ∧
  ∀ boot ∈ capture.boots, boot.Loses →
    ∀ other ∈ capture.boots, other.finished.length ≤ boot.finished.length

/-! ## The log of a boot -/

section Log

theorem map_attemptLog (runs : List MeasuredRun) :
    (runs.flatMap attemptLog).map (LogLine.fields image)
      = runs.flatMap image.printer.attemptLines := by
  rw [List.map_flatMap]
  rfl

theorem Boot.map_log (boot : Boot image) : boot.log.map (LogLine.fields image) = boot.output := by
  rw [Boot.log, List.map_take, List.map_cons, map_attemptLog]
  rfl

theorem started_attemptLog (runs : List MeasuredRun) (count : ℕ) :
    ((runs.flatMap attemptLog).take count).filterMap LogLine.started
      = runs.take ((count + 1) / 2) := by
  induction runs generalizing count with
  | nil => simp
  | cons first rest ih =>
    match count with
    | 0 => simp
    | 1 => simp [attemptLog, LogLine.started]
    | count + 2 =>
      have hhalf : (count + 2 + 1) / 2 = (count + 1) / 2 + 1 := by omega
      rw [hhalf, List.take_succ_cons, ← ih]
      rfl

theorem finished_attemptLog (runs : List MeasuredRun) (count : ℕ) :
    ((runs.flatMap attemptLog).take count).filterMap LogLine.finished = runs.take (count / 2) := by
  induction runs generalizing count with
  | nil => simp
  | cons first rest ih =>
    match count with
    | 0 => simp
    | 1 => simp [attemptLog, LogLine.finished]
    | count + 2 =>
      have hhalf : (count + 2) / 2 = count / 2 + 1 := by omega
      rw [hhalf, List.take_succ_cons, ← ih]
      rfl

/-- No row stands before the first start. -/
def NoEarlyRow (log : List LogLine) : Prop :=
  ∀ line ∈ log.takeWhile (·.started.isNone), line.finished = none

theorem isRowOf_eq_false {line : LogLine} (h : line.finished = none) (measured : MeasuredRun) :
    line.isRowOf measured = false := by
  cases line with
  | header => rfl
  | start other => rfl
  | row other => cases h

theorem isRowOf_row (measured : MeasuredRun) : (LogLine.row measured).isRowOf measured = true := by
  simp [LogLine.isRowOf]

/-- A start whose row is cut off is lost. -/
theorem lostStarts_attemptLog (runs : List MeasuredRun) (count : ℕ) {rest : List LogLine}
    (hrest : NoEarlyRow rest) :
    lostStarts ((runs.flatMap attemptLog).take count ++ rest)
      = (runs.take ((count + 1) / 2)).drop (count / 2) ++ lostStarts rest := by
  induction runs generalizing count with
  | nil => simp
  | cons first others ih =>
    match count with
    | 0 => simp
    | 1 =>
      have hnone : (rest.takeWhile (·.started.isNone)).any (LogLine.isRowOf first) = false := by
        rw [List.any_eq_false]
        intro line hline
        rw [isRowOf_eq_false (hrest line hline) first]
        simp
      simp only [List.flatMap_cons, attemptLog, List.cons_append, List.take_succ_cons,
        List.take_zero, List.nil_append, lostStarts, hnone]
      rfl
    | count + 2 =>
      have hhalf : (count + 2 + 1) / 2 = (count + 1) / 2 + 1 := by omega
      have hhalf' : (count + 2) / 2 = count / 2 + 1 := by omega
      have hrow (others : List LogLine) :
          ((LogLine.row first :: others).takeWhile (·.started.isNone)).any
            (LogLine.isRowOf first) = true := by
        rw [List.takeWhile_cons_of_pos rfl, List.any_cons, isRowOf_row, Bool.true_or]
      simp only [List.flatMap_cons, attemptLog, List.cons_append, List.nil_append,
        List.take_succ_cons, lostStarts, hrow, if_true]
      rw [hhalf, hhalf', List.take_succ_cons, List.drop_succ_cons]
      exact ih count

variable (boot : Boot image)

/-- The boot has captured no line, or the header and some lines of its attempts. -/
theorem Boot.log_eq :
    boot.captured = 0 ∧ boot.log = [] ∨ ∃ count, boot.captured = count + 1 ∧
      boot.log = .header :: (boot.benchmark.runs.flatMap attemptLog).take count := by
  cases hcaptured : boot.captured with
  | zero => exact Or.inl ⟨rfl, by rw [log, hcaptured, List.take_zero]⟩
  | succ count => exact Or.inr ⟨count, rfl, by rw [log, hcaptured, List.take_succ_cons]⟩

theorem Boot.started_eq : boot.started = boot.benchmark.runs.take (boot.captured / 2) := by
  rw [started]
  rcases boot.log_eq with ⟨hcaptured, hlog⟩ | ⟨count, hcaptured, hlog⟩
  · rw [hlog, hcaptured]
    rfl
  · rw [hlog, hcaptured, ← started_attemptLog]
    rfl

theorem Boot.finished_eq : boot.finished = boot.benchmark.runs.take ((boot.captured - 1) / 2) := by
  rw [finished]
  rcases boot.log_eq with ⟨hcaptured, hlog⟩ | ⟨count, hcaptured, hlog⟩
  · rw [hlog, hcaptured]
    rfl
  · rw [hlog, hcaptured, Nat.add_sub_cancel, ← finished_attemptLog]
    rfl

theorem noEarlyRow_attemptLog (runs : List MeasuredRun) (count : ℕ) {rest : List LogLine}
    (hrest : NoEarlyRow rest) : NoEarlyRow ((runs.flatMap attemptLog).take count ++ rest) := by
  cases runs with
  | nil => simpa using hrest
  | cons first others =>
    cases count with
    | zero => simpa using hrest
    | succ count => simp [NoEarlyRow, attemptLog, LogLine.started]

theorem noEarlyRow_flatMap (boots : List (Boot image)) : NoEarlyRow (boots.flatMap Boot.log) := by
  induction boots with
  | nil => simp [NoEarlyRow]
  | cons boot boots ih =>
    rw [List.flatMap_cons]
    rcases boot.log_eq with ⟨-, hlog⟩ | ⟨count, -, hlog⟩
    · rw [hlog]
      exact ih
    · rw [hlog, List.cons_append, NoEarlyRow, List.takeWhile_cons_of_pos rfl,
        List.forall_mem_cons]
      exact ⟨rfl, noEarlyRow_attemptLog _ _ ih⟩

/-- The lost starts are the last starts of the boots that lose an attempt. -/
theorem lostStarts_flatMap (boots : List (Boot image)) :
    lostStarts (boots.flatMap Boot.log)
      = boots.flatMap fun boot ↦ boot.started.drop boot.finished.length := by
  induction boots with
  | nil => rfl
  | cons boot boots ih =>
    rw [List.flatMap_cons, List.flatMap_cons, ← ih]
    rcases boot.log_eq with ⟨hcaptured, hlog⟩ | ⟨count, hcaptured, hlog⟩
    · rw [boot.started_eq, hcaptured, hlog]
      simp
    · have hdrop : boot.started.drop boot.finished.length
          = (boot.benchmark.runs.take ((count + 1) / 2)).drop (count / 2) := by
        rw [boot.started_eq, boot.finished_eq, hcaptured, Nat.add_sub_cancel, List.length_take]
        rcases le_total (count / 2) boot.benchmark.runs.length with hle | hle
        · rw [Nat.min_eq_left hle]
        · rw [Nat.min_eq_right hle, List.drop_eq_nil_of_le (by simp),
            List.drop_eq_nil_of_le (by simp; omega)]
      rw [hdrop, hlog, List.cons_append, lostStarts]
      · exact lostStarts_attemptLog _ _ (noEarlyRow_flatMap boots)
      · simp

/-- The started attempts are the first ones of the campaign. -/
theorem Boot.run_of_started {measured : MeasuredRun} (h : measured ∈ boot.started) :
    measured ∈ boot.benchmark.runs ∧ measured.run < boot.started.length := by
  obtain ⟨index, hindex⟩ := List.mem_iff_getElem?.mp h
  obtain ⟨hlt, -⟩ := List.getElem?_eq_some_iff.mp hindex
  have hmem := h
  rw [boot.started_eq] at hindex hmem
  have hrun := boot.benchmark.run_of_getElem?_take hindex
  exact ⟨List.mem_of_mem_take hmem, by omega⟩

theorem Boot.run_of_finished {measured : MeasuredRun} (h : measured ∈ boot.finished) :
    measured ∈ boot.benchmark.runs ∧ measured.run < boot.finished.length := by
  obtain ⟨index, hindex⟩ := List.mem_iff_getElem?.mp h
  obtain ⟨hlt, -⟩ := List.getElem?_eq_some_iff.mp hindex
  have hmem := h
  rw [boot.finished_eq] at hindex hmem
  have hrun := boot.benchmark.run_of_getElem?_take hindex
  exact ⟨List.mem_of_mem_take hmem, by omega⟩

theorem Boot.exists_finished {run : ℕ} (h : run < boot.finished.length) :
    ∃ measured ∈ boot.finished, measured.run = run := by
  obtain ⟨measured, hmeasured⟩ : ∃ measured, boot.finished[run]? = some measured :=
    ⟨_, List.getElem?_eq_getElem h⟩
  refine ⟨measured, List.mem_of_getElem? hmeasured, ?_⟩
  rw [boot.finished_eq] at hmeasured
  exact boot.benchmark.run_of_getElem?_take hmeasured

theorem Boot.length_started_le : boot.started.length ≤ boot.finished.length + 1 := by
  rw [boot.started_eq, boot.finished_eq, List.length_take, List.length_take]
  omega

theorem Boot.length_finished_le : boot.finished.length ≤ boot.started.length := by
  rw [boot.started_eq, boot.finished_eq, List.length_take, List.length_take]
  omega

/-- A start that is lost is the one after the finished attempts. -/
theorem Boot.mem_drop_iff {measured : MeasuredRun} :
    measured ∈ boot.started.drop boot.finished.length ↔
      measured ∈ boot.started ∧ measured.run = boot.finished.length := by
  have hle := boot.length_started_le
  constructor
  · intro h
    obtain ⟨index, hindex⟩ := List.mem_iff_getElem?.mp h
    have hmem := List.mem_of_mem_drop h
    rw [List.getElem?_drop] at hindex
    obtain ⟨hlt, -⟩ := List.getElem?_eq_some_iff.mp hindex
    rw [boot.started_eq] at hindex
    have hrun := boot.benchmark.run_of_getElem?_take hindex
    exact ⟨hmem, by omega⟩
  · rintro ⟨hmem, hrun⟩
    obtain ⟨index, hindex⟩ := List.mem_iff_getElem?.mp hmem
    have htake := hindex
    rw [boot.started_eq] at htake
    have hnumber := boot.benchmark.run_of_getElem?_take htake
    apply List.mem_of_getElem? (i := 0)
    rw [List.getElem?_drop, Nat.add_zero, ← hrun, hnumber, hindex]

end Log

/-! ## Reading the capture -/

section Reading

theorem Boot.output_plain (boot : Boot image) : ∀ fields ∈ boot.output, PlainFields fields :=
  fun fields hfields ↦ boot.benchmark.lines_plain fields (List.mem_of_mem_take hfields)

theorem RepeatedCapture.content_eq (capture : RepeatedCapture image) (path : LogPath) :
    (capture.file path).content
      = unlines '\n' ((capture.boots.flatMap Boot.output).map [','].intercalate) := by
  simp only [file, unlines, List.map_flatMap, List.flatMap_assoc]

/-- A loop over the lines of the capture. -/
theorem RepeatedCapture.foldlM_readLines {σ : Type} (capture : RepeatedCapture image)
    (path : LogPath) (step : σ → Text → Except PyError σ)
    (hnewline : ∀ fields, PlainFields fields → ∀ state,
      step state ([','].intercalate fields ++ ['\n']) = step state ([','].intercalate fields))
    (hempty : ∀ state, step state [] = .ok state) (initial : σ) :
    (readLines (universalNewlines (capture.file path).content)).foldlM step initial
      = (capture.boots.flatMap Boot.output).foldlM
          (fun state fields ↦ step state ([','].intercalate fields)) initial := by
  rw [capture.content_eq]
  refine foldlM_readLines_complete step hnewline hempty ?_ initial
  intro fields hfields
  obtain ⟨boot, -, hmem⟩ := List.mem_flatMap.mp hfields
  exact boot.output_plain fields hmem

/-- A boot adds the rows that it finished. -/
theorem Boot.foldlM_parseLine (boot : Boot image) (path : Text) (state : ParseState) :
    ∃ header, boot.output.foldlM
        (fun state fields ↦ parseLine path state ([','].intercalate fields)) state
      = .ok ⟨header, state.rows ++ boot.finished.map (image.printer.readRow · path)⟩ := by
  rw [boot.finished_eq]
  rcases boot.log_eq with ⟨hcaptured, -⟩ | ⟨count, hcaptured, -⟩
  · refine ⟨state.header, ?_⟩
    rw [output, hcaptured]
    simp [pure, Except.pure]
  · refine ⟨some columnNames, ?_⟩
    have hheader := parseLine_header Benchmark.headerLine_plain Benchmark.headerLine_startsWith
      path state
    have hloop := boot.benchmark.foldlM_parseLine path boot.benchmark.runs count state.rows
    have hlines : boot.output
        = Benchmark.headerLine ::
            (boot.benchmark.runs.flatMap boot.benchmark.attemptLines).take count := by
      rw [output, hcaptured, Benchmark.lines, List.take_succ_cons]
      rfl
    rw [Benchmark.headerLine_columns] at hheader
    rw [hlines, List.foldlM_cons, hheader, hcaptured, Nat.add_sub_cancel]
    exact hloop

theorem foldlM_parseLine_boots (boots : List (Boot image)) (path : Text) (state : ParseState) :
    ∃ header, (boots.flatMap Boot.output).foldlM
        (fun state fields ↦ parseLine path state ([','].intercalate fields)) state
      = .ok ⟨header,
          state.rows ++ (boots.flatMap Boot.finished).map (image.printer.readRow · path)⟩ := by
  induction boots generalizing state with
  | nil => exact ⟨state.header, by simp [pure, Except.pure]⟩
  | cons boot boots ih =>
    obtain ⟨first, hfirst⟩ := boot.foldlM_parseLine path state
    obtain ⟨last, hlast⟩ :=
      ih ⟨first, state.rows ++ boot.finished.map (image.printer.readRow · path)⟩
    refine ⟨last, ?_⟩
    rw [List.flatMap_cons, List.foldlM_append, hfirst]
    simp only [bind, Except.bind, hlast, List.flatMap_cons, List.map_append, List.append_assoc]

/-- Every start line of a log adds its entry. -/
theorem foldlM_scanStart_log {log : List LogLine}
    (hrun : ∀ measured ∈ log.filterMap LogLine.started, measured.run < 2 ^ 31)
    (starts : List (Key × Start)) :
    (log.map (LogLine.fields image)).foldlM
        (fun starts fields ↦ scanStart starts ([','].intercalate fields)) starts
      = .ok (insertStarts starts ((log.filterMap LogLine.started).map image.printer.entry)) := by
  induction log generalizing starts with
  | nil => rfl
  | cons line log ih =>
    rw [List.map_cons, List.foldlM_cons]
    cases line with
    | header =>
      have hother : ¬StartsWith Benchmark.headerLine "csv_hs_start" := fun hstarts ↦
        absurd (Benchmark.headerLine_startsWith.unique hstarts) (by decide)
      rw [LogLine.fields, scanStart_other Benchmark.headerLine_plain hother]
      exact ih hrun starts
    | start measured =>
      have hlog : (LogLine.start measured :: log).filterMap LogLine.started
          = measured :: log.filterMap LogLine.started := rfl
      rw [hlog, List.forall_mem_cons] at hrun
      rw [LogLine.fields, Benchmark.scanStart_startLine _ _ hrun.1]
      exact ih hrun.2 _
    | row measured =>
      rw [LogLine.fields, Benchmark.scanStart_rowLine]
      exact ih hrun starts

end Reading

/-! ## The report -/

namespace RepeatedCapture

variable (capture : RepeatedCapture image)

def started : List MeasuredRun := capture.log.filterMap LogLine.started

def finished : List MeasuredRun := capture.log.filterMap LogLine.finished

/-- The keys of the rows. -/
def done : List (Option Key) := capture.finished.map (some <| image.printer.startKey ·)

/-- The entries that the starts leave. -/
def entries : List (Key × Start) := insertStarts [] (capture.started.map image.printer.entry)

local instance : LawfulBEq (Option Key) := inferInstance

/-- The entries of the starts that have no row under their key. -/
def openEntries : List (Key × Start) :=
  (capture.entries.mergeSort fun first second ↦ first.1.le second.1).filter
    fun entry ↦ some entry.1 ∉ capture.done

theorem started_eq : capture.started = capture.boots.flatMap Boot.started :=
  List.filterMap_flatMap

theorem finished_eq : capture.finished = capture.boots.flatMap Boot.finished :=
  List.filterMap_flatMap

theorem run_lt_of_started {measured : MeasuredRun} (h : measured ∈ capture.started) :
    measured.run < 2 ^ 31 := by
  rw [started_eq] at h
  obtain ⟨boot, -, hmem⟩ := List.mem_flatMap.mp h
  exact boot.benchmark.run_lt (boot.run_of_started hmem).1

theorem run_lt_of_finished {measured : MeasuredRun} (h : measured ∈ capture.finished) :
    measured.run < 2 ^ 31 := by
  rw [finished_eq] at h
  obtain ⟨boot, -, hmem⟩ := List.mem_flatMap.mp h
  exact boot.benchmark.run_lt (boot.run_of_finished hmem).1

theorem finished_ne_nil : capture.finished ≠ [] := by
  obtain ⟨boot, hboot, line, hline, hstarts⟩ := capture.exists_row
  rw [← boot.map_log] at hline
  obtain ⟨logLine, hmem, rfl⟩ := List.mem_map.mp hline
  have hlog : logLine ∈ capture.log := List.mem_flatMap.mpr ⟨boot, hboot, hmem⟩
  cases logLine with
  | header => exact absurd (Benchmark.headerLine_startsWith.unique hstarts) (by decide)
  | start measured =>
    exact absurd ((image.printer.startLine_startsWith measured).unique hstarts) (by decide)
  | row measured =>
    have hfinished : measured ∈ capture.finished := List.mem_filterMap.mpr ⟨_, hlog, rfl⟩
    exact List.ne_nil_of_mem hfinished

/-- The rows are those of the finished attempts. -/
theorem parse_eq (path : LogPath) :
    parse [capture.file path]
      = .ok (capture.finished.map (image.printer.readRow · path.text)) := by
  obtain ⟨header, hloop⟩ := foldlM_parseLine_boots capture.boots path.text ⟨none, []⟩
  have hread := capture.foldlM_readLines path (parseLine path.text)
    (fun fields hplain state ↦ parseLine_newline hplain path.text state)
    (parseLine_nil path.text) ⟨none, []⟩
  have hrows : (capture.finished.map (image.printer.readRow · path.text)).isEmpty = false := by
    rw [List.isEmpty_eq_false_iff, ne_eq, List.map_eq_nil_iff]
    exact capture.finished_ne_nil
  have hpath : (capture.file path).path.text = path.text := rfl
  rw [hloop, List.nil_append, ← capture.finished_eq] at hread
  simp only [parse, List.foldlM_cons, List.foldlM_nil, parseFile, hpath, bind, Except.bind, hread,
    pure, Except.pure, hrows, Bool.false_eq_true, if_false]

theorem mapM_doneKey_readRow (path : Text) {finished : List MeasuredRun}
    (hrun : ∀ measured ∈ finished, measured.run < 2 ^ 31) :
    (finished.map (image.printer.readRow · path)).mapM doneKey
      = .ok (finished.map (some <| image.printer.startKey ·)) := by
  induction finished with
  | nil => rfl
  | cons first others ih =>
    rw [List.forall_mem_cons] at hrun
    rw [List.map_cons, List.mapM_cons, image.printer.doneKey_readRow first hrun.1, ih hrun.2]
    rfl

theorem incompleteAttempts_eq (path : LogPath) :
    incompleteAttempts [capture.file path]
        (capture.finished.map (image.printer.readRow · path.text))
      = .ok (capture.openEntries.map Prod.snd) := by
  have hlines : capture.log.map (LogLine.fields image) = capture.boots.flatMap Boot.output := by
    rw [log, List.map_flatMap]
    exact List.flatMap_congr fun boot _ ↦ boot.map_log
  have hread := capture.foldlM_readLines path scanStart
    (fun fields hplain starts ↦ scanStart_newline hplain starts) scanStart_nil []
  rw [← hlines, foldlM_scanStart_log fun measured ↦ capture.run_lt_of_started] at hread
  have hrun : ∀ measured ∈ capture.finished, measured.run < 2 ^ 31 :=
    fun _ ↦ capture.run_lt_of_finished
  have hdone : (capture.finished.map (image.printer.readRow · path.text)).mapM doneKey
      = .ok (capture.finished.map (some <| image.printer.startKey ·)) :=
    mapM_doneKey_readRow path.text hrun
  simp only [incompleteAttempts, List.foldlM_cons, List.foldlM_nil, bind, Except.bind, hread, pure,
    Except.pure, hdone]
  rfl

/-- The capture is read without an exception. -/
theorem lossesReported_iff (path : LogPath) :
    capture.LossesReported path ↔
      (∀ measured ∈ lostStarts capture.log,
        image.printer.startOf measured ∈ capture.openEntries.map Prod.snd) ∧
      capture.openEntries.length + capture.finished.length = capture.started.length := by
  have hanalyze : analyze [capture.file path]
      = .ok (capture.finished.map (image.printer.readRow · path.text),
          capture.openEntries.map Prod.snd) := by
    simp only [analyze, capture.parse_eq, capture.incompleteAttempts_eq, bind, Except.bind]
  constructor
  · rintro ⟨rows, report, hresult, hreported, hlength⟩
    obtain ⟨rfl, rfl⟩ := Prod.mk.inj (Except.ok.inj (hanalyze.symm.trans hresult))
    rw [List.length_map] at hlength
    exact ⟨hreported, hlength⟩
  · rintro ⟨hreported, hlength⟩
    refine ⟨_, _, hanalyze, hreported, ?_⟩
    rw [List.length_map]
    exact hlength

/-! ## Lost and masked starts -/

theorem startKey_inj {first second : MeasuredRun} :
    image.printer.startKey first = image.printer.startKey second ↔ first.run = second.run := by
  constructor
  · intro h
    have hrun : (first.run : ℤ) = second.run := congrArg Key.run h
    exact_mod_cast hrun
  · intro h
    simp only [Benchmark.startKey, h]

theorem startKey_notMem_done_iff {measured : MeasuredRun} :
    some (image.printer.startKey measured) ∉ capture.done ↔
      ∀ finished ∈ capture.finished, finished.run ≠ measured.run := by
  simp only [done, List.mem_map, Option.some.injEq, startKey_inj, not_exists, not_and]

/-- A start without a row under its key is the last start of a boot that got as far as any. -/
theorem exists_boot_of_open {measured : MeasuredRun} (h : measured ∈ capture.started)
    (hopen : some (image.printer.startKey measured) ∉ capture.done) :
    ∃ boot ∈ capture.boots, measured ∈ boot.started ∧ boot.Loses ∧
      measured.run = boot.finished.length ∧
      ∀ other ∈ capture.boots, other.finished.length ≤ boot.finished.length := by
  rw [startKey_notMem_done_iff] at hopen
  rw [started_eq] at h
  obtain ⟨boot, hboot, hmem⟩ := List.mem_flatMap.mp h
  have hrun := (boot.run_of_started hmem).2
  have hle := boot.length_started_le
  have hall : ∀ other ∈ capture.boots, other.finished.length ≤ measured.run := by
    intro other hother
    by_contra hlt
    obtain ⟨finished, hfinished, heq⟩ := other.exists_finished (not_le.mp hlt)
    have hdone : finished ∈ capture.finished := by
      rw [finished_eq]
      exact List.mem_flatMap.mpr ⟨other, hother, hfinished⟩
    exact hopen finished hdone heq
  have hself := hall boot hboot
  have hnumber : measured.run = boot.finished.length := by omega
  exact ⟨boot, hboot, hmem, by unfold Boot.Loses; omega, hnumber, hnumber ▸ hall⟩

/-- An open entry is the entry of a start. -/
theorem exists_of_mem_openEntries {entry : Key × Start} (h : entry ∈ capture.openEntries) :
    ∃ measured ∈ capture.started, entry = image.printer.entry measured ∧
      some (image.printer.startKey measured) ∉ capture.done := by
  obtain ⟨hmem, hopen⟩ := List.mem_filter.mp h
  rw [List.mem_mergeSort] at hmem
  obtain ⟨measured, hmeasured, rfl⟩ := List.mem_map.mp (mem_of_mem_insertStarts hmem)
  exact ⟨measured, hmeasured, rfl, of_decide_eq_true hopen⟩

/-- At most one entry is open. -/
theorem length_openEntries_le : capture.openEntries.length ≤ 1 := by
  have hkeys : (capture.openEntries.map Prod.fst).Nodup := by
    have hperm := (List.mergeSort_perm capture.entries
      fun first second ↦ first.1.le second.1).map Prod.fst
    exact (hperm.nodup_iff.mpr (insertStarts_nodup _)).sublist (List.filter_sublist.map _)
  have hsame : ∀ first ∈ capture.openEntries, ∀ second ∈ capture.openEntries,
      first.1 = second.1 := by
    intro first hfirst second hsecond
    obtain ⟨one, hone, rfl, hopen⟩ := capture.exists_of_mem_openEntries hfirst
    obtain ⟨two, htwo, rfl, hopen'⟩ := capture.exists_of_mem_openEntries hsecond
    obtain ⟨boot, hboot, -, -, hrun, hall⟩ := capture.exists_boot_of_open hone hopen
    obtain ⟨boot', hboot', -, -, hrun', hall'⟩ := capture.exists_boot_of_open htwo hopen'
    have hle := hall boot' hboot'
    have hle' := hall' boot hboot
    exact startKey_inj.mpr (by omega)
  match hentries : capture.openEntries with
  | [] => simp
  | [_] => simp
  | first :: second :: rest =>
    rw [hentries] at hkeys hsame
    have heq := hsame first (by simp) second (by simp)
    simp [heq] at hkeys

theorem length_started (boots : List (Boot image)) :
    (boots.flatMap Boot.started).length
      = (boots.flatMap Boot.finished).length + boots.countP (fun boot ↦ boot.Loses) := by
  induction boots with
  | nil => rfl
  | cons boot boots ih =>
    rw [List.flatMap_cons, List.flatMap_cons, List.length_append, List.length_append, ih]
    have hle := boot.length_started_le
    have hge := boot.length_finished_le
    by_cases hloses : boot.Loses
    · rw [List.countP_cons_of_pos (by simpa using hloses)]
      unfold Boot.Loses at hloses
      omega
    · rw [List.countP_cons_of_neg (by simpa using hloses)]
      unfold Boot.Loses at hloses
      omega

/-- With at most one losing boot, two losing boots are the same. -/
theorem eq_of_loses {boots : List (Boot image)}
    (hcount : boots.countP (fun boot ↦ boot.Loses) ≤ 1) {first second : Boot image}
    (hfirst : first ∈ boots) (hsecond : second ∈ boots) (hloses : first.Loses)
    (hloses' : second.Loses) : first = second := by
  rw [List.countP_eq_length_filter] at hcount
  have hmem : first ∈ boots.filter fun boot ↦ boot.Loses :=
    List.mem_filter.mpr ⟨hfirst, by simpa using hloses⟩
  have hmem' : second ∈ boots.filter fun boot ↦ boot.Loses :=
    List.mem_filter.mpr ⟨hsecond, by simpa using hloses'⟩
  match hboots : boots.filter fun boot ↦ boot.Loses with
  | [] => simp [hboots] at hmem
  | [only] =>
    rw [hboots, List.mem_singleton] at hmem hmem'
    rw [hmem, hmem']
  | _ :: _ :: _ =>
    rw [hboots] at hcount
    simp at hcount

variable {capture}

theorem unmasked_of_reported
    (hlength : capture.openEntries.length + capture.finished.length = capture.started.length) :
    capture.Unmasked := by
  have hsum := length_started capture.boots
  rw [← started_eq, ← finished_eq] at hsum
  have hle := capture.length_openEntries_le
  have hcount : capture.boots.countP (fun boot ↦ boot.Loses) ≤ 1 := by omega
  refine ⟨hcount, fun boot hboot hloses other hother ↦ ?_⟩
  have hpos : 0 < capture.boots.countP fun boot ↦ boot.Loses :=
    List.countP_pos_iff.mpr ⟨boot, hboot, by simpa using hloses⟩
  obtain ⟨entry, hentry⟩ := List.exists_mem_of_length_pos
    (by omega : 0 < capture.openEntries.length)
  obtain ⟨measured, hmeasured, -, hopen⟩ := capture.exists_of_mem_openEntries hentry
  obtain ⟨last, hlast, -, hlastLoses, -, hall⟩ := capture.exists_boot_of_open hmeasured hopen
  obtain rfl := eq_of_loses hcount hlast hboot hlastLoses hloses
  exact hall other hother

/-- The start that the losing boot lost is open, with its own entry. -/
theorem mem_openEntries_of_unmasked (h : capture.Unmasked) {measured : MeasuredRun}
    (hlost : measured ∈ lostStarts capture.log) :
    image.printer.entry measured ∈ capture.openEntries := by
  obtain ⟨hcount, hfar⟩ := h
  rw [log, lostStarts_flatMap] at hlost
  obtain ⟨boot, hboot, hdrop⟩ := List.mem_flatMap.mp hlost
  obtain ⟨hmem, hrun⟩ := boot.mem_drop_iff.mp hdrop
  obtain ⟨hrunMem, hlt⟩ := boot.run_of_started hmem
  have hloses : boot.Loses := by
    unfold Boot.Loses
    omega
  have hstarted : measured ∈ capture.started := by
    rw [started_eq]
    exact List.mem_flatMap.mpr ⟨boot, hboot, hmem⟩
  have hopen : some (image.printer.startKey measured) ∉ capture.done := by
    rw [startKey_notMem_done_iff]
    intro finished hfinished heq
    rw [finished_eq] at hfinished
    obtain ⟨other, hother, hin⟩ := List.mem_flatMap.mp hfinished
    have hless := (other.run_of_finished hin).2
    have hle := hfar boot hboot hloses other hother
    omega
  -- The entry under the key is that of a start with this number, which no other boot has.
  obtain ⟨entry, hentry, hkey⟩ := List.mem_map.mp
    (key_mem_insertStarts (List.mem_map_of_mem (f := image.printer.entry) hstarted))
  obtain ⟨last, hlast, rfl⟩ := List.mem_map.mp (mem_of_mem_insertStarts hentry)
  have hsame : last = measured := by
    have hlastRun : last.run = measured.run := startKey_inj.mp hkey
    have hlastOpen : some (image.printer.startKey last) ∉ capture.done := by
      rw [startKey_inj.mpr hlastRun]
      exact hopen
    obtain ⟨other, hother, hin, hotherLoses, -, -⟩ := capture.exists_boot_of_open hlast hlastOpen
    obtain rfl := eq_of_loses hcount hother hboot hotherLoses hloses
    exact other.benchmark.eq_of_run_eq (other.run_of_started hin).1 hrunMem hlastRun
  rw [hsame] at hentry
  exact List.mem_filter.mpr ⟨List.mem_mergeSort.mpr hentry, decide_eq_true hopen⟩

theorem length_openEntries_of_unmasked (h : capture.Unmasked) :
    capture.openEntries.length + capture.finished.length = capture.started.length := by
  have hsum := length_started capture.boots
  rw [← started_eq, ← finished_eq] at hsum
  have hle := capture.length_openEntries_le
  have hcount := h.1
  rcases Nat.eq_zero_or_pos (capture.boots.countP fun boot ↦ boot.Loses) with hzero | hpos
  · have hempty : capture.openEntries = [] := by
      rw [List.eq_nil_iff_forall_not_mem]
      intro entry hentry
      obtain ⟨measured, hmeasured, -, hopen⟩ := capture.exists_of_mem_openEntries hentry
      obtain ⟨boot, hboot, -, hloses, -⟩ := capture.exists_boot_of_open hmeasured hopen
      have hpos : 0 < capture.boots.countP fun boot ↦ boot.Loses :=
        List.countP_pos_iff.mpr ⟨boot, hboot, by simpa using hloses⟩
      omega
    rw [hempty, List.length_nil]
    omega
  · obtain ⟨boot, hboot, hloses⟩ := List.countP_pos_iff.mp hpos
    have hloses : boot.Loses := by simpa using hloses
    obtain ⟨measured, hdrop⟩ : ∃ measured, measured ∈ boot.started.drop boot.finished.length := by
      apply List.exists_mem_of_length_pos
      rw [List.length_drop]
      unfold Boot.Loses at hloses
      omega
    have hlost : measured ∈ lostStarts capture.log := by
      rw [log, lostStarts_flatMap]
      exact List.mem_flatMap.mpr ⟨boot, hboot, hdrop⟩
    have hmem := List.length_pos_of_mem (mem_openEntries_of_unmasked h hlost)
    omega

/-- All lost attempts of a repeated campaign are reported exactly when at most one boot lost an
attempt and no other boot got further. -/
theorem losses_reported_iff (capture : RepeatedCapture image) (path : LogPath) :
    capture.LossesReported path ↔ capture.Unmasked := by
  rw [lossesReported_iff]
  constructor
  · rintro ⟨-, hlength⟩
    exact unmasked_of_reported hlength
  · intro h
    refine ⟨fun measured hlost ↦ ?_, length_openEntries_of_unmasked h⟩
    exact List.mem_map_of_mem (mem_openEntries_of_unmasked h hlost)

end RepeatedCapture

/-- A campaign of one attempt. -/
def singleImage : Image where
  scheme := .ecdsaP256
  board := Benchmark.sampleBenchmark.board
  campaign := 1
  iterations := 1
  iterations_lt := by decide

/-- The board hangs in the attempt. -/
def hungBoot : Boot singleImage := ⟨[Benchmark.sampleAttempt 1000 false], rfl, 2⟩

/-- After the reset the attempt succeeds. -/
def secondBoot : Boot singleImage := ⟨[Benchmark.sampleAttempt 9000 true], rfl, 3⟩

def maskedCapture : RepeatedCapture singleImage where
  boots := [hungBoot, secondBoot]
  exists_row := ⟨secondBoot, by simp, _, List.mem_of_getElem? (i := 2) rfl,
    secondBoot.benchmark.rowLine_startsWith ⟨0, Benchmark.sampleAttempt 9000 true⟩⟩

/-- The row of the second boot hides that the first boot hung. -/
theorem hang_masked_by_second_boot : ¬maskedCapture.LossesReported Benchmark.samplePath := by
  intro h
  rw [RepeatedCapture.lossesReported_iff] at h
  have hunmasked := RepeatedCapture.unmasked_of_reported h.2
  have hle := hunmasked.2 hungBoot (List.mem_cons_self ..) (by decide) secondBoot
    (List.mem_cons_of_mem _ (List.mem_singleton.mpr rfl))
  exact absurd hle (by decide)

end PqMqtt.Analysis
