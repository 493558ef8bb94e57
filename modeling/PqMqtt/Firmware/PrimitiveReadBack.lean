import PqMqtt.Firmware.PrimitiveRun

/-!
# The table of the signature benchmarks

The serial output of benchmark runs is saved in one file a run.  `analyze_signature_logs.py` tabulates
the rows of all runs, and warns of each run that printed none.
-/

namespace PqMqtt.Firmware

open Analysis Interaction

/-! ## Saved runs -/

/-- The line that a call prints. -/
def printedLine : BenchCall → Option SerialLine
  | .print line => some line
  | _ => none

/-- The serial output of a run. -/
def serialLines (log : BenchLog) : List SerialLine :=
  log.filterMap fun exchange ↦ printedLine exchange.1

theorem flatMap_rows_serialLines (log : BenchLog) :
    (serialLines log).flatMap SerialLine.rows = printedRows log := by
  induction log with
  | nil => rfl
  | cons exchange log ih =>
    obtain ⟨question, answer⟩ := exchange
    unfold serialLines printedRows at ih ⊢
    rw [List.filterMap_cons, List.flatMap_cons, ← ih]
    cases question <;> rfl

/-- A run of an image whose output is saved; before each line break the USB driver may have put a
carriage return. -/
structure SavedRun where
  image : BenchImage
  log : BenchLog
  main_yields : image.main.Yields log ()
  path : Text
  carriageReturn : ℕ → Bool

namespace SavedRun

variable (run : SavedRun)

def saved : PrimitiveLog where
  path := run.path
  lines := (serialLines run.log).zipIdx.map fun line ↦ (line.1, run.carriageReturn line.2)

/-- The rows of the run under the field names. -/
def table : List TableRow := (printedRows run.log).map fun row ↦ tableRow run.path row.values

theorem rows_saved : run.saved.rows = printedRows run.log := by
  have hmap : run.saved.lines.map Prod.fst = serialLines run.log := by
    rw [saved, List.map_map]
    exact List.zipIdx_map_fst 0 _
  rw [← flatMap_rows_serialLines, ← hmap, List.flatMap_map]
  rfl

theorem table_saved : run.saved.table = run.table := congrArg (List.map _) run.rows_saved

/-- A program that signs has no host-expanded key. -/
theorem noExpanded_saved : run.saved.NoExpanded := by
  have hbuild : run.image.firmware.build ≠ .snovaVerifyExpanded := by
    intro h
    have hsigns := run.image.signs
    rw [h] at hsigns
    exact absurd hsigns (by decide)
  have hsign {row : ResultRow} (h : SignRow run.image run.log row) :
      row.firmware.build ≠ .snovaVerifyExpanded := by
    obtain ⟨_, _, _, _, _, _, _, _, -, -, -, rfl⟩ := h
    exact hbuild
  intro row hrow
  rw [rows_saved] at hrow
  rcases yields_main run.main_yields with ⟨signed, verified, hrows, hsigned, hverified⟩ |
    ⟨hnone | ⟨signed, hrows, hsigned⟩, -⟩
  · obtain ⟨_, _, _, _, _, _, _, _, -, -, -, rfl⟩ := hverified
    rw [hrows] at hrow
    rcases List.mem_cons.mp hrow with rfl | hmem
    · exact hsign hsigned
    · rw [List.mem_singleton.mp hmem]
      exact hbuild
  · rw [hnone] at hrow
    exact absurd hrow List.not_mem_nil
  · rw [hrows] at hrow
    rw [List.mem_singleton.mp hrow]
    exact hsign hsigned

/-- Whatever the world answers to an image, its output can be saved. -/
def ofWorld {σ : Type} (image : BenchImage) (handle : σ → BenchCall → BenchAnswer × σ) (world : σ)
    (path : Text) (carriageReturn : ℕ → Bool) : SavedRun where
  image := image
  log := image.main.transcript handle world
  main_yields := yields_transcript handle image.main world
  path := path
  carriageReturn := carriageReturn

example : (ofWorld sampleImage sampleWorld 0 "hawk.log".toList fun _ ↦ true).table.length = 2 := by
  decide +kernel

end SavedRun

/-! ## analyze_signature_logs.py with its warnings -/

/-- One round of the loop over the logs: the rows so far, and the logs that were warned of. -/
def collectReport (report : List TableRow × List Text) (log : LogFile) :
    Except PyError (List TableRow × List Text) := do
  let rows ← collectLog report.1 log
  .ok (rows, if rows.length = report.1.length then report.2 ++ [log.path] else report.2)

/-- `main`: the rows that it writes, and the logs that it warns of. -/
def analyzeReport (logs : List LogFile) : Except PyError (List TableRow × List Text) := do
  let report ← logs.foldlM collectReport ([], [])
  if report.1 = [] then .error .systemExit else .ok report

/-- The runs that printed no row. -/
def withoutRows (runs : List SavedRun) : List SavedRun :=
  runs.filter fun run ↦ (printedRows run.log).isEmpty

theorem collectReport_saved (run : SavedRun) (rows : List TableRow) (warned : List Text) :
    collectReport (rows, warned) run.saved.file
      = .ok (rows ++ run.table, warned ++ (withoutRows [run]).map (·.path)) := by
  have hcollect : collectLog rows run.saved.file = .ok (rows ++ run.saved.table) :=
    (collectLog_eq_ok_iff run.saved rows _).mpr ⟨run.noExpanded_saved, rfl⟩
  have hempty : (rows ++ run.table).length = rows.length ↔ (printedRows run.log).isEmpty = true := by
    rw [List.length_append, Nat.add_eq_left, List.isEmpty_iff, SavedRun.table, List.length_map,
      List.length_eq_zero_iff]
  unfold collectReport withoutRows
  rw [hcollect, run.table_saved, List.filter_singleton]
  change Except.ok (rows ++ run.table, if (rows ++ run.table).length = rows.length then _ else _) = _
  by_cases hrows : (printedRows run.log).isEmpty = true
  · rw [if_pos (hempty.mpr hrows), hrows]
    rfl
  · rw [if_neg (mt hempty.mp hrows), Bool.eq_false_of_not_eq_true hrows]
    exact congrArg (fun warned ↦ Except.ok (_, warned)) (List.append_nil warned).symm

theorem foldlM_collectReport (runs : List SavedRun) (rows : List TableRow) (warned : List Text) :
    (runs.map fun run ↦ run.saved.file).foldlM collectReport (rows, warned)
      = .ok (rows ++ runs.flatMap SavedRun.table, warned ++ (withoutRows runs).map (·.path)) := by
  induction runs generalizing rows warned with
  | nil => simp [withoutRows, pure, Except.pure]
  | cons run runs ih =>
    rw [List.map_cons, List.foldlM_cons, collectReport_saved]
    change List.foldlM collectReport (_, _) _ = _
    rw [ih, List.flatMap_cons, List.append_assoc, List.append_assoc]
    have hsplit : withoutRows (run :: runs) = withoutRows [run] ++ withoutRows runs :=
      List.filter_append [run] runs
    rw [hsplit, List.map_append]

/-- The rows that it writes are those of the analysis. -/
theorem analyzeReport_rows (logs : List LogFile) :
    (analyzeReport logs).map Prod.fst = analyzeSignatureLogs logs := by
  have hloop (report : List TableRow × List Text) :
      (logs.foldlM collectReport report).map Prod.fst = logs.foldlM collectLog report.1 := by
    induction logs generalizing report with
    | nil => rfl
    | cons log logs ih =>
      rw [List.foldlM_cons, List.foldlM_cons, collectReport]
      cases collectLog report.1 log with
      | error failure => rfl
      | ok rows => exact ih _
  have hrows := hloop ([], [])
  unfold analyzeReport analyzeSignatureLogs collectRows
  rw [← hrows]
  cases logs.foldlM collectReport ([], []) with
  | error failure => rfl
  | ok report =>
    change (if report.1 = [] then _ else _ : Except PyError _).map Prod.fst
      = if report.1 = [] then _ else _
    split_ifs <;> rfl

/-- The table of the saved runs has the rows of every operation that a run completed, in their
order, and no others; a warning is given of exactly the runs without rows, which failed. -/
theorem runs_are_tabulated (runs : List SavedRun) :
    (analyzeReport (runs.map fun run ↦ run.saved.file) =
      if runs.flatMap SavedRun.table = [] then .error .systemExit
      else .ok (runs.flatMap SavedRun.table, (withoutRows runs).map (·.path))) ∧
    ∀ run ∈ withoutRows runs, Fails run.log ∨ run.image.sigBuf < run.image.sigMaxBytes.toNat ∨
      run.image.benchIters = 0 := by
  constructor
  · unfold analyzeReport
    rw [foldlM_collectReport]
    rfl
  · intro run hrun
    have hempty : printedRows run.log = [] :=
      List.isEmpty_iff.mp (List.mem_filter.mp hrun).2
    rcases yields_main run.main_yields with ⟨signed, verified, hrows, -⟩ | ⟨-, hfails⟩
    · rw [hempty] at hrows
      exact absurd hrows (List.cons_ne_nil _ _).symm
    · exact hfails

end PqMqtt.Firmware
