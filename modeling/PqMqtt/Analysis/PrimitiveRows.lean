import PqMqtt.Analysis.PrimitiveLog

/-!
# Reading the RESULT rows

`analyze_signature_logs.py` looks for lines that start with `RESULT,`, reads each with a CSV
reader and gives up on the first one that has not twenty values.  The labels of the builds have
no quotes, so a comma in a label makes one value more.
-/

namespace PqMqtt.Analysis

open Delimited

/-! ## analyze_signature_logs.py -/

/-- `FIELDS` -/
def resultFields : List String :=
  ["scheme", "parameters", "implementation", "status", "board", "clock_hz", "message_bytes",
    "public_key_bytes", "secret_key_bytes", "signature_bytes", "operation", "samples", "mean_ms",
    "std_ms", "min_ms", "max_ms", "median_ms", "mean_cycles", "median_cycles",
    "operations_per_second"]

/-- The line boundaries of `str.splitlines`. -/
def isLineBoundary (c : Char) : Bool :=
  decide (0xa ≤ c.toNat ∧ c.toNat ≤ 0xd) || decide (0x1c ≤ c.toNat ∧ c.toNat ≤ 0x1e) ||
  [0x85, 0x2028, 0x2029].contains c.toNat

/-- `str.splitlines` -/
def splitlines : Text → List Text
  | [] => []
  | '\r' :: '\n' :: rest => [] :: splitlines rest
  | c :: rest =>
    if isLineBoundary c then [] :: splitlines rest
    else match splitlines rest with
      | [] => [[c]]
      | line :: lines => (c :: line) :: lines

/-- A row of the table: the items of its dictionary, whose keys are distinct. -/
abbrev TableRow := List (String × Text)

/-- The values of a line under the field names, with the log that they come from. -/
def tableRow (path : Text) (values : List Text) : TableRow :=
  resultFields.zip values ++ [("source_log", path)]

/-- One round of the loop over the lines of a log. -/
def collectLine (path : Text) (rows : List TableRow) (line : Text) :
    Except PyError (List TableRow) :=
  if "RESULT,".toList.isPrefixOf line then do
    let fields ← csvReader line
    let values := fields.tail
    if values.length ≠ resultFields.length then .error .systemExit
    else .ok (rows ++ [tableRow path values])
  else .ok rows

/-- A log that is given on the command line, with the content of its file. -/
structure LogFile where
  path : Text
  content : Text

/-- One round of the loop over the logs. -/
def collectLog (rows : List TableRow) (log : LogFile) : Except PyError (List TableRow) :=
  (splitlines (universalNewlines log.content)).foldlM (collectLine log.path) rows

/-- The rows that `main` collects from its logs. -/
def collectRows (logs : List LogFile) : Except PyError (List TableRow) := logs.foldlM collectLog []

/-- `main`, up to the rows that it writes to the table. -/
def analyzeSignatureLogs (logs : List LogFile) : Except PyError (List TableRow) := do
  let rows ← collectRows logs
  if rows = [] then .error .systemExit else .ok rows

/-! ## Loops that collect -/

/-- A loop whose rounds append the output of a good item, and never succeed on another, succeeds
exactly when all items are good. -/
theorem foldlM_eq_ok_iff {α β : Type} {step : List β → α → Except PyError (List β)}
    {output : α → List β} {good : α → Prop} {items : List α}
    (hgood : ∀ item ∈ items, good item → ∀ rows, step rows item = .ok (rows ++ output item))
    (hbad : ∀ item ∈ items, ¬good item → ∀ rows result, step rows item ≠ .ok result)
    (rows result : List β) :
    items.foldlM step rows = .ok result ↔
      (∀ item ∈ items, good item) ∧ result = rows ++ items.flatMap output := by
  induction items generalizing rows with
  | nil => simp [pure, Except.pure, eq_comm]
  | cons item items ih =>
    rw [List.forall_mem_cons] at hgood hbad
    have hrest := ih hgood.2 hbad.2
    rw [List.foldlM_cons, bind_eq_ok_iff, List.forall_mem_cons, List.flatMap_cons]
    by_cases hitem : good item
    · have hstep : step rows item = .ok (rows ++ output item) := hgood.1 hitem rows
      constructor
      · rintro ⟨next, hnext, hloop⟩
        obtain rfl : rows ++ output item = next := Except.ok.inj (hstep.symm.trans hnext)
        obtain ⟨hall, hresult⟩ := (hrest _).mp hloop
        exact ⟨⟨hitem, hall⟩, by rw [hresult, List.append_assoc]⟩
      · rintro ⟨⟨-, hall⟩, hresult⟩
        exact ⟨_, hstep, (hrest _).mpr ⟨hall, by rw [hresult, List.append_assoc]⟩⟩
    · constructor
      · rintro ⟨next, hnext, -⟩
        exact absurd hnext (hbad.1 hitem rows next)
      · rintro ⟨⟨hgooditem, -⟩, -⟩
        exact absurd hgooditem hitem

/-! ## Serial logs -/

/-- A line that is no RESULT row. -/
structure OtherLine where
  text : Text
  unbroken : ∀ c ∈ text, isLineBoundary c = false
  not_result : ¬"RESULT,".toList <+: text

inductive SerialLine where
  | result (row : ResultRow)
  | other (line : OtherLine)

namespace SerialLine

def text : SerialLine → Text
  | result row => row.line
  | other line => line.text

/-- The RESULT row of a line. -/
def rows : SerialLine → List ResultRow
  | result row => [row]
  | other _ => []

end SerialLine

/-- The serial output that was saved in a file; the USB driver may put a carriage return before a
line break. -/
structure PrimitiveLog where
  path : Text
  lines : List (SerialLine × Bool)

namespace PrimitiveLog

def lineBreak (carriageReturn : Bool) : Text := if carriageReturn then ['\r', '\n'] else ['\n']

def file (log : PrimitiveLog) : LogFile where
  path := log.path
  content := log.lines.flatMap fun (line, carriageReturn) ↦ line.text ++ lineBreak carriageReturn

/-- The RESULT rows of the log. -/
def rows (log : PrimitiveLog) : List ResultRow := log.lines.flatMap fun line ↦ line.1.rows

/-- The printed values of the RESULT rows under the field names. -/
def table (log : PrimitiveLog) : List TableRow :=
  log.rows.map fun row ↦ tableRow log.path row.values

end PrimitiveLog

/-! ## Lines -/

theorem universalNewlines_lineBreak (carriageReturn : Bool) (rest : Text) :
    universalNewlines (PrimitiveLog.lineBreak carriageReturn ++ rest)
      = '\n' :: universalNewlines rest := by
  cases carriageReturn <;> simp [PrimitiveLog.lineBreak, universalNewlines]

theorem splitlines_line_append {line : Text} (h : ∀ c ∈ line, isLineBoundary c = false)
    (rest : Text) : splitlines (line ++ '\n' :: rest) = line :: splitlines rest := by
  have hnewline : isLineBoundary '\n' = true := by decide
  induction line with
  | nil =>
    rw [List.nil_append, splitlines, if_pos hnewline]
    intro other hc
    exact absurd hc (by decide)
  | cons c line ih =>
    rw [List.forall_mem_cons] at h
    rw [List.cons_append, splitlines, if_neg (by simp [h.1]), ih h.2]
    rintro other rfl
    exact absurd h.1 (by decide)

theorem isLineBoundary_of_printable {c : Char} (h : 0x20 ≤ c.toNat ∧ c.toNat ≤ 0x7e) :
    isLineBoundary c = false := by
  simp only [isLineBoundary, Bool.or_eq_false_iff, decide_eq_false_iff_not, List.contains_eq_mem,
    List.mem_cons, List.not_mem_nil, or_false]
  omega

theorem SerialLine.text_unbroken (line : SerialLine) :
    ∀ c ∈ line.text, isLineBoundary c = false := by
  cases line with
  | result row => exact fun c hc ↦ isLineBoundary_of_printable (row.mem_line c hc)
  | other line => exact line.unbroken

theorem SerialLine.return_notMem (line : SerialLine) : '\r' ∉ line.text := by
  intro hc
  have hboundary : isLineBoundary '\r' = false := line.text_unbroken _ hc
  exact absurd hboundary (by decide)

/-- The lines of a saved log are read back, whatever their line breaks. -/
theorem PrimitiveLog.splitlines_file (log : PrimitiveLog) :
    splitlines (universalNewlines log.file.content) = log.lines.map fun line ↦ line.1.text := by
  obtain ⟨path, lines⟩ := log
  simp only [file]
  induction lines with
  | nil => rfl
  | cons line lines ih =>
    rw [List.flatMap_cons, List.append_assoc, universalNewlines_append line.1.return_notMem,
      universalNewlines_lineBreak, splitlines_line_append line.1.text_unbroken, ih, List.map_cons]

/-! ## Rows -/

theorem ResultRow.line_ne_nil (row : ResultRow) : row.line ≠ [] := by
  rw [line, intercalate_cons _ _ (by simp [values])]
  simp

/-- The reader cuts a row at every comma. -/
theorem csvReader_line (row : ResultRow) : csvReader row.line = .ok row.pieces := by
  have hlabel := row.pieces_label
  have hne : [','].intercalate row.pieces ≠ [] := by
    rw [row.intercalate_pieces]
    exact row.line_ne_nil
  rw [← row.intercalate_pieces]
  exact csvReader_intercalate (fun piece hpiece ↦ (hlabel piece hpiece).notMem_comma)
    (fun piece hpiece ↦ (hlabel piece hpiece).notMem_quotechar)
    (fun piece hpiece ↦ (hlabel piece hpiece).length_le) hne

theorem isPrefixOf_line (row : ResultRow) : "RESULT,".toList.isPrefixOf row.line = true := by
  rw [List.isPrefixOf_iff_prefix, ResultRow.line, intercalate_cons _ _ (by simp [ResultRow.values])]
  exact ⟨[','].intercalate row.values, rfl⟩

theorem collectLine_result (path : Text) (rows : List TableRow) (row : ResultRow) :
    collectLine path rows row.line
      = if row.firmware.build = .snovaVerifyExpanded then .error .systemExit
        else .ok (rows ++ [tableRow path row.values]) := by
  have hlength := row.length_pieces
  rw [collectLine, if_pos (isPrefixOf_line row), csvReader_line row]
  simp only [bind, Except.bind, List.length_tail, hlength]
  by_cases hbuild : row.firmware.build = .snovaVerifyExpanded
  · -- The label with a comma makes a twenty-first value.
    have hpieces : row.firmware.build.implementationPieces.length = 2 := by
      rw [hbuild]
      exact Build.length_implementationPieces_expanded
    rw [if_pos hbuild, hpieces, if_pos (by decide)]
  · have hpieces : row.firmware.build.implementationPieces.length = 1 := by
      rw [Build.implementationPieces_of_ne hbuild]
      rfl
    rw [if_neg hbuild, hpieces, if_neg (by decide), ResultRow.pieces_of_ne hbuild, List.tail_cons]

theorem collectLine_other (path : Text) (rows : List TableRow) (line : OtherLine) :
    collectLine path rows line.text = .ok rows := by
  rw [collectLine, if_neg (by rw [List.isPrefixOf_iff_prefix]; exact line.not_result)]

/-! ## Logs -/

/-- No row of a log is from the program with a host-expanded key. -/
def PrimitiveLog.NoExpanded (log : PrimitiveLog) : Prop :=
  ∀ row ∈ log.rows, row.firmware.build ≠ .snovaVerifyExpanded

/-- A log without such rows is read to its table, and the analysis gives up on any other. -/
theorem collectLog_eq_ok_iff (log : PrimitiveLog) (rows result : List TableRow) :
    collectLog rows log.file = .ok result ↔ log.NoExpanded ∧ result = rows ++ log.table := by
  have hgood : ∀ line ∈ log.lines, (∀ row ∈ line.1.rows,
      row.firmware.build ≠ .snovaVerifyExpanded) → ∀ rows,
      collectLine log.path rows line.1.text
        = .ok (rows ++ line.1.rows.map fun row ↦ tableRow log.path row.values) := by
    rintro ⟨line, carriageReturn⟩ - hrows rows
    cases line with
    | result row =>
      exact (collectLine_result log.path rows row).trans
        (if_neg (hrows row (List.mem_singleton_self row)))
    | other line =>
      exact (collectLine_other log.path rows line).trans (by simp [SerialLine.rows])
  have hbad : ∀ line ∈ log.lines, (¬∀ row ∈ line.1.rows,
      row.firmware.build ≠ .snovaVerifyExpanded) → ∀ rows result,
      collectLine log.path rows line.1.text ≠ .ok result := by
    rintro ⟨line, carriageReturn⟩ - hrows rows result
    cases line with
    | result row =>
      have hbuild : row.firmware.build = .snovaVerifyExpanded := by
        simpa [SerialLine.rows] using hrows
      have hline := collectLine_result log.path rows row
      rw [if_pos hbuild] at hline
      simp [SerialLine.text, hline]
    | other line => exact absurd (by simp [SerialLine.rows]) hrows
  have hloop := foldlM_eq_ok_iff hgood hbad rows result
  have hlines : collectLog rows log.file
      = log.lines.foldlM (fun rows line ↦ collectLine log.path rows line.1.text) rows := by
    rw [collectLog, log.splitlines_file, List.foldlM_map]
    rfl
  have htable : log.table = log.lines.flatMap fun line ↦
      line.1.rows.map fun row ↦ tableRow log.path row.values := by
    rw [PrimitiveLog.table, PrimitiveLog.rows, List.map_flatMap]
  have hexpanded : log.NoExpanded ↔ ∀ line ∈ log.lines, ∀ row ∈ line.1.rows,
      row.firmware.build ≠ .snovaVerifyExpanded := by
    simp only [PrimitiveLog.NoExpanded, PrimitiveLog.rows, List.mem_flatMap]
    exact ⟨fun h line hline row hrow ↦ h row ⟨line, hline, hrow⟩,
      fun h row ⟨line, hline, hrow⟩ ↦ h line hline row hrow⟩
  rw [hlines, hloop, htable, hexpanded]

/-- The rows are collected from logs without such rows, and from no others. -/
theorem collectRows_eq_ok_iff (logs : List PrimitiveLog) (rows : List TableRow) :
    collectRows (logs.map PrimitiveLog.file) = .ok rows ↔
      (∀ log ∈ logs, log.NoExpanded) ∧ rows = logs.flatMap PrimitiveLog.table := by
  have hgood : ∀ log ∈ logs, log.NoExpanded → ∀ rows,
      collectLog rows log.file = .ok (rows ++ log.table) :=
    fun log _ hlog rows ↦ (collectLog_eq_ok_iff log rows _).mpr ⟨hlog, rfl⟩
  have hbad : ∀ log ∈ logs, ¬log.NoExpanded → ∀ rows result,
      collectLog rows log.file ≠ .ok result :=
    fun log _ hlog rows result hresult ↦ hlog ((collectLog_eq_ok_iff log rows result).mp hresult).1
  rw [collectRows, List.foldlM_map]
  exact foldlM_eq_ok_iff hgood hbad [] rows

/-- The RESULT rows of the logs are written with their twenty printed values, each under its
field, exactly when no row is from the program with a host-expanded key. -/
theorem resultRows_survive_iff (logs : List PrimitiveLog)
    (h : logs.flatMap PrimitiveLog.rows ≠ []) :
    analyzeSignatureLogs (logs.map PrimitiveLog.file) = .ok (logs.flatMap PrimitiveLog.table) ↔
      ∀ log ∈ logs, ∀ row ∈ log.rows, row.firmware.build ≠ .snovaVerifyExpanded := by
  have htable : logs.flatMap PrimitiveLog.table ≠ [] := by
    obtain ⟨row, hrow⟩ := List.exists_mem_of_ne_nil _ h
    obtain ⟨log, hlog, hmem⟩ := List.mem_flatMap.mp hrow
    apply List.ne_nil_of_mem (a := tableRow log.path row.values)
    exact List.mem_flatMap.mpr ⟨log, hlog, List.mem_map_of_mem hmem⟩
  rw [analyzeSignatureLogs, bind_eq_ok_iff]
  constructor
  · rintro ⟨rows, hrows, -⟩
    exact ((collectRows_eq_ok_iff logs rows).mp hrows).1
  · intro hlogs
    exact ⟨_, (collectRows_eq_ok_iff logs _).mpr ⟨hlogs, rfl⟩, if_neg htable⟩

/-! ## A program of each kind -/

namespace ResultRow

def sampleDecimals : Conversion → ℕ
  | .f4 => 4
  | .f0 => 0
  | .f2 => 2

/-- The digits of a number of `10 ^ (-decimals)` after the point. -/
def sampleFraction (decimals n : ℕ) : Text :=
  (List.range decimals).reverse.map fun place ↦ (n / 10 ^ place % 10).digitChar

/-- The conversion of a double, which is that of the SDK below its limit of `10 ^ 9`. -/
def sampleText (decimals : ℕ) : Binary64.Double → Text
  | .nan => "nan".toList
  | .inf negative => if negative then "-inf".toList else "inf".toList
  | .fin q =>
    let n := (Binary64.roundHalfEven (|q| * 10 ^ decimals)).toNat
    (if q < 0 then ['-'] else []) ++ formatU (n / 10 ^ decimals)
      ++ (if decimals = 0 then [] else '.' :: sampleFraction decimals n)

/-- The SDK keeps a conversion in a buffer of 32 characters. -/
def samplePrintf (conversion : Conversion) (value : Binary64.Double) : Text :=
  (sampleText (sampleDecimals conversion) value).take 32

theorem sampleText_labelChar (decimals : ℕ) (value : Binary64.Double) :
    ∀ c ∈ sampleText decimals value, LabelChar c := by
  have hdigit {c : Char} (hc : c.isDigit = true) : LabelChar c := (isDigit_plain hc).labelChar
  cases value with
  | nan => exact (by decide : Label "nan".toList).labelChar
  | inf negative =>
    cases negative with
    | false => exact (by decide : Label "inf".toList).labelChar
    | true => exact (by decide : Label "-inf".toList).labelChar
  | fin q =>
    intro c hc
    simp only [sampleText, List.mem_append] at hc
    rcases hc with (hsign | hwhole) | hfraction
    · split_ifs at hsign
      · obtain rfl := List.mem_singleton.mp hsign
        decide
      · simp at hsign
    · exact hdigit (formatU_isDigit _ c hwhole)
    · split_ifs at hfraction
      · simp at hfraction
      · rcases List.mem_cons.mp hfraction with rfl | hmem
        · decide
        · obtain ⟨place, -, rfl⟩ := List.mem_map.mp hmem
          exact hdigit (by simp [Nat.mod_lt])

theorem samplePrintf_label (conversion : Conversion) (value : Binary64.Double) :
    Label (samplePrintf conversion value) where
  labelChar := fun c hc ↦ sampleText_labelChar _ value c (List.mem_of_mem_take hc)
  length_le := (List.length_take_le 32 _).trans (by decide)

def sampleFirmware (build : Build) : Firmware where
  build := build
  board := ⟨"pico_w".toList, List.forall_iff_forall_mem.mp (by decide), by decide⟩
  cryptoAlgname := "SNOVA_24_5_4_SHAKE_SSK".toList
  cryptoAlgname_label := by decide
  printf := samplePrintf
  printf_label := samplePrintf_label

/-- A row of a program for verifying. -/
def sample (build : Build) : ResultRow where
  firmware := sampleFirmware build
  operation := .verify
  verify_of_verifyOnly := fun _ ↦ rfl
  clkHz := 125000000
  msgLen := 32
  pkBytes := 1016
  skBytes := 48
  sigBytes := 248
  stats := ⟨100, .fin 250, .fin (1 / 4), .fin (499 / 2), .fin 251, .fin 250, .fin 31250000,
    .fin 31250000, .fin 4⟩

end ResultRow

/-- A log with one row. -/
def sampleLog (build : Build) : PrimitiveLog where
  path := "snova.log".toList
  lines := [(.other ⟨"PHASE,kat_verify,success".toList, List.forall_iff_forall_mem.mp (by decide),
      by decide⟩, true),
    (.result (ResultRow.sample build), true)]

/-- The comma of the implementation label makes the analysis give up. -/
theorem expanded_row_is_rejected :
    analyzeSignatureLogs [(sampleLog .snovaVerifyExpanded).file] = .error .systemExit := by
  decide +kernel

theorem static_key_row_survives :
    analyzeSignatureLogs [(sampleLog .snovaVerify).file]
      = .ok (sampleLog .snovaVerify).table := by
  have hsample : (sampleLog .snovaVerify).rows = [ResultRow.sample .snovaVerify] := rfl
  have hrows : [sampleLog .snovaVerify].flatMap PrimitiveLog.rows ≠ [] := by
    rw [List.flatMap_singleton, hsample]
    exact List.cons_ne_nil _ _
  have hbuild : ∀ log ∈ [sampleLog .snovaVerify], ∀ row ∈ log.rows,
      row.firmware.build ≠ .snovaVerifyExpanded := by
    rw [List.forall_mem_singleton, hsample, List.forall_mem_singleton]
    intro h
    cases h
  have hsurvive := (resultRows_survive_iff [sampleLog .snovaVerify] hrows).mpr hbuild
  rw [List.flatMap_singleton] at hsurvive
  exact hsurvive

end PqMqtt.Analysis
