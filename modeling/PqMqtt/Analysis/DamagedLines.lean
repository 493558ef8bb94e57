import PqMqtt.Analysis.FieldAgreement

/-!
# Damaged lines

`parse` and `incomplete_attempts` on a capture of arbitrary text.  The lines that count are those
of the firmware: a row that it prints for an attempt, and a start line.  Both loops should take
every such line as it is and pass over every other line that the serial port delivers.  They do so
exactly when the damage neither raises an exception that nothing catches, nor takes a header away
from its rows, nor indents a start line, nor looks like a row or a start itself.
-/

namespace PqMqtt.Analysis

open Delimited

/-! ## The lines of the firmware -/

/-- Between white space the line is the line of the fields.  The text is all that the host has: a
line that reads like one of the firmware counts as one. -/
structure Arrived (line : Text) (fields : List Text) : Prop where
  strip_eq : strip line = [','].intercalate fields

/-- The line is one that the firmware prints for an attempt, with the row that it stands for. -/
def StandsForRow (path line : Text) (row : Dict Value) : Prop :=
  ∃ benchmark : Benchmark, ∃ measured ∈ benchmark.runs,
    Arrived line (benchmark.rowLine measured) ∧ row = benchmark.readRow measured path

/-- The line is one that the firmware prints before an attempt, with the start that it stands
for. -/
def StandsForStart (line : Text) (start : Key × Start) : Prop :=
  ∃ benchmark : Benchmark, ∃ measured ∈ benchmark.runs,
    Arrived line (benchmark.startLine measured) ∧ start = benchmark.entry measured

def FirmwareRow (line : Text) : Prop :=
  ∃ benchmark : Benchmark, ∃ measured ∈ benchmark.runs, Arrived line (benchmark.rowLine measured)

def FirmwareStart (line : Text) : Prop :=
  ∃ benchmark : Benchmark, ∃ measured ∈ benchmark.runs, Arrived line (benchmark.startLine measured)

/-- What the lines say one after the other, when those that say nothing are left out. -/
inductive Listed {α : Type} (stands : Text → α → Prop) : List Text → List α → Prop where
  | done : Listed stands [] []
  | taken {line : Text} {lines : List Text} {item : α} {items : List α} :
      stands line item → Listed stands lines items → Listed stands (line :: lines) (item :: items)
  | passed {line : Text} {lines : List Text} {items : List α} :
      (∀ item, ¬stands line item) → Listed stands lines items → Listed stands (line :: lines) items

def Capture.lines (capture : Capture) : List Text :=
  readLines (universalNewlines capture.content)

/-- A capture with a row of the firmware after the header of the firmware. -/
structure NoisyCapture extends Capture where
  exists_row : ∃ earlier line later, toCapture.lines = earlier ++ line :: later ∧
    (∃ header ∈ earlier, Arrived header Benchmark.headerLine) ∧ FirmwareRow line

/-! ## Statement -/

/-- The column names that are in force after a line. -/
def headerAfter (header : Option (List String)) (rawLine : Text) : Option (List String) :=
  if headerPrefix <+: strip rawLine then
    match csvReader (strip rawLine) with
    | .ok parts => some (parts.tail.map String.ofList)
    | .error _ => header
  else header

/-- Every line with the column names in force before it. -/
def inForce : Option (List String) → List Text → List (Option (List String) × Text)
  | _, [] => []
  | header, line :: rest => (header, line) :: inForce (headerAfter header line) rest

/-- `parse` takes the row of a firmware line, and no row from another line. -/
structure RowHandled (path : Text) (header : Option (List String)) (line : Text) : Prop where
  taken : ∀ row, StandsForRow path line row → ∀ rows,
    parseLine path ⟨header, rows⟩ line = .ok ⟨header, rows ++ [row]⟩
  skipped : ¬FirmwareRow line → ∀ rows,
    ∃ next, parseLine path ⟨header, rows⟩ line = .ok ⟨next, rows⟩

/-- `incomplete_attempts` takes the start of a firmware line, and no start from another line. -/
structure StartHandled (line : Text) : Prop where
  taken : ∀ start, StandsForStart line start → ∀ starts,
    scanStart starts line = .ok (insertStart starts start.1 start.2)
  skipped : ¬FirmwareStart line → ∀ starts, scanStart starts line = .ok starts

/-- The analysis returns the rows of the firmware in their order.  Every start of the firmware is
done by a row or reported, and nothing else is reported.  It gets there line by line: each loop
takes what a line of the firmware says and passes over the other lines. -/
structure NoisyCapture.DamageTolerated (capture : NoisyCapture) : Prop where
  returns : ∃ rows report starts, analyze [capture.toCapture] = .ok (rows, report) ∧
    Listed (StandsForRow capture.path.text) capture.lines rows ∧
    Listed StandsForStart capture.lines starts ∧
    (∀ start ∈ starts, (∃ row ∈ rows, doneKey row = .ok (some start.1)) ∨
      ∃ other ∈ starts, other.1 = start.1 ∧ other.2 ∈ report) ∧
    ∀ entry ∈ report, ∃ start ∈ starts, start.2 = entry ∧
      ¬∃ row ∈ rows, doneKey row = .ok (some start.1)
  rows_handled : ∀ pair ∈ inForce none capture.lines, RowHandled capture.path.text pair.1 pair.2
  starts_handled : ∀ line ∈ capture.lines, StartHandled line

/-! ## The condition -/

/-- The csv reader takes the line: no field is longer than its limit. -/
def Readable (line : Text) : Prop := ∃ parts, csvReader (strip line) = .ok parts

/-- The columns of a row line that fits a layout. -/
def rawRowOf (header : Option (List String)) (rawLine : Text) :
    Option (List (String × Text) × Bool) :=
  if rowPrefix <+: strip rawLine then
    match csvReader (strip rawLine) with
    | .ok parts => layout header parts
    | .error _ => none
  else none

/-- A numeric column holds no number. -/
def Unreadable (texts : Dict Text) : Prop :=
  (∃ field ∈ latencyFields, ∀ x, pyFloat (numericText texts field) ≠ .ok x) ∨
  ∃ field ∈ integerFields, ∀ value, integerValue texts field ≠ .ok value

/-- The first integer column that cannot be read holds an infinity, in a row whose latencies can
be read. -/
def InfiniteColumn (texts : Dict Text) : Prop :=
  (∀ field ∈ latencyFields, ∃ x, pyFloat (numericText texts field) = .ok x) ∧
  ∃ earlier field later, integerFields = earlier ++ field :: later ∧
    (∀ other ∈ earlier, ∃ value, integerValue texts other = .ok value) ∧
    field ∉ flagFields ∧
    (field = "campaign" → isDigits ((numericText texts field).dropWhile (· = '-')) = true) ∧
    ∃ negative, pyFloat (numericText texts field) = .ok (.inf negative)

/-- The columns hold the same numbers and the same words. -/
structure SameCells (first second : Dict Text) : Prop where
  latency : ∀ field ∈ latencyFields,
    pyFloat (numericText first field) = pyFloat (numericText second field)
  integer : ∀ field ∈ integerFields, integerValue first field = integerValue second field
  word : ∀ field, field ∉ latencyFields → field ∉ integerFields →
    field ≠ "legacy_success_only" → field ≠ "source_file" → first field = second field

/-- The names give every column the value that the firmware printed for it. -/
def HeaderReads (path : Text) (header : Option (List String)) (cells : List Text) : Prop :=
  ∃ names, header = some names ∧ names.length = columnNames.length ∧
    SameCells (textsOf (names.zip cells) path false) (textsOf (columnNames.zip cells) path false)

/-- The fields are those of a start line that is no warm-up. -/
def MeasuredStart : List Text → Prop
  | [_, _, _, _, _, warmup, _] => parseBool warmup ≠ 1
  | _ => False

/-- The damage does no harm: no tagged line has a field over the limit of the csv reader; every row
of the firmware stands under names that read it; a damaged row that fits a layout holds something
that is no number, before any infinity; no start line of the firmware is indented; and a damaged
start line has lost a field or says that it is a warm-up.  A row in the layout of an old firmware
counts as damaged, since no firmware of the repository prints one. -/
structure Harmless (capture : Capture) : Prop where
  readable : ∀ line ∈ capture.lines,
    headerPrefix <+: strip line ∨ rowPrefix <+: strip line ∨ startPrefix <+: line → Readable line
  headed : ∀ pair ∈ inForce none capture.lines, ∀ benchmark : Benchmark,
    ∀ measured ∈ benchmark.runs, Arrived pair.2 (benchmark.rowLine measured) →
      HeaderReads capture.path.text pair.1 (benchmark.rowLine measured).tail
  refused : ∀ pair ∈ inForce none capture.lines, ¬FirmwareRow pair.2 → ∀ raw legacy,
    rawRowOf pair.1 pair.2 = some (raw, legacy) →
      Unreadable (textsOf raw capture.path.text legacy) ∧
        ¬InfiniteColumn (textsOf raw capture.path.text legacy)
  starts_first : ∀ line ∈ capture.lines, FirmwareStart line → startPrefix <+: line
  starts_refused : ∀ line ∈ capture.lines, startPrefix <+: line → ¬FirmwareStart line →
    ∀ parts, csvReader (strip line) = .ok parts → ¬MeasuredStart parts

/-! ## Errors of a row -/

theorem pyFloat_error {text : Text} {error : PyError} (h : pyFloat text = .error error) :
    error = .valueError := by
  simp only [pyFloat] at h
  split at h
  · cases h
  split at h
  · cases h
  split at h
  · cases h
  · exact (Except.error.inj h).symm

theorem latencyValue_eq_ok_iff (texts : Dict Text) (field : String) :
    (∃ value, latencyValue texts field = .ok value) ↔
      ∃ x, pyFloat (numericText texts field) = .ok x := by
  unfold latencyValue
  cases pyFloat (numericText texts field) <;> simp [Except.map]

theorem latencyValue_error {texts : Dict Text} {field : String} {error : PyError}
    (h : latencyValue texts field = .error error) : error = .valueError := by
  unfold latencyValue at h
  cases hread : pyFloat (numericText texts field) with
  | ok x =>
    rw [hread] at h
    cases h
  | error other =>
    rw [hread] at h
    exact Except.error.inj h ▸ pyFloat_error hread

theorem intOfFloat_error {x : Binary64.Double} {error : PyError} (h : intOfFloat x = .error error) :
    error = .valueError ∨ error = .overflowError := by
  cases x with
  | nan => exact Or.inl (Except.error.inj h).symm
  | inf negative => exact Or.inr (Except.error.inj h).symm
  | fin q => cases h

theorem intOfFloat_eq_overflow_iff (x : Binary64.Double) :
    intOfFloat x = .error .overflowError ↔ ∃ negative, x = .inf negative := by
  cases x <;> simp [intOfFloat]

/-- An integer column raises `OverflowError` for an infinity only. -/
theorem integerValue_eq_overflow_iff (texts : Dict Text) (field : String) :
    integerValue texts field = .error .overflowError ↔
      field ∉ flagFields ∧
      (field = "campaign" → isDigits ((numericText texts field).dropWhile (· = '-')) = true) ∧
      ∃ negative, pyFloat (numericText texts field) = .ok (.inf negative) := by
  unfold integerValue
  by_cases hflag : field ∈ flagFields
  · simp [hflag]
  simp only [hflag, not_false_eq_true, true_and, if_false]
  split
  · rename_i htext
    constructor
    · rintro ⟨⟩
    · rintro ⟨hdigits, -⟩
      rw [hdigits htext.1] at htext
      exact absurd htext.2 (by decide)
  · rename_i htext
    have hdigits : field = "campaign" →
        isDigits ((numericText texts field).dropWhile (· = '-')) = true := by
      intro hcampaign
      by_contra hfalse
      exact htext ⟨hcampaign, Bool.eq_false_iff.mpr hfalse⟩
    rw [bind_eq_error_iff]
    constructor
    · rintro (hread | ⟨x, hread, h⟩)
      · exact absurd (pyFloat_error hread) (by decide)
      · rcases bind_eq_error_iff.mp h with hint | ⟨n, -, hcontra⟩
        · obtain ⟨negative, rfl⟩ := (intOfFloat_eq_overflow_iff x).mp hint
          exact ⟨hdigits, negative, hread⟩
        · cases hcontra
    · rintro ⟨-, negative, hread⟩
      exact Or.inr ⟨_, hread, bind_eq_error_iff.mpr (Or.inl rfl)⟩

theorem integerValue_error {texts : Dict Text} {field : String} {error : PyError}
    (h : integerValue texts field = .error error) :
    error = .valueError ∨ error = .overflowError := by
  unfold integerValue at h
  split at h
  · cases h
  dsimp only at h
  split at h
  · cases h
  · rcases bind_eq_error_iff.mp h with hread | ⟨x, -, h⟩
    · exact Or.inl (pyFloat_error hread)
    · rcases bind_eq_error_iff.mp h with hint | ⟨n, -, hcontra⟩
      · exact intOfFloat_error hint
      · cases hcontra

theorem normalize_error {raw : List (String × Text)} {path : Text} {legacy : Bool}
    {error : PyError} (h : normalize raw path legacy = .error error) :
    error = .valueError ∨ error = .overflowError := by
  rcases exists_of_normalize_eq_error h with ⟨field, -, herror⟩ | ⟨field, -, herror⟩
  · exact Or.inl (latencyValue_error herror)
  · exact integerValue_error herror

/-- The exception that `parse` does not catch. -/
theorem normalize_eq_overflow_iff (raw : List (String × Text)) (path : Text) (legacy : Bool) :
    normalize raw path legacy = .error .overflowError ↔
      InfiniteColumn (textsOf raw path legacy) := by
  rw [normalize_eq_error_iff]
  simp only [latencyValue_eq_ok_iff, integerValue_eq_overflow_iff]
  constructor
  · rintro (⟨earlier, field, later, -, -, herror⟩ | hinfinite)
    · exact absurd (latencyValue_error herror) (by decide)
    · exact hinfinite
  · exact Or.inr

theorem exists_normalize_eq_ok_iff (raw : List (String × Text)) (path : Text) (legacy : Bool) :
    (∃ row, normalize raw path legacy = .ok row) ↔ ¬Unreadable (textsOf raw path legacy) := by
  simp only [normalize_eq_ok_iff, exists_and_left, exists_eq, and_true, latencyValue_eq_ok_iff,
    Unreadable, not_or, not_exists, not_and, not_forall, not_not]

/-- The exception that `parse` catches. -/
theorem normalize_eq_valueError_iff (raw : List (String × Text)) (path : Text) (legacy : Bool) :
    normalize raw path legacy = .error .valueError ↔
      Unreadable (textsOf raw path legacy) ∧ ¬InfiniteColumn (textsOf raw path legacy) := by
  have hread := exists_normalize_eq_ok_iff raw path legacy
  rw [← normalize_eq_overflow_iff]
  cases hresult : normalize raw path legacy with
  | ok row =>
    have hreadable := hread.mp ⟨row, hresult⟩
    simp [hreadable]
  | error error =>
    have hunreadable : Unreadable (textsOf raw path legacy) := by
      by_contra hfalse
      obtain ⟨row, hrow⟩ := hread.mpr hfalse
      rw [hresult] at hrow
      cases hrow
    rcases normalize_error hresult with rfl | rfl <;> simp [hunreadable]

/-! ## The loop of parse -/

theorem not_rowPrefix_of_headerPrefix {line : Text} (h : headerPrefix <+: line) :
    ¬rowPrefix <+: line := by
  intro hrow
  have hshort := List.prefix_of_prefix_length_le hrow h (by decide)
  exact absurd hshort (by decide)

theorem exists_parseRow_eq_ok_iff (path : Text) (header : Option (List String))
    (rows : List (Dict Value)) (parts : List Text) :
    (∃ next, parseRow path ⟨header, rows⟩ parts = .ok ⟨next, rows⟩) ↔
      ∀ raw legacy, layout header parts = some (raw, legacy) →
        normalize raw path legacy = .error .valueError := by
  unfold parseRow
  cases hlayout : layout header parts with
  | none => simp
  | some pair =>
    obtain ⟨raw, legacy⟩ := pair
    have hpair : (∀ other flag, some (raw, legacy) = some (other, flag) →
        normalize other path flag = .error .valueError) ↔
        normalize raw path legacy = .error .valueError := by
      constructor
      · exact fun h ↦ h raw legacy rfl
      · rintro h _ _ ⟨⟩
        exact h
    rw [hpair]
    cases hresult : normalize raw path legacy with
    | ok row => simp [hresult]
    | error error => cases error <;> simp [hresult]

/-- A line adds no row when it is no row, when it fits no layout, and when its conversion raises
the exception that is caught. -/
theorem exists_parseLine_eq_ok_iff (path : Text) (header : Option (List String))
    (rows : List (Dict Value)) (line : Text) :
    (∃ next, parseLine path ⟨header, rows⟩ line = .ok ⟨next, rows⟩) ↔
      (headerPrefix <+: strip line ∨ rowPrefix <+: strip line → Readable line) ∧
      ∀ raw legacy, rawRowOf header line = some (raw, legacy) →
        normalize raw path legacy = .error .valueError := by
  unfold parseLine rawRowOf Readable
  by_cases hheader : headerPrefix <+: strip line
  · have hrow := not_rowPrefix_of_headerPrefix hheader
    simp only [hheader, hrow, if_true, if_false, true_or, true_imp_iff, reduceCtorEq,
      false_imp_iff, implies_true, and_true]
    cases csvReader (strip line) with
    | ok parts => simp [bind, Except.bind]
    | error error => simp [bind, Except.bind]
  simp only [hheader, if_false, false_or]
  by_cases hrow : rowPrefix <+: strip line
  · simp only [hrow, not_true_eq_false, if_false, if_true, true_imp_iff]
    cases csvReader (strip line) with
    | ok parts => simp [bind, Except.bind, exists_parseRow_eq_ok_iff]
    | error error => simp [bind, Except.bind]
  · simp [hrow]

section Cells

variable (texts : Dict Text) (path : Text) (legacy : Bool) {field : String}

theorem normalizedRow_latency (h : field ∈ latencyFields) :
    normalizedRow texts path legacy field = (latencyValue texts field).toOption := by
  have hother : ∀ name ∈ latencyFields,
      name ≠ "source_file" ∧ name ≠ "legacy_success_only" ∧ name ∉ integerFields := by
    decide
  obtain ⟨hsource, hlegacy, hinteger⟩ := hother field h
  rw [normalizedRow, if_neg hsource, if_neg hlegacy, if_neg hinteger, if_pos h]

theorem normalizedRow_integer (h : field ∈ integerFields) :
    normalizedRow texts path legacy field = (integerValue texts field).toOption := by
  have hother : ∀ name ∈ integerFields, name ≠ "source_file" ∧ name ≠ "legacy_success_only" := by
    decide
  rw [normalizedRow, if_neg (hother field h).1, if_neg (hother field h).2, if_pos h]

theorem normalizedRow_word (hlatency : field ∉ latencyFields) (hinteger : field ∉ integerFields)
    (hlegacy : field ≠ "legacy_success_only") (hsource : field ≠ "source_file") :
    normalizedRow texts path legacy field = (texts field).map Value.str := by
  rw [normalizedRow, if_neg hsource, if_neg hlegacy, if_neg hinteger, if_neg hlatency]

end Cells

theorem eq_of_toOption_eq {first second : Except PyError Value} {value : Value}
    (hsecond : second = .ok value) (h : first.toOption = second.toOption) : first = second := by
  subst hsecond
  cases first with
  | ok other => exact congrArg Except.ok (Option.some.inj h)
  | error error => cases h

theorem latencyValue_eq_iff (first second : Dict Text) (field : String) :
    latencyValue first field = latencyValue second field ↔
      pyFloat (numericText first field) = pyFloat (numericText second field) := by
  unfold latencyValue
  cases pyFloat (numericText first field) <;> cases pyFloat (numericText second field) <;>
    simp [Except.map]

/-- Two texts give the same row when the one can be read and the other has its cells. -/
theorem normalize_eq_normalizedRow_iff {raw : List (String × Text)} {path : Text} {legacy : Bool}
    {texts : Dict Text} (hlatency : ∀ field ∈ latencyFields,
      ∃ value, latencyValue texts field = .ok value)
    (hinteger : ∀ field ∈ integerFields, ∃ value, integerValue texts field = .ok value) :
    normalize raw path legacy = .ok (normalizedRow texts path legacy) ↔
      SameCells (textsOf raw path legacy) texts := by
  rw [normalize_eq_ok_iff]
  constructor
  · rintro ⟨-, -, hrow⟩
    refine ⟨fun field hfield ↦ ?_, fun field hfield ↦ ?_, fun field hnolatency hnointeger
      hlegacy hsource ↦ ?_⟩
    · obtain ⟨value, hvalue⟩ := hlatency field hfield
      have hcell := congrFun hrow field
      rw [normalizedRow_latency _ _ _ hfield, normalizedRow_latency _ _ _ hfield] at hcell
      exact (latencyValue_eq_iff ..).mp (eq_of_toOption_eq hvalue hcell.symm)
    · obtain ⟨value, hvalue⟩ := hinteger field hfield
      have hcell := congrFun hrow field
      rw [normalizedRow_integer _ _ _ hfield, normalizedRow_integer _ _ _ hfield] at hcell
      exact eq_of_toOption_eq hvalue hcell.symm
    · have hcell := congrFun hrow field
      rw [normalizedRow_word _ _ _ hnolatency hnointeger hlegacy hsource,
        normalizedRow_word _ _ _ hnolatency hnointeger hlegacy hsource] at hcell
      exact (Option.map_injective (fun _ _ ↦ Value.str.inj) hcell).symm
  · intro hcells
    refine ⟨fun field hfield ↦ ?_, fun field hfield ↦ ?_, ?_⟩
    · rw [(latencyValue_eq_iff ..).mpr (hcells.latency field hfield)]
      exact hlatency field hfield
    · rw [hcells.integer field hfield]
      exact hinteger field hfield
    funext field
    by_cases hsource : field = "source_file"
    · rw [normalizedRow, normalizedRow, if_pos hsource, if_pos hsource]
    by_cases hlegacy : field = "legacy_success_only"
    · rw [normalizedRow, normalizedRow, if_neg hsource, if_neg hsource, if_pos hlegacy,
        if_pos hlegacy]
    by_cases hfieldInteger : field ∈ integerFields
    · rw [normalizedRow_integer _ _ _ hfieldInteger, normalizedRow_integer _ _ _ hfieldInteger,
        hcells.integer field hfieldInteger]
    by_cases hfieldLatency : field ∈ latencyFields
    · rw [normalizedRow_latency _ _ _ hfieldLatency, normalizedRow_latency _ _ _ hfieldLatency,
        (latencyValue_eq_iff ..).mpr (hcells.latency field hfieldLatency)]
    · rw [normalizedRow_word _ _ _ hfieldLatency hfieldInteger hlegacy hsource,
        normalizedRow_word _ _ _ hfieldLatency hfieldInteger hlegacy hsource,
        hcells.word field hfieldLatency hfieldInteger hlegacy hsource]

section Row

variable {benchmark : Benchmark} {measured : MeasuredRun} {path line : Text}
  {header : Option (List String)}

theorem Arrived.strip_strip {fields : List Text} (h : Arrived line fields)
    (hplain : PlainFields fields) : strip line = strip ([','].intercalate fields) := by
  rw [h.strip_eq, strip_line hplain]

theorem parseLine_of_arrived (h : Arrived line (benchmark.rowLine measured)) (state : ParseState) :
    parseLine path state line = parseRow path state (benchmark.rowLine measured) := by
  have hplain := benchmark.rowLine_plain measured
  rw [← parseLine_row hplain (benchmark.rowLine_startsWith measured)]
  simp only [parseLine, h.strip_strip hplain]

/-- A row of the firmware is read when the column names give its columns their values. -/
theorem normalize_zip_eq_readRow_iff (names : List String) :
    normalize (names.zip (benchmark.rowLine measured).tail) path false
        = .ok (benchmark.readRow measured path) ↔
      SameCells (textsOf (names.zip (benchmark.rowLine measured).tail) path false)
        (textsOf (columnNames.zip (benchmark.rowLine measured).tail) path false) := by
  have hread : normalize (columnNames.zip (benchmark.rowLine measured).tail) path false
      = .ok (benchmark.readRow measured path) := benchmark.normalize_rawRow measured path
  obtain ⟨hlatency, hinteger, hrow⟩ := (normalize_eq_ok_iff ..).mp hread
  rw [hrow, normalize_eq_normalizedRow_iff hlatency hinteger]

/-- After a header a row of the firmware adds its row when the header names its columns. -/
theorem parseRow_rowLine_iff (rows : List (Dict Value)) :
    parseRow path ⟨header, rows⟩ (benchmark.rowLine measured)
        = .ok ⟨header, rows ++ [benchmark.readRow measured path]⟩ ↔
      HeaderReads path header (benchmark.rowLine measured).tail := by
  have hlength : (benchmark.rowLine measured).length = 44 := rfl
  have hnone : (⟨header, rows⟩ : ParseState)
      ≠ ⟨header, rows ++ [benchmark.readRow measured path]⟩ := by
    simp
  unfold parseRow HeaderReads
  cases header with
  | none =>
    have hlayout : layout none (benchmark.rowLine measured) = none := by
      simp [layout, hlength]
    simp [hlayout]
  | some names =>
    by_cases hcount : names.length = columnNames.length
    · have hlayout : layout (some names) (benchmark.rowLine measured)
          = some (names.zip (benchmark.rowLine measured).tail, false) := by
        have hne : names ≠ [] := List.ne_nil_of_length_eq_add_one hcount
        simp [layout, hlength, hne, hcount, columnNames]
      rw [hlayout]
      simp only [Option.some.injEq, exists_eq_left', hcount, true_and,
        ← normalize_zip_eq_readRow_iff]
      cases normalize (names.zip (benchmark.rowLine measured).tail) path false with
      | ok row => simp
      | error error => cases error <;> simp
    · have hlayout : layout (some names) (benchmark.rowLine measured) = none := by
        have hother : ¬43 = names.length := fun heq ↦ hcount heq.symm
        simp [layout, hlength, hother]
      simp [hlayout, hcount]

/-- What handling a line of the row loop comes to. -/
theorem rowHandled_iff (path : Text) (header : Option (List String)) (line : Text) :
    RowHandled path header line ↔
      (headerPrefix <+: strip line ∨ rowPrefix <+: strip line → Readable line) ∧
      (∀ benchmark : Benchmark, ∀ measured ∈ benchmark.runs,
        Arrived line (benchmark.rowLine measured) →
          HeaderReads path header (benchmark.rowLine measured).tail) ∧
      (¬FirmwareRow line → ∀ raw legacy, rawRowOf header line = some (raw, legacy) →
        Unreadable (textsOf raw path legacy) ∧ ¬InfiniteColumn (textsOf raw path legacy)) := by
  have htaken (benchmark : Benchmark) (measured : MeasuredRun)
      (harrived : Arrived line (benchmark.rowLine measured)) (rows : List (Dict Value)) :
      parseLine path ⟨header, rows⟩ line
          = .ok ⟨header, rows ++ [benchmark.readRow measured path]⟩ ↔
        HeaderReads path header (benchmark.rowLine measured).tail := by
    rw [parseLine_of_arrived harrived, parseRow_rowLine_iff]
  constructor
  · rintro ⟨hrow, hother⟩
    refine ⟨fun htagged ↦ ?_, fun benchmark measured hmem harrived ↦ ?_, fun hdamaged ↦ ?_⟩
    · by_cases hfirmware : FirmwareRow line
      · obtain ⟨benchmark, measured, -, harrived⟩ := hfirmware
        have hplain := benchmark.rowLine_plain measured
        rw [Readable, harrived.strip_eq, hplain.csvReader_eq
          (benchmark.rowLine_startsWith measured).intercalate_ne_nil]
        exact ⟨_, rfl⟩
      · exact ((exists_parseLine_eq_ok_iff ..).mp (hother hfirmware [])).1 htagged
    · exact (htaken benchmark measured harrived []).mp
        (hrow _ ⟨benchmark, measured, hmem, harrived, rfl⟩ [])
    · intro raw legacy hraw
      rw [← normalize_eq_valueError_iff]
      exact ((exists_parseLine_eq_ok_iff ..).mp (hother hdamaged [])).2 raw legacy hraw
  · rintro ⟨hreadable, hheaded, hrefused⟩
    constructor
    · rintro _ ⟨benchmark, measured, hmem, harrived, rfl⟩ rows
      exact (htaken benchmark measured harrived rows).mpr
        (hheaded benchmark measured hmem harrived)
    · intro hdamaged rows
      refine (exists_parseLine_eq_ok_iff ..).mpr ⟨hreadable, fun raw legacy hraw ↦ ?_⟩
      rw [normalize_eq_valueError_iff]
      exact hrefused hdamaged raw legacy hraw

end Row

/-! ## The loop of incomplete_attempts -/

section Start

variable {benchmark : Benchmark} {measured : MeasuredRun} {line : Text}

/-- A start line that is no warm-up adds a start or raises an exception. -/
theorem addStart_eq_self_iff (parts : List Text) :
    (∀ starts, addStart starts parts = .ok starts) ↔ ¬MeasuredStart parts := by
  unfold MeasuredStart
  split
  · rename_i tag scheme board campaignText runText warmup epochText
    rw [not_not]
    by_cases hwarmup : parseBool warmup = 1
    · simp [addStart, hwarmup]
    simp only [addStart, hwarmup, if_false, iff_false, not_forall]
    refine ⟨[], fun h ↦ ?_⟩
    obtain ⟨campaign, -, h⟩ := bind_eq_ok_iff.mp h
    obtain ⟨run, -, h⟩ := bind_eq_ok_iff.mp h
    obtain ⟨epoch, -, h⟩ := bind_eq_ok_iff.mp h
    cases Except.ok.inj h
  · rename_i hparts
    simp only [not_false_eq_true, iff_true]
    intro starts
    unfold addStart
    split
    · exact absurd rfl (hparts _ _ _ _ _ _ _)
    · rfl

/-- A line adds no start when it is no start line or loses against the checks of the loop. -/
theorem scanStart_eq_self_iff (line : Text) :
    (∀ starts, scanStart starts line = .ok starts) ↔
      (startPrefix <+: line → Readable line) ∧ (startPrefix <+: line →
        ∀ parts, csvReader (strip line) = .ok parts → ¬MeasuredStart parts) := by
  unfold scanStart Readable
  by_cases hstart : startPrefix <+: line
  · simp only [hstart, not_true_eq_false, if_false, true_imp_iff]
    cases csvReader (strip line) with
    | ok parts => simp [bind, Except.bind, addStart_eq_self_iff]
    | error error => simp [bind, Except.bind]
  · simp [hstart]

/-- A start line of the firmware adds its start when nothing stands before it. -/
theorem scanStart_of_arrived_iff (hrun : measured.run < 2 ^ 31)
    (h : Arrived line (benchmark.startLine measured)) :
    (∀ starts, scanStart starts line = .ok (insertStart starts (benchmark.startKey measured)
        (benchmark.startOf measured))) ↔ startPrefix <+: line := by
  have hplain := benchmark.startLine_plain measured
  by_cases hstart : startPrefix <+: line
  · simp only [hstart, iff_true]
    intro starts
    rw [← benchmark.scanStart_startLine measured hrun]
    have hprefix := (startPrefix_iff hplain).mpr (benchmark.startLine_startsWith measured)
    simp only [scanStart, hstart, hprefix, h.strip_strip hplain]
  · simp only [hstart, iff_false, not_forall]
    refine ⟨[], fun hresult ↦ ?_⟩
    rw [scanStart, if_pos hstart] at hresult
    cases Except.ok.inj hresult

theorem FirmwareStart.readable (h : FirmwareStart line) : Readable line := by
  obtain ⟨benchmark, measured, -, harrived⟩ := h
  rw [Readable, harrived.strip_eq, (benchmark.startLine_plain measured).csvReader_eq
    (benchmark.startLine_startsWith measured).intercalate_ne_nil]
  exact ⟨_, rfl⟩

/-- What handling a line of the start loop comes to. -/
theorem startHandled_iff (line : Text) :
    StartHandled line ↔ (startPrefix <+: line → Readable line) ∧
      (FirmwareStart line → startPrefix <+: line) ∧
      (startPrefix <+: line → ¬FirmwareStart line →
        ∀ parts, csvReader (strip line) = .ok parts → ¬MeasuredStart parts) := by
  constructor
  · rintro ⟨htaken, hskipped⟩
    refine ⟨fun hstart ↦ ?_, ?_, fun hstart hdamaged ↦
      ((scanStart_eq_self_iff line).mp (hskipped hdamaged)).2 hstart⟩
    · by_cases hfirmware : FirmwareStart line
      · exact hfirmware.readable
      · exact ((scanStart_eq_self_iff line).mp (hskipped hfirmware)).1 hstart
    · rintro ⟨benchmark, measured, hmem, harrived⟩
      exact (scanStart_of_arrived_iff (benchmark.run_lt hmem) harrived).mp
        (htaken _ ⟨benchmark, measured, hmem, harrived, rfl⟩)
  · rintro ⟨hreadable, hfirst, hrefused⟩
    constructor
    · rintro _ ⟨benchmark, measured, hmem, harrived, rfl⟩
      exact (scanStart_of_arrived_iff (benchmark.run_lt hmem) harrived).mpr
        (hfirst ⟨benchmark, measured, hmem, harrived⟩)
    · exact fun hdamaged ↦ (scanStart_eq_self_iff line).mpr
        ⟨hreadable, fun hstart ↦ hrefused hstart hdamaged⟩

end Start

/-! ## The runs of the loops -/

theorem exists_inForce (header : Option (List String)) {lines : List Text} {line : Text}
    (h : line ∈ lines) : ∃ pair ∈ inForce header lines, pair.2 = line := by
  induction lines generalizing header with
  | nil => cases h
  | cons first lines ih =>
    rcases List.mem_cons.mp h with rfl | hrest
    · exact ⟨_, List.mem_cons_self .., rfl⟩
    · obtain ⟨pair, hpair, heq⟩ := ih (headerAfter header first) hrest
      exact ⟨pair, List.mem_cons_of_mem _ hpair, heq⟩

theorem Listed.ne_nil {α : Type} {stands : Text → α → Prop} {lines : List Text} {items : List α}
    (h : Listed stands lines items) {line : Text} (hline : line ∈ lines) {item : α}
    (hitem : stands line item) : items ≠ [] := by
  induction h with
  | done => cases hline
  | taken => exact List.cons_ne_nil _ _
  | passed hfirst _ ih =>
    rcases List.mem_cons.mp hline with rfl | hrest
    · exact absurd hitem (hfirst item)
    · exact ih hrest

namespace NoisyCapture

variable {capture : NoisyCapture}

theorem harmless_of_tolerated (h : capture.DamageTolerated) : Harmless capture.toCapture := by
  have hrow := fun pair hpair ↦ (rowHandled_iff ..).mp (h.rows_handled pair hpair)
  have hstart := fun line hline ↦ (startHandled_iff _).mp (h.starts_handled line hline)
  constructor
  · intro line hline htagged
    rw [← or_assoc] at htagged
    rcases htagged with hrowTagged | hstartTagged
    · obtain ⟨pair, hpair, rfl⟩ := exists_inForce none hline
      exact (hrow pair hpair).1 hrowTagged
    · exact (hstart line hline).1 hstartTagged
  · exact fun pair hpair ↦ (hrow pair hpair).2.1
  · exact fun pair hpair ↦ (hrow pair hpair).2.2
  · exact fun line hline ↦ (hstart line hline).2.1
  · exact fun line hline ↦ (hstart line hline).2.2

/-- A complete row is lost without a header, and under a damaged one with another number of
names. -/
theorem not_tolerated_of_header {header : Option (List String)} {line : Text}
    (hmem : (header, line) ∈ inForce none capture.lines) (hrow : FirmwareRow line)
    (hcount : ∀ names, header = some names → names.length ≠ columnNames.length) :
    ¬capture.DamageTolerated := by
  intro h
  obtain ⟨benchmark, measured, hrun, harrived⟩ := hrow
  obtain ⟨names, hnames, hlength, -⟩ :=
    (harmless_of_tolerated h).headed _ hmem benchmark measured hrun harrived
  exact hcount names hnames hlength

/-- A row that is cut in its 13th field passes for a successful row of an old firmware. -/
theorem not_tolerated_of_cut {benchmark : Benchmark} {measured : MeasuredRun} {line : Text}
    (hmem : (some columnNames, line) ∈ inForce none capture.lines)
    (hcut : strip line <+: [','].intercalate (benchmark.rowLine measured))
    (hcommas : (strip line).count ',' = 12) (hname : ¬FalseNumber (basename capture.path.text)) :
    ¬capture.DamageTolerated := by
  intro h
  have hrow := benchmark.rowLine_plain measured
  obtain ⟨count, piece, field, hfield, hpiece, htext, hplain⟩ :=
    hrow.cut (List.cons_ne_nil _ _) hcut
  obtain ⟨hlt, -⟩ := List.getElem?_eq_some_iff.mp hfield
  have hlength : ((benchmark.rowLine measured).take count ++ [piece]).length = count + 1 := by
    rw [List.length_append, List.length_take, List.length_singleton, Nat.min_eq_left hlt.le]
  rw [htext, hplain.count_comma, hlength] at hcommas
  obtain rfl : count = 12 := by omega
  have hstarts : StartsWith ((benchmark.rowLine measured).take 12 ++ [piece]) "csv_hs" :=
    (startsWith_take_iff hfield _).mpr ⟨by decide, rfl⟩
  have hread : csvReader (strip line) = .ok ((benchmark.rowLine measured).take 12 ++ [piece]) := by
    rw [htext, hplain.csvReader_eq hstarts.intercalate_ne_nil]
  have hdamaged : ¬FirmwareRow line := by
    rintro ⟨other, run, -, harrived⟩
    have hother := other.rowLine_plain run
    rw [harrived.strip_eq, hother.csvReader_eq
      (other.rowLine_startsWith run).intercalate_ne_nil] at hread
    have hfields : 44 = 12 + 1 := (congrArg List.length (Except.ok.inj hread)).trans hlength
    exact absurd hfields (by decide)
  have hprefix : rowPrefix <+: strip line := by
    rw [htext]
    exact (rowPrefix_iff hplain).mpr hstarts
  have hraw : rawRowOf (some columnNames) line
      = some (legacyFields13.zip ((benchmark.rowLine measured).take 12 ++ [piece]), true) := by
    simp only [rawRowOf, if_pos hprefix, hread]
    simp [layout, hlength, columnNames]
  have herror := (normalize_eq_valueError_iff ..).mpr
    ((harmless_of_tolerated h).refused _ hmem hdamaged _ _ hraw)
  exact benchmark.normalize_13 measured (benchmark.reads_piece13 measured hfield hpiece)
    capture.path.basename_le hname herror

end NoisyCapture

/-! ## A garbled start line -/

end PqMqtt.Analysis
