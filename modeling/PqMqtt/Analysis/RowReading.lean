import PqMqtt.Analysis.HsCsv
import PqMqtt.Analysis.SerialLog

/-!
# Reading the rows of the firmware

`normalize` reads every complete row that the firmware prints: the fields keep their values, but
for the two 64-bit times, which pass through a double.
-/

namespace PqMqtt.Analysis

/-! ## Values of fields -/

/-- The value that a field stands for. -/
def Field.value : Field → Value
  | name text => .str text
  | milliseconds us => .float (Binary64.ofRat (thousandths (msOfUs us.toNat) / 1000))
  | flag value => .int (if value then 1 else 0)
  | unsigned value => .int value.toNat
  | signed value => .int value.toInt

/-- `int(float(n))` -/
def throughFloat (n : ℕ) : ℤ := ⌊Binary64.round n⌋

/-- The value that is read for a field. -/
def Field.read : Field → Value
  | unsigned value => .int (throughFloat value.toNat)
  | field => field.value

theorem intOfFloat_ofRat_natCast {n : ℕ} (h : n < 2 ^ 64) :
    intOfFloat (Binary64.ofRat n) = .ok (throughFloat n) := by
  have hsmall : |(n : ℚ)| < 2 ^ 1022 := by
    rw [abs_of_nonneg (Nat.cast_nonneg n)]
    calc (n : ℚ) < 2 ^ 64 := by exact_mod_cast h
      _ ≤ 2 ^ 1022 := pow_le_pow_right₀ (by norm_num) (by norm_num)
  rw [Binary64.ofRat_eq_fin hsmall, intOfFloat,
    if_pos (Binary64.round_nonneg (Nat.cast_nonneg n))]
  rfl

theorem throughFloat_eq {n : ℕ} (h : n < 2 ^ 53) : throughFloat n = n := by
  have hround : Binary64.round ((n : ℤ) : ℚ) = ((n : ℤ) : ℚ) :=
    Binary64.round_intCast (by rw [Nat.abs_cast]; exact_mod_cast h)
  have hcast : ((n : ℤ) : ℚ) = (n : ℚ) := Int.cast_natCast n
  rw [throughFloat, ← hcast, hround, Int.floor_intCast]

/-- A 32-bit number keeps its value. -/
theorem Field.read_unsigned_toUInt64 (value : UInt32) :
    Field.read (.unsigned value.toUInt64) = Field.value (.unsigned value.toUInt64) := by
  have hlt : value.toUInt64.toNat < 2 ^ 53 := by
    have hvalue := value.toNat_lt
    rw [UInt32.toNat_toUInt64]
    omega
  simp only [read, Field.value, throughFloat_eq hlt]

theorem pyFloat_formatMs (us : ℕ) :
    pyFloat (formatMs us) = .ok (Binary64.ofRat (thousandths (msOfUs us) / 1000)) :=
  pyFloat_formatThousandths _

/-! ## Kinds of fields -/

inductive Kind where
  | text
  | latency
  | flag
  | integer
deriving DecidableEq

/-- How `normalize` treats a column. -/
def kindOf (column : String) : Kind :=
  if column ∈ latencyFields then .latency
  else if column ∉ integerFields then .text
  else if column ∈ flagFields then .flag
  else .integer

def Field.kind : Field → Kind
  | name _ => .text
  | milliseconds _ => .latency
  | flag _ => .flag
  | unsigned _ => .integer
  | signed _ => .integer

theorem Field.read_of_kind_text {field : Field} (h : field.kind = .text) :
    field.read = .str field.format := by
  cases field with
  | name text => rfl
  | milliseconds _ => exact absurd h (by simp [kind])
  | flag _ => exact absurd h (by simp [kind])
  | unsigned _ => exact absurd h (by simp [kind])
  | signed _ => exact absurd h (by simp [kind])

theorem latencyFields_disjoint : ∀ column ∈ latencyFields, column ∉ integerFields := by
  decide

theorem kindOf_latency {column : String} (h : column ∈ latencyFields) :
    kindOf column = .latency := if_pos h

theorem kindOf_integer {column : String} (h : column ∈ integerFields) :
    kindOf column = if column ∈ flagFields then .flag else .integer := by
  have hlatency : column ∉ latencyFields := fun hmem ↦ latencyFields_disjoint column hmem h
  simp [kindOf, hlatency, h]

theorem numericText_eq {texts : Dict Text} {column : String} {text : Text}
    (h : texts column = some text) (hne : text ≠ []) : numericText texts column = text := by
  simp [numericText, h, hne]

theorem latencyValue_eq {texts : Dict Text} {column : String} {field : Field}
    (h : texts column = some field.format) (hkind : field.kind = .latency) :
    latencyValue texts column = .ok field.read := by
  cases field with
  | milliseconds us =>
    have hne : formatMs us.toNat ≠ [] := (formatThousandths_numeral _).ne_nil
    rw [latencyValue, numericText_eq h hne, Field.format, pyFloat_formatMs]
    rfl
  | name _ => exact absurd hkind (by simp [Field.kind])
  | flag _ => exact absurd hkind (by simp [Field.kind])
  | unsigned _ => exact absurd hkind (by simp [Field.kind])
  | signed _ => exact absurd hkind (by simp [Field.kind])

theorem parseBool_flag (value : Bool) :
    parseBool (Field.format (.flag value)) = if value then 1 else 0 := by
  cases value <;> decide

/-- A printed number is no text for `campaign`. -/
theorem isDigits_formatD (n : ℤ) : isDigits ((formatD n).dropWhile (· = '-')) = true := by
  have hdigits (m : ℕ) : isDigits ((formatU m).dropWhile (· = '-')) = true := by
    obtain ⟨c, rest, hcons⟩ := List.exists_cons_of_ne_nil (formatU_ne_nil m)
    have hc : ¬c = '-' := forall_isDigit (p := fun c ↦ ¬c = '-') (by decide)
      (formatU_isDigit m c (by simp [hcons]))
    rw [hcons, List.dropWhile_cons_of_neg (by simpa using hc), ← hcons, isDigits]
    simp only [Bool.and_eq_true, Bool.not_eq_true', List.isEmpty_eq_false_iff, List.all_eq_true]
    exact ⟨formatU_ne_nil m, fun c hc ↦
      forall_isDigit (p := fun c ↦ isDigitChar c = true) (by decide) (formatU_isDigit m c hc)⟩
  rcases lt_or_ge n 0 with hneg | hnonneg
  · rw [formatD_neg hneg, List.dropWhile_cons_of_pos (by simp)]
    exact hdigits _
  · lift n to ℕ using hnonneg
    rw [formatD_natCast]
    exact hdigits n

theorem formatD_ne_nil (n : ℤ) : formatD n ≠ [] := by
  unfold formatD
  split
  · simp
  · exact formatU_ne_nil _

theorem integerValue_eq {texts : Dict Text} {column : String} {field : Field}
    (hcolumn : column ∈ integerFields) (h : texts column = some field.format)
    (hkind : field.kind = kindOf column) : integerValue texts column = .ok field.read := by
  rw [kindOf_integer hcolumn] at hkind
  by_cases hflag : column ∈ flagFields
  · rw [if_pos hflag] at hkind
    cases field with
    | flag value =>
      have hne : Field.format (.flag value) ≠ [] := by
        cases value
        · exact formatU_ne_nil 0
        · exact formatU_ne_nil 1
      simp only [integerValue, numericText_eq h hne, if_pos hflag, parseBool_flag]
      rfl
    | name _ => exact absurd hkind (by simp [Field.kind])
    | milliseconds _ => exact absurd hkind (by simp [Field.kind])
    | unsigned _ => exact absurd hkind (by simp [Field.kind])
    | signed _ => exact absurd hkind (by simp [Field.kind])
  · rw [if_neg hflag] at hkind
    cases field with
    | unsigned value =>
      have hdigits : isDigits ((formatU value.toNat).dropWhile (· = '-')) = true := by
        rw [← formatD_natCast]
        exact isDigits_formatD _
      have hread := intOfFloat_ofRat_natCast value.toNat_lt
      simp [integerValue, numericText_eq h (formatU_ne_nil _), Field.format, hflag, hdigits,
        pyFloat_formatU, bind, Except.bind, hread, Field.read]
    | signed value =>
      have hsmall : |value.toInt| < 2 ^ 53 := by
        have hlow := value.le_toInt
        have hhigh := value.toInt_lt
        rw [abs_lt]
        omega
      simp [integerValue, numericText_eq h (formatD_ne_nil _), Field.format, hflag,
        isDigits_formatD, pyFloat_formatD, bind, Except.bind, intOfFloat_ofRat hsmall, Field.read,
        Field.value]
    | name _ => exact absurd hkind (by simp [Field.kind])
    | milliseconds _ => exact absurd hkind (by simp [Field.kind])
    | flag _ => exact absurd hkind (by simp [Field.kind])

/-! ## Rows -/

namespace Benchmark

variable (benchmark : Benchmark) (measured : MeasuredRun)

/-- The columns of a row with their fields. -/
def columns : Dict Field := Dict.ofPairs (columnNames.zip (benchmark.fields measured))

/-- The row of an attempt in the file at `path`, with the fields read by `read`. -/
def rowWith (read : Field → Value) (path : Text) : Dict Value :=
  ((Dict.ofPairs (columnNames.zip ((benchmark.fields measured).map read))).set
    "legacy_success_only" (.int 0)).set "source_file" (.str path)

/-- The row of an attempt, with the values that the firmware printed. -/
def rowOf (path : Text) : Dict Value := benchmark.rowWith measured Field.value path

theorem length_fields : (benchmark.fields measured).length = columnNames.length := rfl

theorem columnNames_nodup : columnNames.Nodup := by decide

/-- The kinds of the fields of a row. -/
def rowKinds : List Kind :=
  [.text, .text, .integer, .integer, .integer, .integer, .latency, .latency, .latency, .latency,
    .latency, .latency, .latency, .flag, .text, .integer, .flag, .integer, .integer, .integer,
    .integer, .integer, .integer, .integer, .integer, .integer, .integer, .integer, .integer,
    .integer, .integer, .integer, .integer, .flag, .flag, .text, .integer, .integer, .integer,
    .integer, .integer, .integer, .integer]

theorem map_kind_fields : (benchmark.fields measured).map Field.kind = rowKinds := rfl

/-- Every column is printed with the kind that `normalize` expects. -/
theorem map_kindOf_columnNames : columnNames.map kindOf = rowKinds := by
  decide

theorem map_fst_columns :
    (columnNames.zip (benchmark.fields measured)).map Prod.fst = columnNames :=
  List.map_fst_zip (benchmark.length_fields measured).ge

theorem columns_eq_some {column : String} {field : Field}
    (h : (column, field) ∈ columnNames.zip (benchmark.fields measured)) :
    benchmark.columns measured column = some field := by
  apply Dict.ofPairs_eq_some _ h
  rw [map_fst_columns]
  exact columnNames_nodup

theorem exists_columns_eq_some {column : String} (h : column ∈ columnNames) :
    ∃ field, benchmark.columns measured column = some field := by
  rw [← benchmark.map_fst_columns measured] at h
  obtain ⟨⟨_, field⟩, hmem, rfl⟩ := List.mem_map.mp h
  exact ⟨field, benchmark.columns_eq_some measured hmem⟩

/-- A column holds a field of its kind. -/
theorem kind_of_columns_eq_some {column : String} {field : Field}
    (h : benchmark.columns measured column = some field) :
    column ∈ columnNames ∧ field.kind = kindOf column := by
  apply Dict.ofPairs_forall (p := fun column field ↦
    column ∈ columnNames ∧ field.kind = kindOf column) _ column field h
  rintro ⟨column, field⟩ hmem
  refine ⟨(List.of_mem_zip hmem).1, ?_⟩
  obtain ⟨index, hindex⟩ := List.mem_iff_getElem?.mp hmem
  obtain ⟨hcolumn, hfield⟩ := List.getElem?_zip_eq_some.mp hindex
  have hkinds := congrArg (fun kinds ↦ kinds[index]?)
    (map_kindOf_columnNames.trans (benchmark.map_kind_fields measured).symm)
  simp only [List.getElem?_map, hcolumn, hfield, Option.map_some, Option.some.injEq] at hkinds
  exact hkinds.symm

theorem rowWith_apply (read : Field → Value) (path : Text) (column : String) :
    benchmark.rowWith measured read path column =
      if column = "source_file" then some (.str path)
      else if column = "legacy_success_only" then some (.int 0)
      else (benchmark.columns measured column).map read := by
  have hzip : columnNames.zip ((benchmark.fields measured).map read)
      = (columnNames.zip (benchmark.fields measured)).map fun pair ↦ (pair.1, read pair.2) :=
    List.zip_map_right
  rw [rowWith, hzip, Dict.ofPairs_map]
  rfl

/-- The row as `parse` hands it to `normalize`. -/
def rawRow : List (String × Text) :=
  columnNames.zip ((benchmark.fields measured).map Field.format)

theorem aliases_columnNames : ∀ column ∈ columnNames, aliases column = column := by
  decide

/-- A complete row needs no default. -/
theorem textsOf_rawRow (path : Text) :
    textsOf (benchmark.rawRow measured) path false =
      fun column ↦ (benchmark.columns measured column).map Field.format := by
  have haliases : (benchmark.rawRow measured).map (fun pair ↦ (aliases pair.1, pair.2))
      = (columnNames.zip (benchmark.fields measured)).map fun pair ↦ (pair.1, pair.2.format) := by
    rw [rawRow, List.zip_map_right, List.map_map]
    apply List.map_congr_left
    rintro ⟨column, field⟩ hmem
    exact congrArg (·, field.format) (aliases_columnNames column (List.of_mem_zip hmem).1)
  have hnames : (benchmark.rawRow measured).map Prod.fst = columnNames := by
    rw [rawRow, List.map_fst_zip (by rw [List.length_map, length_fields])]
  rw [textsOf, Dict.items_of_nodup (by rw [hnames]; exact columnNames_nodup), haliases,
    Dict.ofPairs_map]
  apply Dict.setdefaults_of_isSome
  intro column hcolumn
  have hnames : ∀ column ∈ (defaults path false).map Prod.fst, column ∈ columnNames := by
    simp only [defaults, List.map_cons, List.map_nil]
    decide
  obtain ⟨field, hfield⟩ := benchmark.exists_columns_eq_some measured (hnames column hcolumn)
  have hpresent : Dict.ofPairs (columnNames.zip (benchmark.fields measured)) column = some field :=
    hfield
  rw [hpresent]
  rfl

theorem textsOf_rawRow_of_eq (path : Text) {column : String} {field : Field}
    (h : benchmark.columns measured column = some field) :
    textsOf (benchmark.rawRow measured) path false column = some field.format := by
  have htexts := congrFun (benchmark.textsOf_rawRow measured path) column
  rw [htexts, h, Option.map_some]

theorem latencyFields_subset : ∀ column ∈ latencyFields, column ∈ columnNames := by
  decide

theorem integerFields_subset : ∀ column ∈ integerFields, column ∈ columnNames := by
  decide

theorem exists_latencyValue_rawRow (path : Text) {column : String} (h : column ∈ latencyFields) :
    ∃ field, benchmark.columns measured column = some field ∧
      latencyValue (textsOf (benchmark.rawRow measured) path false) column = .ok field.read := by
  obtain ⟨field, hfield⟩ :=
    benchmark.exists_columns_eq_some measured (latencyFields_subset column h)
  have hkind := (benchmark.kind_of_columns_eq_some measured hfield).2
  have htext := benchmark.textsOf_rawRow_of_eq measured path hfield
  exact ⟨field, hfield, latencyValue_eq htext (hkind.trans (kindOf_latency h))⟩

theorem exists_integerValue_rawRow (path : Text) {column : String} (h : column ∈ integerFields) :
    ∃ field, benchmark.columns measured column = some field ∧
      integerValue (textsOf (benchmark.rawRow measured) path false) column = .ok field.read := by
  obtain ⟨field, hfield⟩ :=
    benchmark.exists_columns_eq_some measured (integerFields_subset column h)
  have hkind := (benchmark.kind_of_columns_eq_some measured hfield).2
  have htext := benchmark.textsOf_rawRow_of_eq measured path hfield
  exact ⟨field, hfield, integerValue_eq h htext hkind⟩

/-- The columns that `normalize` leaves alone hold names. -/
theorem map_format_columns {column : String} (hinteger : column ∉ integerFields)
    (hlatency : column ∉ latencyFields) :
    ((benchmark.columns measured column).map Field.format).map Value.str
      = (benchmark.columns measured column).map Field.read := by
  cases hfield : benchmark.columns measured column with
  | none => rfl
  | some field =>
    have hkind := (benchmark.kind_of_columns_eq_some measured hfield).2
    rw [kindOf, if_neg hlatency, if_pos hinteger] at hkind
    rw [Option.map_some, Option.map_some, Option.map_some, Field.read_of_kind_text hkind]

/-- A complete row of the firmware is read field by field. -/
theorem normalize_rawRow (path : Text) :
    normalize (benchmark.rawRow measured) path false
      = .ok (benchmark.rowWith measured Field.read path) := by
  apply (normalize_eq_ok_iff ..).mpr
  refine ⟨fun column h ↦ ?_, fun column h ↦ ?_, ?_⟩
  · obtain ⟨field, -, hvalue⟩ := benchmark.exists_latencyValue_rawRow measured path h
    exact ⟨field.read, hvalue⟩
  · obtain ⟨field, -, hvalue⟩ := benchmark.exists_integerValue_rawRow measured path h
    exact ⟨field.read, hvalue⟩
  funext column
  rw [rowWith_apply]
  simp only [normalizedRow, Bool.false_eq_true, if_false]
  split_ifs with hsource hlegacy hinteger hlatency
  · rfl
  · rfl
  · obtain ⟨field, hfield, hvalue⟩ :=
      benchmark.exists_integerValue_rawRow measured path hinteger
    rw [hfield, hvalue]
    rfl
  · obtain ⟨field, hfield, hvalue⟩ :=
      benchmark.exists_latencyValue_rawRow measured path hlatency
    rw [hfield, hvalue]
    rfl
  · rw [textsOf_rawRow]
    exact (benchmark.map_format_columns measured hinteger hlatency).symm

/-- The two times of an attempt are kept by `int(float(...))`. -/
def TimesExact (measured : MeasuredRun) : Prop :=
  throughFloat measured.attempt.startEpochMs.toNat = measured.attempt.startEpochMs.toNat ∧
  throughFloat measured.attempt.result.tcpStartEpochMs.toNat
    = measured.attempt.result.tcpStartEpochMs.toNat

instance (measured : MeasuredRun) : Decidable (TimesExact measured) :=
  inferInstanceAs (Decidable (_ ∧ _))

theorem map_read_fields (h : TimesExact measured) :
    (benchmark.fields measured).map Field.read = (benchmark.fields measured).map Field.value := by
  have hstart : Field.read (.unsigned measured.attempt.startEpochMs)
      = Field.value (.unsigned measured.attempt.startEpochMs) := congrArg Value.int h.1
  have htcp : Field.read (.unsigned measured.attempt.result.tcpStartEpochMs)
      = Field.value (.unsigned measured.attempt.result.tcpStartEpochMs) := congrArg Value.int h.2
  simp only [fields, List.map_cons, List.map_nil, hstart, htcp, Field.read_unsigned_toUInt64]
  rfl

theorem rowWith_of_mem (read : Field → Value) (path : Text) {column : String} {field : Field}
    (hmem : (column, field) ∈ columnNames.zip (benchmark.fields measured))
    (hsource : column ≠ "source_file") (hlegacy : column ≠ "legacy_success_only") :
    benchmark.rowWith measured read path column = some (read field) := by
  rw [rowWith_apply, if_neg hsource, if_neg hlegacy, benchmark.columns_eq_some measured hmem,
    Option.map_some]

/-- A row has the run of its attempt. -/
theorem rowWith_run (read : Field → Value) (path : Text) :
    benchmark.rowWith measured read path "run"
      = some (read (.signed (Int32.ofNat measured.run))) := by
  have hmem : ("run", Field.signed (Int32.ofNat measured.run))
      ∈ columnNames.zip (benchmark.fields measured) := List.mem_of_getElem? (i := 3) rfl
  exact benchmark.rowWith_of_mem measured read path hmem (by decide) (by decide)

/-- A row that is read has the printed values exactly when the two times pass through a double
unchanged. -/
theorem rowWith_read_eq_rowOf_iff (path : Text) :
    benchmark.rowWith measured Field.read path = benchmark.rowOf measured path ↔
      TimesExact measured := by
  constructor
  · intro h
    have hstart : ("start_epoch_ms", Field.unsigned measured.attempt.startEpochMs)
        ∈ columnNames.zip (benchmark.fields measured) := List.mem_of_getElem? (i := 4) rfl
    have htcp : ("tcp_start_epoch_ms", Field.unsigned measured.attempt.result.tcpStartEpochMs)
        ∈ columnNames.zip (benchmark.fields measured) := List.mem_of_getElem? (i := 5) rfl
    have hfirst := congrFun h "start_epoch_ms"
    have hsecond := congrFun h "tcp_start_epoch_ms"
    rw [rowOf, rowWith_of_mem _ _ _ _ hstart (by decide) (by decide),
      rowWith_of_mem _ _ _ _ hstart (by decide) (by decide)] at hfirst
    rw [rowOf, rowWith_of_mem _ _ _ _ htcp (by decide) (by decide),
      rowWith_of_mem _ _ _ _ htcp (by decide) (by decide)] at hsecond
    exact ⟨Value.int.inj (Option.some.inj hfirst), Value.int.inj (Option.some.inj hsecond)⟩
  · intro h
    rw [rowOf, rowWith, rowWith, benchmark.map_read_fields measured h]

end Benchmark

end PqMqtt.Analysis
