import Mathlib.Data.List.DropRight
import PqMqtt.Foundation.Binary64
import PqMqtt.Foundation.Delimited

/-!
# The Python text functions of the analyzers

Files opened in text mode, `str.strip`, `csv.reader` of one line, and the conversions `int` and
`float`, on texts as lists of characters.  Where the versions of Python differ they are those of
Python 3.11: the reader takes a NUL like any character, and `int` has a limit on its digits.
-/

namespace PqMqtt.Analysis

open Delimited

abbrev Text := List Char

/-- The exceptions that reading a capture can raise. -/
inductive PyError where
  | valueError
  | overflowError
  | keyError
  | csvError
  | systemExit
deriving DecidableEq

/-- A computation succeeds when its parts do. -/
theorem bind_eq_ok_iff {α β : Type} {first : Except PyError α} {next : α → Except PyError β}
    {result : β} : (first >>= next) = .ok result ↔ ∃ a, first = .ok a ∧ next a = .ok result := by
  cases first <;> simp [bind, Except.bind]

/-- A computation raises what its first part raises, or what its second part raises. -/
theorem bind_eq_error_iff {α β : Type} {first : Except PyError α} {next : α → Except PyError β}
    {error : PyError} :
    (first >>= next) = .error error ↔
      first = .error error ∨ ∃ a, first = .ok a ∧ next a = .error error := by
  cases first <;> simp [bind, Except.bind]

/-- Loops whose steps agree agree. -/
theorem foldlM_congr {σ α : Type} {first second : σ → α → Except PyError σ} (items : List α)
    (initial : σ) (h : ∀ item ∈ items, ∀ state, first state item = second state item) :
    items.foldlM first initial = items.foldlM second initial := by
  induction items generalizing initial with
  | nil => rfl
  | cons item items ih =>
    rw [List.forall_mem_cons] at h
    rw [List.foldlM_cons, List.foldlM_cons, h.1 initial]
    exact congrArg _ (funext fun state ↦ ih state h.2)

/-- The results of a loop are those of its items. -/
theorem mem_mapM_iff {α β : Type} {f : α → Except PyError β} {items : List α} {results : List β}
    (h : items.mapM f = .ok results) (result : β) :
    result ∈ results ↔ ∃ item ∈ items, f item = .ok result := by
  induction items generalizing results with
  | nil =>
    obtain rfl : results = [] := by simpa [pure, Except.pure, eq_comm] using h
    simp
  | cons item items ih =>
    simp only [List.mapM_cons, bind_eq_ok_iff] at h
    obtain ⟨first, hfirst, others, hothers, hresults⟩ := h
    obtain rfl := Except.ok.inj hresults
    simp only [List.mem_cons, ih hothers, exists_eq_or_imp, hfirst, Except.ok.injEq]
    exact or_congr_left eq_comm

/-- A loop succeeds when all its items do. -/
theorem exists_mapM_eq_ok_iff {α β : Type} {f : α → Except PyError β} {items : List α} :
    (∃ results, items.mapM f = .ok results) ↔ ∀ item ∈ items, ∃ result, f item = .ok result := by
  induction items with
  | nil => exact iff_of_true ⟨[], rfl⟩ fun item hmem ↦ absurd hmem List.not_mem_nil
  | cons item items ih =>
    rw [List.forall_mem_cons, ← ih]
    simp only [List.mapM_cons, bind_eq_ok_iff]
    constructor
    · rintro ⟨results, first, hfirst, others, hothers, -⟩
      exact ⟨⟨first, hfirst⟩, ⟨others, hothers⟩⟩
    · rintro ⟨⟨first, hfirst⟩, ⟨others, hothers⟩⟩
      exact ⟨first :: others, first, hfirst, others, hothers, rfl⟩

theorem exists_of_isOk {α : Type} {result : Except PyError α} (h : result.isOk = true) :
    ∃ value, result = .ok value := by
  cases result with
  | error error => cases h
  | ok value => exact ⟨value, rfl⟩

/-! ## Lines -/

/-- Text mode reads `\r\n` and `\r` as `\n`. -/
def universalNewlines : Text → Text
  | [] => []
  | '\r' :: '\n' :: rest => '\n' :: universalNewlines rest
  | '\r' :: rest => '\n' :: universalNewlines rest
  | c :: rest => c :: universalNewlines rest

/-- The lines of a file object; every line but the last ends with its line break. -/
def readLines : Text → List Text
  | [] => []
  | c :: rest =>
    if c = '\n' then ['\n'] :: readLines rest
    else match readLines rest with
      | [] => [[c]]
      | line :: lines => (c :: line) :: lines

theorem universalNewlines_append {text : Text} (h : '\r' ∉ text) (rest : Text) :
    universalNewlines (text ++ rest) = text ++ universalNewlines rest := by
  induction text with
  | nil => rfl
  | cons c text ih =>
    rw [List.mem_cons, not_or] at h
    rw [List.cons_append, universalNewlines, ih h.2, List.cons_append]
    · intro other hc
      exact absurd hc.symm h.1
    · intro hc
      exact absurd hc.symm h.1

theorem universalNewlines_of_notMem {text : Text} (h : '\r' ∉ text) :
    universalNewlines text = text := by
  simpa [universalNewlines] using universalNewlines_append h []

theorem readLines_line_append {line : Text} (h : '\n' ∉ line) (rest : Text) :
    readLines (line ++ '\n' :: rest) = (line ++ ['\n']) :: readLines rest := by
  induction line with
  | nil => simp [readLines]
  | cons c line ih =>
    rw [List.mem_cons, not_or] at h
    rw [List.cons_append, readLines, if_neg (Ne.symm h.1), ih h.2]
    rfl

theorem readLines_of_notMem {piece : Text} (h : '\n' ∉ piece) :
    readLines piece = if piece = [] then [] else [piece] := by
  induction piece with
  | nil => rfl
  | cons c piece ih =>
    rw [List.mem_cons, not_or] at h
    rw [readLines, if_neg (Ne.symm h.1), ih h.2]
    cases piece <;> rfl

/-- A file of complete lines and a piece of a line is read as these lines and this piece. -/
theorem readLines_unlines_append {lines : List Text} (hlines : ∀ line ∈ lines, '\n' ∉ line)
    {piece : Text} (hpiece : '\n' ∉ piece) :
    readLines (unlines '\n' lines ++ piece)
      = lines.map (· ++ ['\n']) ++ if piece = [] then [] else [piece] := by
  induction lines with
  | nil => simpa using readLines_of_notMem hpiece
  | cons line lines ih =>
    rw [unlines_cons, List.append_assoc, List.cons_append,
      readLines_line_append (hlines line (List.mem_cons_self ..)),
      ih fun other hmem ↦ hlines other (List.mem_cons_of_mem line hmem)]
    rfl

/-! ## Stripping -/

/-- `str.isspace` of one character. -/
def isSpace (c : Char) : Bool :=
  decide (0x9 ≤ c.toNat ∧ c.toNat ≤ 0xd) || decide (0x1c ≤ c.toNat ∧ c.toNat ≤ 0x20) ||
  decide (0x2000 ≤ c.toNat ∧ c.toNat ≤ 0x200a) ||
  [0x85, 0xa0, 0x1680, 0x2028, 0x2029, 0x202f, 0x205f, 0x3000].contains c.toNat

/-- `str.strip` -/
def strip (text : Text) : Text := (text.dropWhile isSpace).rdropWhile isSpace

/-- Nothing is removed at the ends of a text without such characters. -/
theorem rdropWhile_dropWhile_of_forall {p : Char → Bool} {text : Text}
    (h : ∀ c ∈ text, p c = false) : (text.dropWhile p).rdropWhile p = text := by
  have hleft : text.dropWhile p = text := by
    cases text with
    | nil => rfl
    | cons c rest => exact List.dropWhile_cons_of_neg (by simp [h c (List.mem_cons_self ..)])
  rw [hleft, List.rdropWhile_eq_self_iff]
  intro hne
  simp [h _ (List.getLast_mem hne)]

theorem strip_of_forall {text : Text} (h : ∀ c ∈ text, isSpace c = false) : strip text = text :=
  rdropWhile_dropWhile_of_forall h

theorem strip_append_newline {text : Text} (h : ∀ c ∈ text, isSpace c = false) :
    strip (text ++ ['\n']) = text := by
  have hnewline : isSpace '\n' = true := by decide
  cases text with
  | nil => simp [strip, hnewline]
  | cons c rest =>
    have hleft : (c :: rest ++ ['\n']).dropWhile isSpace = c :: rest ++ ['\n'] :=
      List.dropWhile_cons_of_neg (by simp [h c (List.mem_cons_self ..)])
    have hright : (c :: rest).rdropWhile isSpace = c :: rest := by
      rw [List.rdropWhile_eq_self_iff]
      intro hne
      simp [h _ (List.getLast_mem hne)]
    unfold strip
    rw [hleft, List.rdropWhile_concat_pos _ _ _ hnewline, hright]

/-! ## The csv reader -/

def quotechar : Char := Char.ofNat 34

inductive CsvState where
  | startField
  | inField
  | inQuotedField
  | quoteInQuotedField
deriving DecidableEq

/-- The reader within a line: its state, the field read so far and the fields before it. -/
structure CsvReader where
  state : CsvState
  field : Text
  fields : List Text

/-- `csv.field_size_limit()` -/
def fieldSizeLimit : ℕ := 131072

namespace CsvReader

def start : CsvReader := ⟨.startField, [], []⟩

/-- A character more in the field, which is an error in a field that is full. -/
def addChar (reader : CsvReader) (c : Char) (state : CsvState) : Except PyError CsvReader :=
  if fieldSizeLimit ≤ reader.field.length then .error .csvError
  else .ok { reader with state := state, field := reader.field ++ [c] }

def saveField (reader : CsvReader) : CsvReader :=
  ⟨.startField, [], reader.fields ++ [reader.field]⟩

def step (reader : CsvReader) (c : Char) : Except PyError CsvReader :=
  match reader.state with
  | .startField =>
    if c = quotechar then .ok { reader with state := .inQuotedField }
    else if c = ',' then .ok reader.saveField
    else reader.addChar c .inField
  | .inField =>
    if c = ',' then .ok reader.saveField else reader.addChar c .inField
  | .inQuotedField =>
    if c = quotechar then .ok { reader with state := .quoteInQuotedField }
    else reader.addChar c .inQuotedField
  | .quoteInQuotedField =>
    if c = quotechar then reader.addChar c .inQuotedField
    else if c = ',' then .ok reader.saveField
    else reader.addChar c .inField

/-- No quoted field is open. -/
def Unquoted (reader : CsvReader) : Prop := reader.state = .startField ∨ reader.state = .inField

theorem step_char {reader : CsvReader} (h : reader.Unquoted) {c : Char} (hcomma : c ≠ ',')
    (hquote : c ≠ quotechar) : reader.step c = reader.addChar c .inField := by
  rcases h with h | h <;> simp [step, h, hcomma, hquote]

theorem step_comma {reader : CsvReader} (h : reader.Unquoted) :
    reader.step ',' = .ok reader.saveField := by
  have hquote : ',' ≠ quotechar := by decide
  rcases h with h | h <;> simp [step, h, hquote]

/-- A text without commas and quotes becomes part of the field. -/
theorem foldlM_field {text : Text} (hcomma : ',' ∉ text) (hquote : quotechar ∉ text)
    {reader : CsvReader} (h : reader.Unquoted)
    (hlength : reader.field.length + text.length ≤ fieldSizeLimit) :
    ∃ result, text.foldlM step reader = .ok result ∧ result.Unquoted ∧
      result.field = reader.field ++ text ∧ result.fields = reader.fields := by
  induction text generalizing reader with
  | nil => exact ⟨reader, rfl, h, by simp, rfl⟩
  | cons c text ih =>
    rw [List.mem_cons, not_or] at hcomma hquote
    rw [List.length_cons] at hlength
    have hroom : ¬fieldSizeLimit ≤ reader.field.length := by omega
    have hstep : reader.step c
        = .ok { reader with state := .inField, field := reader.field ++ [c] } := by
      rw [step_char h (Ne.symm hcomma.1) (Ne.symm hquote.1), addChar, if_neg hroom]
    have hunquoted : Unquoted { reader with state := .inField, field := reader.field ++ [c] } :=
      Or.inr rfl
    obtain ⟨result, hresult, hstate, hfield, hfields⟩ := ih hcomma.2 hquote.2 hunquoted
      (by simp only [List.length_append, List.length_singleton]; omega)
    refine ⟨result, ?_, hstate, by simpa using hfield, hfields⟩
    rw [List.foldlM_cons, hstep]
    exact hresult

end CsvReader

/-- `next(csv.reader([line]))` for a line without line breaks.  A quoted field that is still open
at the end of the line ends there, since no line follows. -/
def csvReader (line : Text) : Except PyError (List Text) :=
  if line = [] then .ok []
  else do
    let reader ← line.foldlM CsvReader.step CsvReader.start
    .ok reader.saveField.fields

/-- Reading separated fields that need no quotes gives the fields. -/
theorem csvReader_foldlM {fields : List Text} (hfields : fields ≠ [])
    (hcomma : ∀ field ∈ fields, ',' ∉ field) (hquote : ∀ field ∈ fields, quotechar ∉ field)
    (hlength : ∀ field ∈ fields, field.length ≤ fieldSizeLimit)
    {reader : CsvReader} (h : reader.Unquoted) (hempty : reader.field = []) :
    ∃ result, ([','].intercalate fields).foldlM CsvReader.step reader = .ok result ∧
      result.saveField.fields = reader.fields ++ fields := by
  induction fields generalizing reader with
  | nil => exact absurd rfl hfields
  | cons field fields ih =>
    rw [List.forall_mem_cons] at hcomma hquote hlength
    obtain ⟨read, hread, hstate, hfield, hbefore⟩ := CsvReader.foldlM_field hcomma.1 hquote.1 h
      (by rw [hempty, List.length_nil, zero_add]; exact hlength.1)
    rw [hempty, List.nil_append] at hfield
    rcases eq_or_ne fields [] with hlast | hmore
    · subst hlast
      rw [List.intercalate_singleton]
      exact ⟨read, hread, by simp [CsvReader.saveField, hfield, hbefore]⟩
    · have hunquoted : read.saveField.Unquoted := Or.inl rfl
      obtain ⟨result, hresult, hall⟩ := ih hmore hcomma.2 hquote.2 hlength.2 hunquoted rfl
      refine ⟨result, ?_, by rw [hall]; simp [CsvReader.saveField, hfield, hbefore]⟩
      rw [intercalate_cons ',' field hmore, List.foldlM_append, hread]
      simp only [bind, Except.bind, List.foldlM_cons, CsvReader.step_comma hstate]
      exact hresult

theorem csvReader_intercalate {fields : List Text} (hcomma : ∀ field ∈ fields, ',' ∉ field)
    (hquote : ∀ field ∈ fields, quotechar ∉ field)
    (hlength : ∀ field ∈ fields, field.length ≤ fieldSizeLimit)
    (hne : [','].intercalate fields ≠ []) :
    csvReader ([','].intercalate fields) = .ok fields := by
  have hfields : fields ≠ [] := by
    rintro rfl
    exact hne rfl
  have hunquoted : CsvReader.start.Unquoted := Or.inl rfl
  obtain ⟨result, hresult, hall⟩ := csvReader_foldlM hfields hcomma hquote hlength hunquoted rfl
  rw [csvReader, if_neg hne, hresult]
  exact congrArg Except.ok hall

/-! ## Numbers -/

/-- The zeros of the decimal digits; the digits from one to nine follow each of them. -/
def decimalZeros : List ℕ :=
  [0x30, 0x660, 0x6f0, 0x7c0, 0x966, 0x9e6, 0xa66, 0xae6, 0xb66, 0xbe6, 0xc66, 0xce6, 0xd66, 0xde6,
    0xe50, 0xed0, 0xf20, 0x1040, 0x1090, 0x17e0, 0x1810, 0x1946, 0x19d0, 0x1a80, 0x1a90, 0x1b50,
    0x1bb0, 0x1c40, 0x1c50, 0xa620, 0xa8d0, 0xa900, 0xa9d0, 0xa9f0, 0xaa50, 0xabf0, 0xff10, 0x104a0,
    0x10d30, 0x11066, 0x110f0, 0x11136, 0x111d0, 0x112f0, 0x11450, 0x114d0, 0x11650, 0x116c0,
    0x11730, 0x118e0, 0x11950, 0x11c50, 0x11d50, 0x11da0, 0x16a60, 0x16ac0, 0x16b50, 0x1d7ce,
    0x1d7d8, 0x1d7e2, 0x1d7ec, 0x1d7f6, 0x1e140, 0x1e2f0, 0x1e950, 0x1fbf0]

/-- The digits that are no decimal digits, such as superscripts, by their first and last code. -/
def otherDigits : List (ℕ × ℕ) :=
  [(0xb2, 0xb3), (0xb9, 0xb9), (0x1369, 0x1371), (0x19da, 0x19da), (0x2070, 0x2070),
    (0x2074, 0x2079), (0x2080, 0x2089), (0x2460, 0x2468), (0x2474, 0x247c), (0x2488, 0x2490),
    (0x24ea, 0x24ea), (0x24f5, 0x24fd), (0x24ff, 0x24ff), (0x2776, 0x277e), (0x2780, 0x2788),
    (0x278a, 0x2792), (0x10a40, 0x10a43), (0x10e60, 0x10e68), (0x11052, 0x1105a),
    (0x1f100, 0x1f10a)]

/-- The value of a decimal digit. -/
def decimal (c : Char) : Option ℕ :=
  (decimalZeros.find? fun first ↦ decide (first ≤ c.toNat ∧ c.toNat ≤ first + 9)).map (c.toNat - ·)

/-- A character of a number with the digits and spaces of other scripts as those of ASCII. -/
def asciiNumeral (c : Char) : Char :=
  if c.toNat < 127 then c
  else if isSpace c then ' '
  else match decimal c with
    | some value => value.digitChar
    | none => c

/-- The spaces that may surround a number. -/
def isAsciiSpace (c : Char) : Bool := decide (0x9 ≤ c.toNat ∧ c.toNat ≤ 0xd ∨ c.toNat = 0x20)

/-- What `int` and `float` convert. -/
def numberText (text : Text) : Text :=
  ((text.map asciiNumeral).dropWhile isAsciiSpace).rdropWhile isAsciiSpace

theorem numberText_of_forall {text : Text}
    (h : ∀ c ∈ text, asciiNumeral c = c ∧ isAsciiSpace c = false) : numberText text = text := by
  have hmap : text.map asciiNumeral = text :=
    (List.map_congr_left fun c hc ↦ (h c hc).1).trans (List.map_id _)
  rw [numberText, hmap]
  exact rdropWhile_dropWhile_of_forall fun c hc ↦ (h c hc).2

/-- A nonempty run of digits in which single underscores may separate digits; the digits. -/
def digitPart : Text → Option Text
  | [] => none
  | [c] => if c.isDigit then some [c] else none
  | c :: '_' :: rest => if c.isDigit then (digitPart rest).map (c :: ·) else none
  | c :: rest => if c.isDigit then (digitPart rest).map (c :: ·) else none

/-- The sign of a number and what follows it. -/
def splitSign : Text → Bool × Text
  | '-' :: rest => (true, rest)
  | '+' :: rest => (false, rest)
  | text => (false, text)

def negateIf (negative : Bool) (q : ℚ) : ℚ := if negative then -q else q

def integerLiteral (text : Text) : Option ℤ :=
  (digitPart (splitSign text).2).map fun digits ↦
    if (splitSign text).1 then -(Nat.ofDigitChars 10 digits 0 : ℤ)
    else Nat.ofDigitChars 10 digits 0

/-- `sys.int_info.default_max_str_digits` -/
def maxStrDigits : ℕ := 4300

/-- `int(text)` -/
def pyInt (text : Text) : Except PyError ℤ :=
  match integerLiteral (numberText text) with
  | some n =>
    if maxStrDigits < (numberText text).countP Char.isDigit then .error .valueError else .ok n
  | none => .error .valueError

def optionalDigits (text : Text) : Option Text := if text = [] then some [] else digitPart text

/-- A decimal number without sign, in lower case. -/
def decimalLiteral (text : Text) : Option ℚ := do
  let (mantissa, exponentPart) := text.span (· ≠ 'e')
  let exponent ← match exponentPart with
    | [] => some 0
    | _ :: exponent => integerLiteral exponent
  let (wholePart, fractionPart) := mantissa.span (· ≠ '.')
  let whole ← optionalDigits wholePart
  let fraction ← optionalDigits fractionPart.tail
  if whole ++ fraction = [] then none
  else some (Nat.ofDigitChars 10 (whole ++ fraction) 0 * 10 ^ (exponent - fraction.length))

/-- `float(text)` -/
def pyFloat (text : Text) : Except PyError Binary64.Double :=
  let (negative, body) := splitSign ((numberText text).map Char.toLower)
  if body = "inf".toList ∨ body = "infinity".toList then .ok (.inf negative)
  else if body = "nan".toList then .ok .nan
  else match decimalLiteral body with
    | some q => .ok (Binary64.ofRat (negateIf negative q))
    | none => .error .valueError

/-- `int(x)` of a float. -/
def intOfFloat : Binary64.Double → Except PyError ℤ
  | .nan => .error .valueError
  | .inf _ => .error .overflowError
  | .fin q => .ok (if 0 ≤ q then ⌊q⌋ else ⌈q⌉)

/-- `str.isdigit` of one character. -/
def isDigitChar (c : Char) : Bool :=
  (decimal c).isSome ||
    otherDigits.any fun range ↦ decide (range.1 ≤ c.toNat ∧ c.toNat ≤ range.2)

/-- `str.isdigit` -/
def isDigits (text : Text) : Bool := !text.isEmpty && text.all isDigitChar

end PqMqtt.Analysis
