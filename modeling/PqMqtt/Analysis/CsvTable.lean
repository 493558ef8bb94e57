import PqMqtt.Analysis.HsCsv
import PqMqtt.Analysis.PrimitiveRows

/-!
# Tables on disk

The analyzers write their tables with `csv.DictWriter` and read each other's tables with
`csv.DictReader`, both on files opened with `newline=""`.  A value may hold any character: the
writer puts commas, quotes and line breaks in quotes, and the reader keeps the line breaks of a
quoted value although the file comes to it line by line.  What one program writes the other reads.
-/

namespace PqMqtt.Analysis

open Delimited

/-! ## csv.DictWriter -/

/-- The characters that a value is put in quotes for. -/
def needsQuotes (c : Char) : Bool := c = ',' || c = quotechar || c = '\r' || c = '\n'

/-- A character within quotes. -/
def quotedChar (c : Char) : Text := if c = quotechar then [quotechar, quotechar] else [c]

/-- One value of a record. -/
def writeField (field : Text) : Text :=
  if field.any needsQuotes then quotechar :: field.flatMap quotedChar ++ [quotechar] else field

/-- `writer.writerow(record)` of `csv.writer`; a single empty value is put in quotes. -/
def writeRecord (record : List Text) : Text :=
  let text := [','].intercalate (record.map writeField)
  (if record ≠ [] ∧ text = [] then [quotechar, quotechar] else text) ++ ['\r', '\n']

/-- `writer.writerow(row)` of `csv.DictWriter` -/
def writeRow (fieldnames : List String) (row : TableRow) : Except PyError Text :=
  if row.all fun item ↦ item.1 ∈ fieldnames then
    .ok (writeRecord (fieldnames.map fun name ↦ (row.lookup name).getD []))
  else .error .valueError

/-- The file after `writer.writeheader()` and `writer.writerows(rows)`. -/
def writeTable (fieldnames : List String) (rows : List TableRow) : Except PyError Text := do
  let lines ← rows.mapM (writeRow fieldnames)
  .ok (writeRecord (fieldnames.map String.toList) ++ lines.flatten)

/-! ## csv.DictReader -/

/-- A line break ends a record unless it is in quotes. -/
def isNewline (c : Char) : Bool := c = '\r' || c = '\n'

/-- The lines of a file opened with `newline=""`, with their ends. -/
def fileLines : Text → List Text
  | [] => []
  | '\r' :: '\n' :: rest => ['\r', '\n'] :: fileLines rest
  | c :: rest =>
    if isNewline c then [c] :: fileLines rest
    else match fileLines rest with
      | [] => [[c]]
      | line :: lines => (c :: line) :: lines

/-- The reader within a record: before its first character, among its values, or behind the line
break that ended it. -/
inductive RecordState where
  | startRecord
  | within (reader : CsvReader)
  | eatNewline (record : List Text)

/-- One character of a line. -/
def RecordState.step : RecordState → Char → Except PyError RecordState
  | .startRecord, c =>
    if isNewline c then .ok (.eatNewline [])
    else do
      let reader ← CsvReader.start.step c
      .ok (.within reader)
  | .within reader, c =>
    if isNewline c ∧ reader.state ≠ .inQuotedField then .ok (.eatNewline reader.saveField.fields)
    else do
      let reader ← reader.step c
      .ok (.within reader)
  | .eatNewline record, c =>
    if isNewline c then .ok (.eatNewline record) else .error .csvError

/-- The records of a file.  A record ends with its line, but not within quotes; a record that is
open at the end of the file ends there. -/
def readLinesFrom (state : RecordState) : List Text → Except PyError (List (List Text))
  | [] =>
    match state with
    | .within reader => .ok [reader.saveField.fields]
    | _ => .ok []
  | line :: lines => do
    let state ← line.foldlM RecordState.step state
    match state with
    | .within reader =>
      if reader.state = .inQuotedField then readLinesFrom (.within reader) lines
      else do
        let records ← readLinesFrom .startRecord lines
        .ok (reader.saveField.fields :: records)
    | .eatNewline record => do
      let records ← readLinesFrom .startRecord lines
      .ok (record :: records)
    | .startRecord => readLinesFrom .startRecord lines

/-- `list(csv.reader(handle))` -/
def readRecords (text : Text) : Except PyError (List (List Text)) :=
  readLinesFrom .startRecord (fileLines text)

/-- The dictionary of a record; a value that the record does not reach is `None`, and values
behind the last field name are not looked up. -/
def dictRow (fieldnames : List String) (record : List Text) : Dict (Option Text) :=
  let missing := List.replicate (fieldnames.length - record.length) none
  Dict.ofPairs (fieldnames.zip (record.map some ++ missing))

/-- `list(csv.DictReader(handle))` -/
def dictReader (text : Text) : Except PyError (List (Dict (Option Text))) := do
  let records ← readRecords text
  match records with
  | [] => .ok []
  | header :: records =>
    .ok ((records.filter (· ≠ [])).map (dictRow (header.map String.ofList)))

/-! ## The reader on a text -/

/-- The records that a reader finds in the rest of a file. -/
def readFrom (state : RecordState) (text : Text) : Except PyError (List (List Text)) :=
  readLinesFrom state (fileLines text)

theorem isNewline_cases {c : Char} (h : isNewline c = true) : c = '\r' ∨ c = '\n' := by
  simpa [isNewline] using h

theorem fileLines_cons_of_not_newline {c : Char} (h : isNewline c = false) (rest : Text) :
    fileLines (c :: rest) =
      match fileLines rest with
      | [] => [[c]]
      | line :: lines => (c :: line) :: lines := by
  have hreturn : c ≠ '\r' := by
    rintro rfl
    cases h
  rw [fileLines, if_neg (by simp [h])]
  intro other hc
  exact absurd hc hreturn

theorem fileLines_newline (rest : Text) : fileLines ('\n' :: rest) = ['\n'] :: fileLines rest := by
  have hnewline : isNewline '\n' = true := rfl
  rw [fileLines, if_pos hnewline]
  intro other hc
  exact absurd hc (by decide)

theorem fileLines_return {rest : Text} (h : ∀ other, rest ≠ '\n' :: other) :
    fileLines ('\r' :: rest) = ['\r'] :: fileLines rest := by
  have hnewline : isNewline '\r' = true := rfl
  rw [fileLines, if_pos hnewline]
  intro other _ hrest
  exact h other hrest

theorem fileLines_ne_nil {text : Text} (h : text ≠ []) : fileLines text ≠ [] := by
  fun_cases fileLines text <;> simp_all

/-- A character that breaks no line is read on its own. -/
theorem readFrom_cons {c : Char} (hc : isNewline c = false) {rest : Text} (hrest : rest ≠ [])
    (state : RecordState) :
    readFrom state (c :: rest) = state.step c >>= fun state ↦ readFrom state rest := by
  obtain ⟨line, lines, hlines⟩ := List.exists_cons_of_ne_nil (fileLines_ne_nil hrest)
  unfold readFrom
  rw [fileLines_cons_of_not_newline hc, hlines]
  dsimp only
  rw [readLinesFrom, List.foldlM_cons, bind_assoc]
  rfl

theorem step_quoted {reader : CsvReader} (h : reader.state = .inQuotedField) {c : Char}
    (hc : c ≠ quotechar) : reader.step c = reader.addChar c .inQuotedField := by
  simp [CsvReader.step, h, hc]

theorem state_addChar {reader result : CsvReader} {c : Char} {state : CsvState}
    (h : reader.addChar c state = .ok result) : result.state = state := by
  unfold CsvReader.addChar at h
  split at h
  · cases h
  · rw [← Except.ok.inj h]

theorem recordStep_quoted {reader : CsvReader} (h : reader.state = .inQuotedField) (c : Char) :
    (RecordState.within reader).step c = reader.step c >>= fun reader ↦ .ok (.within reader) :=
  if_neg fun hnot ↦ hnot.2 h

theorem recordStep_plain (reader : CsvReader) {c : Char} (h : isNewline c = false) :
    (RecordState.within reader).step c = reader.step c >>= fun reader ↦ .ok (.within reader) :=
  if_neg fun hnot ↦ Bool.false_ne_true (h.symm.trans hnot.1)

/-- A line that ends within quotes goes on in the next line. -/
theorem readLinesFrom_quoted {reader : CsvReader} (h : reader.state = .inQuotedField) {c : Char}
    (hc : c ≠ quotechar) (lines : List Text) :
    readLinesFrom (.within reader) ([c] :: lines) =
      reader.addChar c .inQuotedField >>= fun reader ↦ readLinesFrom (.within reader) lines := by
  rw [readLinesFrom, List.foldlM_cons, recordStep_quoted h, step_quoted h hc]
  cases hadd : reader.addChar c .inQuotedField with
  | error error => rfl
  | ok result =>
    change (if result.state = .inQuotedField then _ else _) = _
    rw [if_pos (state_addChar hadd)]
    rfl

/-- A line break within quotes is a character of the value. -/
theorem readFrom_newline_quoted {reader : CsvReader} (h : reader.state = .inQuotedField) {c : Char}
    (hc : isNewline c = true) (rest : Text) :
    readFrom (.within reader) (c :: rest) =
      reader.addChar c .inQuotedField >>= fun reader ↦ readFrom (.within reader) rest := by
  unfold readFrom
  rcases isNewline_cases hc with rfl | rfl
  · by_cases hreturn : ∃ other, rest = '\n' :: other
    · obtain ⟨other, rfl⟩ := hreturn
      rw [fileLines_newline]
      change readLinesFrom _ (['\r', '\n'] :: fileLines other) = _
      rw [readLinesFrom, List.foldlM_cons, recordStep_quoted h, step_quoted h (by decide)]
      cases hadd : reader.addChar '\r' .inQuotedField with
      | error error => rfl
      | ok result =>
        change _ = readLinesFrom (.within result) (['\n'] :: fileLines other)
        rw [readLinesFrom]
        rfl
    · rw [fileLines_return fun other hrest ↦ hreturn ⟨other, hrest⟩]
      exact readLinesFrom_quoted h (by decide) _
  · rw [fileLines_newline]
    exact readLinesFrom_quoted h (by decide) _

/-- The end of a line ends the record outside quotes. -/
theorem readFrom_end {reader : CsvReader} (h : reader.state ≠ .inQuotedField) (rest : Text) :
    readFrom (.within reader) ('\r' :: '\n' :: rest) =
      readFrom .startRecord rest >>= fun records ↦ .ok (reader.saveField.fields :: records) := by
  unfold readFrom
  change readLinesFrom _ (['\r', '\n'] :: fileLines rest) = _
  rw [readLinesFrom, List.foldlM_cons]
  have hstep : (RecordState.within reader).step '\r' = .ok (.eatNewline reader.saveField.fields) :=
    if_pos ⟨rfl, h⟩
  rw [hstep]
  rfl

/-! ## Reading what was written -/

/-- The end of a value: the value is complete, and a comma or the end of the line follows. -/
structure FieldRead (before : List Text) (field : Text) (reader : CsvReader) : Prop where
  state : reader.state ≠ .inQuotedField
  comma : reader.step ',' = .ok reader.saveField
  field : reader.field = field
  fields : reader.fields = before

/-- A text without line breaks is read like a line. -/
theorem readFrom_append {text : Text} (h : ∀ c ∈ text, isNewline c = false) {rest : Text}
    (hrest : rest ≠ []) (reader : CsvReader) :
    readFrom (.within reader) (text ++ rest) =
      text.foldlM CsvReader.step reader >>= fun reader ↦ readFrom (.within reader) rest := by
  induction text generalizing reader with
  | nil => rfl
  | cons c text ih =>
    rw [List.forall_mem_cons] at h
    rw [List.cons_append, readFrom_cons h.1 (by simp [hrest]), recordStep_plain reader h.1,
      List.foldlM_cons]
    cases reader.step c with
    | error error => rfl
    | ok result => exact ih h.2 result

theorem addChar_of_lt {reader : CsvReader} (h : reader.field.length < fieldSizeLimit) (c : Char)
    (state : CsvState) :
    reader.addChar c state = .ok { reader with state := state, field := reader.field ++ [c] } :=
  if_neg (Nat.not_le.mpr h)

/-- The characters of a value within its quotes. -/
theorem readFrom_quoted {field : Text} {reader : CsvReader} (h : reader.state = .inQuotedField)
    (hlength : reader.field.length + field.length ≤ fieldSizeLimit) {rest : Text}
    (hrest : rest ≠ []) :
    readFrom (.within reader) (field.flatMap quotedChar ++ rest) =
      readFrom (.within ⟨.inQuotedField, reader.field ++ field, reader.fields⟩) rest := by
  induction field generalizing reader with
  | nil =>
    obtain ⟨state, read, before⟩ := reader
    obtain rfl : state = .inQuotedField := h
    rw [List.append_nil]
    rfl
  | cons c field ih =>
    rw [List.length_cons] at hlength
    have hadd : reader.addChar c .inQuotedField =
        .ok ⟨.inQuotedField, reader.field ++ [c], reader.fields⟩ :=
      addChar_of_lt (by omega) c .inQuotedField
    have hnext : readFrom (.within ⟨.inQuotedField, reader.field ++ [c], reader.fields⟩)
        (field.flatMap quotedChar ++ rest) =
          readFrom (.within ⟨.inQuotedField, reader.field ++ c :: field, reader.fields⟩) rest := by
      rw [ih rfl (by simp only [List.length_append, List.length_singleton]; omega)]
      simp
    rw [List.flatMap_cons, List.append_assoc]
    have hmore : field.flatMap quotedChar ++ rest ≠ [] := by simp [hrest]
    by_cases hquote : c = quotechar
    · -- the first of two quotes leaves the quoted value, the second returns to it
      have hplain : isNewline quotechar = false := rfl
      have hfirst : reader.step quotechar = .ok { reader with state := .quoteInQuotedField } := by
        simp [CsvReader.step, h]
      subst hquote
      rw [quotedChar, if_pos rfl, List.cons_append, List.singleton_append,
        readFrom_cons hplain (List.cons_ne_nil _ _), recordStep_quoted h, hfirst]
      change readFrom (.within { reader with state := .quoteInQuotedField }) _ = _
      rw [readFrom_cons hplain hmore]
      change ((reader.addChar quotechar .inQuotedField >>= fun reader ↦ .ok (.within reader)) >>=
        fun state ↦ readFrom state _) = _
      rw [hadd]
      exact hnext
    · rw [quotedChar, if_neg hquote, List.singleton_append]
      by_cases hnewline : isNewline c = true
      · rw [readFrom_newline_quoted h hnewline, hadd]
        exact hnext
      · rw [readFrom_cons (Bool.eq_false_of_not_eq_true hnewline) hmore, recordStep_quoted h,
          step_quoted h hquote, hadd]
        exact hnext

theorem newline_needsQuotes {c : Char} (h : needsQuotes c = false) :
    c ≠ ',' ∧ c ≠ quotechar ∧ isNewline c = false := by
  simpa [needsQuotes, isNewline, and_assoc] using h

/-- A written value is read back, whatever its characters. -/
theorem readFrom_writeField {field : Text} (hlength : field.length ≤ fieldSizeLimit)
    (before : List Text) {rest : Text} (hrest : rest ≠ []) :
    ∃ reader, FieldRead before field reader ∧
      readFrom (.within ⟨.startField, [], before⟩) (writeField field ++ rest) =
        readFrom (.within reader) rest := by
  unfold writeField
  by_cases hquotes : field.any needsQuotes = true
  · rw [if_pos hquotes]
    refine ⟨⟨.quoteInQuotedField, field, before⟩, ⟨CsvState.noConfusion, ?_, rfl, rfl⟩, ?_⟩
    · rfl
    have hplain : isNewline quotechar = false := rfl
    rw [List.append_assoc, List.cons_append, readFrom_cons hplain (by simp)]
    change readFrom (.within ⟨.inQuotedField, [], before⟩) _ = _
    rw [readFrom_quoted rfl (by simpa using hlength) (by simp), List.singleton_append,
      readFrom_cons hplain hrest]
    rfl
  · have hplain : ∀ c ∈ field, c ≠ ',' ∧ c ≠ quotechar ∧ isNewline c = false := by
      intro c hc
      apply newline_needsQuotes
      rw [← Bool.not_eq_true]
      exact fun h ↦ hquotes (List.any_eq_true.mpr ⟨c, hc, h⟩)
    have hunquoted : CsvReader.Unquoted ⟨.startField, [], before⟩ := Or.inl rfl
    obtain ⟨reader, hread, hstate, hfield, hfields⟩ := CsvReader.foldlM_field
      (fun h ↦ (hplain _ h).1 rfl) (fun h ↦ (hplain _ h).2.1 rfl) hunquoted
      (by simpa using hlength)
    rw [if_neg hquotes, readFrom_append (fun c hc ↦ (hplain c hc).2.2) hrest, hread]
    refine ⟨reader, ⟨?_, CsvReader.step_comma hstate, by simpa using hfield, hfields⟩, rfl⟩
    intro hquoted
    rcases hstate with h | h
    · exact CsvState.noConfusion (h.symm.trans hquoted)
    · exact CsvState.noConfusion (h.symm.trans hquoted)

/-- The values of a record are read back one after the other, to the end of the line. -/
theorem readFrom_fields {record : List Text} (hrecord : record ≠ [])
    (hlength : ∀ field ∈ record, field.length ≤ fieldSizeLimit) (before : List Text)
    (rest : Text) :
    readFrom (.within ⟨.startField, [], before⟩)
        ([','].intercalate (record.map writeField) ++ '\r' :: '\n' :: rest) =
      readFrom .startRecord rest >>= fun records ↦ .ok ((before ++ record) :: records) := by
  induction record generalizing before with
  | nil => exact absurd rfl hrecord
  | cons field record ih =>
    rw [List.forall_mem_cons] at hlength
    rcases eq_or_ne record [] with rfl | hmore
    · obtain ⟨reader, hread, hfrom⟩ := readFrom_writeField hlength.1 before
        (List.cons_ne_nil '\r' ('\n' :: rest))
      rw [List.map_cons, List.map_nil, List.intercalate_singleton, hfrom, readFrom_end hread.state]
      simp [CsvReader.saveField, hread.field, hread.fields]
    · have hcomma : isNewline ',' = false := rfl
      obtain ⟨reader, hread, hfrom⟩ := readFrom_writeField hlength.1 before
        (List.cons_ne_nil ',' ([','].intercalate (record.map writeField) ++ '\r' :: '\n' :: rest))
      have hsave : reader.saveField = ⟨.startField, [], before ++ [field]⟩ := by
        rw [CsvReader.saveField, hread.field, hread.fields]
      rw [List.map_cons, intercalate_cons ',' _ (by simp [hmore]), List.append_assoc,
        List.cons_append, hfrom, readFrom_cons hcomma (by simp), recordStep_plain reader hcomma,
        hread.comma, hsave]
      change readFrom (.within ⟨.startField, [], before ++ [field]⟩) _ = _
      rw [ih hmore hlength.2, List.append_assoc, List.singleton_append]

/-- A record whose first character breaks no line starts as a value. -/
theorem readFrom_start {c : Char} (hc : isNewline c = false) {rest : Text} (hrest : rest ≠ []) :
    readFrom .startRecord (c :: rest) = readFrom (.within CsvReader.start) (c :: rest) := by
  have hfirst : RecordState.startRecord.step c =
      CsvReader.start.step c >>= fun reader ↦ .ok (.within reader) :=
    if_neg (by simp [hc])
  rw [readFrom_cons hc hrest, readFrom_cons hc hrest, hfirst, recordStep_plain _ hc]

/-- The first character of separated values breaks no line. -/
theorem head_intercalate_writeField {record : List Text} {c : Char} {text : Text}
    (h : [','].intercalate (record.map writeField) = c :: text) : isNewline c = false := by
  cases record with
  | nil => cases h
  | cons field record =>
    have hhead : ∀ rest, writeField field ++ rest = c :: text →
        isNewline c = false ∨ rest = c :: text := by
      intro rest hrest
      unfold writeField at hrest
      split at hrest
      · left
        rw [List.append_assoc, List.cons_append] at hrest
        rw [← (List.cons.inj hrest).1]
        rfl
      · rename_i hquotes
        cases field with
        | nil => exact Or.inr hrest
        | cons first others =>
          left
          have hfirst : needsQuotes first = false := by
            rw [← Bool.not_eq_true]
            exact fun hneeds ↦ hquotes (List.any_eq_true.mpr ⟨first, List.mem_cons_self .., hneeds⟩)
          rw [← (List.cons.inj hrest).1]
          exact (newline_needsQuotes hfirst).2.2
    rcases eq_or_ne record [] with rfl | hmore
    · rw [List.map_cons, List.map_nil, List.intercalate_singleton] at h
      rcases hhead [] (by rw [List.append_nil, h]) with hc | hnil
      · exact hc
      · exact absurd hnil (List.cons_ne_nil _ _).symm
    · rw [List.map_cons, intercalate_cons ',' _ (by simp [hmore])] at h
      rcases hhead _ h with hc | hcomma
      · exact hc
      · rw [← (List.cons.inj hcomma).1]
        rfl

/-- A written record is read back, and the reader goes on behind it. -/
theorem readFrom_writeRecord {record : List Text} (hrecord : record ≠ [])
    (hlength : ∀ field ∈ record, field.length ≤ fieldSizeLimit) (rest : Text) :
    readFrom .startRecord (writeRecord record ++ rest) =
      readFrom .startRecord rest >>= fun records ↦ .ok (record :: records) := by
  have hfields := readFrom_fields hrecord hlength [] rest
  have htext : writeRecord record ++ rest =
      (if [','].intercalate (record.map writeField) = [] then [quotechar, quotechar]
        else [','].intercalate (record.map writeField)) ++ '\r' :: '\n' :: rest := by
    simp [writeRecord, hrecord]
  rw [htext]
  cases hline : [','].intercalate (record.map writeField) with
  | nil =>
    -- only a single empty value is written as nothing, and the quotes make it a value
    have hquoted : readFrom .startRecord ([quotechar, quotechar] ++ '\r' :: '\n' :: rest) =
        readFrom (.within CsvReader.start) ('\r' :: '\n' :: rest) := by
      have hplain : isNewline quotechar = false := rfl
      rw [List.cons_append, readFrom_start hplain (by simp),
        readFrom_cons hplain (by simp)]
      change readFrom (.within ⟨.inQuotedField, [], []⟩) (quotechar :: _) = _
      rw [readFrom_cons hplain (by simp)]
      change readFrom (.within ⟨.quoteInQuotedField, [], []⟩) _ = _
      rw [List.append_eq, List.nil_append, readFrom_end CsvState.noConfusion]
      have hstart : CsvReader.start.state ≠ .inQuotedField := CsvState.noConfusion
      exact (readFrom_end hstart rest).symm
    rw [if_pos rfl, hquoted]
    rw [hline] at hfields
    exact hfields
  | cons c text =>
    rw [if_neg (List.cons_ne_nil _ _), List.cons_append,
      readFrom_start (head_intercalate_writeField hline) (by simp), ← List.cons_append, ← hline]
    exact hfields

/-- Written records are read back. -/
theorem readRecords_writeRecord {records : List (List Text)}
    (hrecords : ∀ record ∈ records, record ≠ [] ∧
      ∀ field ∈ record, field.length ≤ fieldSizeLimit) :
    readRecords (records.flatMap writeRecord) = .ok records := by
  change readFrom .startRecord (records.flatMap writeRecord) = .ok records
  induction records with
  | nil => rfl
  | cons record records ih =>
    rw [List.forall_mem_cons] at hrecords
    rw [List.flatMap_cons, readFrom_writeRecord hrecords.1.1 hrecords.1.2, ih hrecords.2]
    rfl

example : readRecords ("a,\"b\r\n,\"\"\",\r\n\r\nc\r\n".toList) =
    .ok [["a".toList, "b\r\n,\"".toList, []], [], ["c".toList]] := by decide

/-! ## Tables -/

/-- The dictionary of a row of a table with these columns. -/
def cells (fieldnames : List String) (row : TableRow) : Dict (Option Text) :=
  fun name ↦ if name ∈ fieldnames then some (some ((row.lookup name).getD [])) else none

/-- With its own columns a row is read as it is. -/
theorem cells_map_fst (row : TableRow) :
    cells (row.map Prod.fst) row = fun name ↦ (row.lookup name).map some := by
  funext name
  unfold cells
  cases hvalue : row.lookup name with
  | none =>
    rw [if_neg]
    · rfl
    intro hname
    obtain ⟨item, hitem, rfl⟩ := List.mem_map.mp hname
    have hnot := List.lookup_eq_none_iff.mp hvalue item hitem
    rw [bne_self_eq_false] at hnot
    cases hnot
  | some value =>
    obtain ⟨first, later, hrow, -⟩ := List.lookup_eq_some_iff.mp hvalue
    rw [if_pos]
    · rfl
    rw [hrow]
    simp

/-- Neither the names nor the values are longer than the reader takes. -/
structure FitsReader (fieldnames : List String) (rows : List TableRow) : Prop where
  names : ∀ name ∈ fieldnames, name.toList.length ≤ fieldSizeLimit
  values : ∀ row ∈ rows, ∀ item ∈ row, item.2.length ≤ fieldSizeLimit

theorem dictRow_map {fieldnames : List String} (hnodup : fieldnames.Nodup) (value : String → Text) :
    dictRow fieldnames (fieldnames.map value) =
      fun name ↦ if name ∈ fieldnames then some (some (value name)) else none := by
  have hpairs : fieldnames.zip ((fieldnames.map value).map some ++
      List.replicate (fieldnames.length - (fieldnames.map value).length) none) =
        fieldnames.map fun name ↦ (name, some (value name)) := by
    rw [List.length_map, Nat.sub_self, List.replicate_zero, List.append_nil, List.map_map]
    have hzip := List.zip_map' (f := id) (g := some ∘ value) (l := fieldnames)
    rwa [List.map_id] at hzip
  have hkeys : (fieldnames.map fun name ↦ (name, some (value name))).map Prod.fst = fieldnames := by
    rw [List.map_map]
    exact List.map_id _
  funext name
  unfold dictRow
  rw [hpairs]
  split
  · rename_i hname
    apply Dict.ofPairs_eq_some (by rwa [hkeys])
    exact List.mem_map.mpr ⟨name, hname, rfl⟩
  · rename_i hname
    apply Dict.ofPairs_eq_none
    intro pair hpair
    obtain ⟨other, hother, rfl⟩ := List.mem_map.mp hpair
    exact fun h ↦ hname (h ▸ hother)

theorem length_lookup_le {row : TableRow} (h : ∀ item ∈ row, item.2.length ≤ fieldSizeLimit)
    (name : String) : ((row.lookup name).getD []).length ≤ fieldSizeLimit := by
  cases hvalue : row.lookup name with
  | none => exact Nat.zero_le _
  | some value =>
    obtain ⟨first, later, rfl, -⟩ := List.lookup_eq_some_iff.mp hvalue
    exact h (name, value) (by simp)

theorem writeRow_eq (fieldnames : List String) (row : TableRow) :
    writeRow fieldnames row =
      if ∀ item ∈ row, item.1 ∈ fieldnames then
        .ok (writeRecord (fieldnames.map fun name ↦ (row.lookup name).getD []))
      else .error .valueError := by
  unfold writeRow
  simp only [List.all_eq_true, decide_eq_true_iff]

theorem mapM_writeRow (fieldnames : List String) (rows : List TableRow) :
    rows.mapM (writeRow fieldnames) =
      if ∀ row ∈ rows, ∀ item ∈ row, item.1 ∈ fieldnames then
        .ok (rows.map fun row ↦ writeRecord (fieldnames.map fun name ↦ (row.lookup name).getD []))
      else .error .valueError := by
  induction rows with
  | nil => rfl
  | cons row rows ih =>
    rw [List.mapM_cons, writeRow_eq, ih]
    simp only [List.forall_mem_cons]
    by_cases hrow : ∀ item ∈ row, item.1 ∈ fieldnames
    · rw [if_pos hrow]
      by_cases hrows : ∀ row ∈ rows, ∀ item ∈ row, item.1 ∈ fieldnames
      · rw [if_pos hrows, if_pos ⟨hrow, hrows⟩]
        rfl
      · rw [if_neg hrows, if_neg fun h ↦ hrows h.2]
        rfl
    · have hnot : ¬((∀ item ∈ row, item.1 ∈ fieldnames) ∧
          ∀ row ∈ rows, ∀ item ∈ row, item.1 ∈ fieldnames) := fun h ↦ hrow h.1
      rw [if_neg hrow, if_neg hnot]
      rfl

/-- A written table is read back row by row, whatever characters its values have. -/
theorem dictReader_writeTable {fieldnames : List String} (hne : fieldnames ≠ [])
    (hnodup : fieldnames.Nodup) {rows : List TableRow} (hfits : FitsReader fieldnames rows)
    {text : Text} (h : writeTable fieldnames rows = .ok text) :
    dictReader text = .ok (rows.map (cells fieldnames)) := by
  unfold writeTable at h
  rw [mapM_writeRow] at h
  split at h
  swap
  · cases h
  let record (row : TableRow) : List Text := fieldnames.map fun name ↦ (row.lookup name).getD []
  have htext : text = (fieldnames.map String.toList :: rows.map record).flatMap writeRecord := by
    rw [← Except.ok.inj h, List.flatMap_cons, List.flatMap_map, List.flatMap_def]
  have hrecords : ∀ values ∈ fieldnames.map String.toList :: rows.map record, values ≠ [] ∧
      ∀ field ∈ values, field.length ≤ fieldSizeLimit := by
    rw [List.forall_mem_cons]
    constructor
    · exact ⟨by simpa using hne, List.forall_mem_map.mpr hfits.names⟩
    · intro values hvalues
      obtain ⟨row, hrow, rfl⟩ := List.mem_map.mp hvalues
      exact ⟨by simpa [record] using hne, List.forall_mem_map.mpr fun name _ ↦
        length_lookup_le (hfits.values row hrow) name⟩
  have hfilter : (rows.map record).filter (· ≠ []) = rows.map record := by
    apply List.filter_eq_self.mpr
    intro values hvalues
    exact decide_eq_true (hrecords values (List.mem_cons_of_mem _ hvalues)).1
  have hheader : (fieldnames.map String.toList).map String.ofList = fieldnames := by
    rw [List.map_map]
    exact (List.map_congr_left fun name _ ↦ String.ofList_toList).trans (List.map_id _)
  unfold dictReader
  rw [htext, readRecords_writeRecord hrecords]
  change Except.ok _ = _
  rw [hfilter, hheader, List.map_map]
  congr 1
  apply List.map_congr_left
  intro row _
  exact dictRow_map hnodup _

/-! ## write_csv -/

/-- `write_csv`: the text of the file, if one is written. -/
def writeCsv : List TableRow → Except PyError (Option Text)
  | [] => .ok none
  | first :: rows => do
    let text ← writeTable (first.map Prod.fst) (first :: rows)
    .ok (some text)

/-- The columns are those of the first row: a later row with another column stops the writer, and
otherwise every row is read back, with an empty value where it lacks a column. -/
theorem written_rows_are_read_back {first : TableRow} (hfirst : first ≠ [])
    (hkeys : (first.map Prod.fst).Nodup) (rows : List TableRow)
    (hfits : FitsReader (first.map Prod.fst) (first :: rows)) :
    ((writeCsv (first :: rows)).isOk = true ↔
      ∀ row ∈ rows, ∀ item ∈ row, item.1 ∈ first.map Prod.fst) ∧
    ∀ text, writeCsv (first :: rows) = .ok (some text) →
      dictReader text = .ok ((first :: rows).map (cells (first.map Prod.fst))) := by
  have hself : ∀ item ∈ first, item.1 ∈ first.map Prod.fst :=
    fun item hitem ↦ List.mem_map_of_mem hitem
  constructor
  · rw [writeCsv, writeTable, mapM_writeRow]
    by_cases hrows : ∀ row ∈ rows, ∀ item ∈ row, item.1 ∈ first.map Prod.fst
    · rw [if_pos (List.forall_mem_cons.mpr ⟨hself, hrows⟩)]
      exact iff_of_true rfl hrows
    · rw [if_neg fun h ↦ hrows (List.forall_mem_cons.mp h).2]
      exact iff_of_false Bool.false_ne_true hrows
  · intro text htext
    obtain ⟨written, hwritten, hsome⟩ := bind_eq_ok_iff.mp htext
    obtain rfl := Option.some.inj (Except.ok.inj hsome)
    exact dictReader_writeTable (by simpa using hfirst) hkeys hfits hwritten

/-- A comma and quotes among the values. -/
def unusualRow : TableRow := [("target", "hawk, 512".toList), ("reason", "\"no\" space".toList)]

/-- A line break in the value, and a column that is not there. -/
def shortRow : TableRow := [("target", "mayo\r\n1".toList)]

theorem unusual_values_are_read_back :
    ((writeCsv [unusualRow, shortRow]).isOk = true ↔
      ∀ row ∈ [shortRow], ∀ item ∈ row, item.1 ∈ unusualRow.map Prod.fst) ∧
    ∀ text, writeCsv [unusualRow, shortRow] = .ok (some text) →
      dictReader text = .ok ([unusualRow, shortRow].map (cells (unusualRow.map Prod.fst))) :=
  written_rows_are_read_back (List.cons_ne_nil _ _) (by decide) [shortRow]
    ⟨by decide, by decide⟩

/-! ## The table of the primitives -/

/-- The columns of the table that `analyze_signature_logs.py` writes. -/
def signatureColumns : List String := resultFields ++ ["source_log"]

/-- `main`: the text of the table. -/
def signatureTable (logs : List LogFile) : Except PyError Text := do
  let rows ← analyzeSignatureLogs logs
  writeTable signatureColumns rows

namespace CsvReader

/-- No value is longer than the reader takes. -/
structure Fits (reader : CsvReader) : Prop where
  field : reader.field.length ≤ fieldSizeLimit
  fields : ∀ field ∈ reader.fields, field.length ≤ fieldSizeLimit

theorem Fits.saveField {reader : CsvReader} (h : reader.Fits) : reader.saveField.Fits where
  field := Nat.zero_le _
  fields := by
    intro field hfield
    rcases List.mem_append.mp hfield with hbefore | hlast
    · exact h.fields field hbefore
    · exact List.mem_singleton.mp hlast ▸ h.field

theorem Fits.addChar {reader result : CsvReader} (h : reader.Fits) {c : Char} {state : CsvState}
    (hadd : reader.addChar c state = .ok result) : result.Fits := by
  unfold CsvReader.addChar at hadd
  split at hadd
  · cases hadd
  · rename_i hroom
    rw [← Except.ok.inj hadd]
    constructor
    · simp only [List.length_append, List.length_singleton]
      omega
    · exact h.fields

theorem Fits.step {reader result : CsvReader} (h : reader.Fits) {c : Char}
    (hstep : reader.step c = .ok result) : result.Fits := by
  have hsame (state : CsvState) : Fits { reader with state := state } := ⟨h.field, h.fields⟩
  unfold CsvReader.step at hstep
  split at hstep
  · split_ifs at hstep
    · exact Except.ok.inj hstep ▸ hsame .inQuotedField
    · exact Except.ok.inj hstep ▸ h.saveField
    · exact h.addChar hstep
  · split_ifs at hstep
    · exact Except.ok.inj hstep ▸ h.saveField
    · exact h.addChar hstep
  · split_ifs at hstep
    · exact Except.ok.inj hstep ▸ hsame .quoteInQuotedField
    · exact h.addChar hstep
  · split_ifs at hstep
    · exact h.addChar hstep
    · exact Except.ok.inj hstep ▸ h.saveField
    · exact h.addChar hstep

end CsvReader

/-- What holds at the start of a loop and is kept by its rounds holds at its end. -/
theorem foldlM_invariant {σ α : Type} {P : σ → Prop} {step : σ → α → Except PyError σ}
    {items : List α} {state result : σ} (h : items.foldlM step state = .ok result)
    (hstate : P state)
    (hstep : ∀ item ∈ items, ∀ state next, P state → step state item = .ok next → P next) :
    P result := by
  induction items generalizing state with
  | nil => exact Except.ok.inj h ▸ hstate
  | cons item items ih =>
    rw [List.foldlM_cons] at h
    obtain ⟨next, hnext, hrest⟩ := bind_eq_ok_iff.mp h
    rw [List.forall_mem_cons] at hstep
    exact ih hrest (hstep.1 state next hstate hnext) hstep.2

/-- The values of a line are not longer than the reader takes. -/
theorem csvReader_fits {line : Text} {record : List Text} (h : csvReader line = .ok record) :
    ∀ field ∈ record, field.length ≤ fieldSizeLimit := by
  unfold csvReader at h
  split at h
  · obtain rfl := Except.ok.inj h
    simp
  · obtain ⟨reader, hreader, hrecord⟩ := bind_eq_ok_iff.mp h
    have hstart : CsvReader.start.Fits := ⟨Nat.zero_le _, by simp [CsvReader.start]⟩
    have hfits : reader.Fits := foldlM_invariant hreader hstart
      fun c _ state next hstate hnext ↦ hstate.step hnext
    rw [← Except.ok.inj hrecord]
    exact hfits.saveField.fields

/-- A row comes from a line of a log. -/
def FromLog (logs : List LogFile) (row : TableRow) : Prop :=
  ∃ log ∈ logs, ∃ values, row = tableRow log.path values ∧ values.length = resultFields.length ∧
    ∀ value ∈ values, value.length ≤ fieldSizeLimit

theorem collectLine_fromLog {logs : List LogFile} {log : LogFile} (hlog : log ∈ logs)
    {rows result : List TableRow} {line : Text} (hrows : ∀ row ∈ rows, FromLog logs row)
    (h : collectLine log.path rows line = .ok result) : ∀ row ∈ result, FromLog logs row := by
  unfold collectLine at h
  split at h
  · obtain ⟨record, hrecord, hvalues⟩ := bind_eq_ok_iff.mp h
    dsimp only at hvalues
    split at hvalues
    · cases hvalues
    · rename_i hlength
      rw [← Except.ok.inj hvalues]
      intro row hrow
      rcases List.mem_append.mp hrow with hbefore | hlast
      · exact hrows row hbefore
      · rw [List.mem_singleton.mp hlast]
        exact ⟨log, hlog, record.tail, rfl, not_not.mp hlength,
          fun value hvalue ↦ csvReader_fits hrecord value (List.mem_of_mem_tail hvalue)⟩
  · exact Except.ok.inj h ▸ hrows

theorem collectRows_fromLog {logs : List LogFile} {rows : List TableRow}
    (h : collectRows logs = .ok rows) : ∀ row ∈ rows, FromLog logs row := by
  apply foldlM_invariant (P := fun rows ↦ ∀ row ∈ rows, FromLog logs row) h (by simp)
  intro log hlog before after hbefore hafter
  exact foldlM_invariant (P := fun rows ↦ ∀ row ∈ rows, FromLog logs row) hafter hbefore
    fun line _ state next hstate hnext ↦ collectLine_fromLog hlog hstate hnext

theorem keys_tableRow {path : Text} {values : List Text}
    (h : values.length = resultFields.length) :
    (tableRow path values).map Prod.fst = signatureColumns := by
  unfold tableRow signatureColumns
  rw [List.map_append, List.map_fst_zip h.ge]
  rfl

/-- Whatever characters the logs and their paths have, the table that is written is read back as
the rows that were collected. -/
theorem signature_table_is_read_back {logs : List LogFile} {rows : List TableRow}
    (h : analyzeSignatureLogs logs = .ok rows)
    (hpaths : ∀ log ∈ logs, log.path.length ≤ fieldSizeLimit) :
    ∃ text, signatureTable logs = .ok text ∧
      dictReader text = .ok (rows.map fun row name ↦ (row.lookup name).map some) := by
  have hrows : ∀ row ∈ rows, FromLog logs row := by
    obtain ⟨collected, hcollected, hsome⟩ := bind_eq_ok_iff.mp h
    split at hsome
    · cases hsome
    · exact Except.ok.inj hsome ▸ collectRows_fromLog hcollected
  have hkeys : ∀ row ∈ rows, row.map Prod.fst = signatureColumns := by
    intro row hrow
    obtain ⟨log, -, values, rfl, hlength, -⟩ := hrows row hrow
    exact keys_tableRow hlength
  have hfits : FitsReader signatureColumns rows := by
    constructor
    · decide
    · intro row hrow item hitem
      obtain ⟨log, hlog, values, rfl, -, hvalues⟩ := hrows row hrow
      rcases List.mem_append.mp hitem with hvalue | hpath
      · exact hvalues item.2 (List.of_mem_zip hvalue).2
      · rw [List.mem_singleton.mp hpath]
        exact hpaths log hlog
  have hcolumns : ∀ row ∈ rows, ∀ item ∈ row, item.1 ∈ signatureColumns := by
    intro row hrow item hitem
    rw [← hkeys row hrow]
    exact List.mem_map_of_mem hitem
  obtain ⟨text, hwrite⟩ : ∃ text, writeTable signatureColumns rows = .ok text := by
    rw [writeTable, mapM_writeRow, if_pos hcolumns]
    exact ⟨_, rfl⟩
  refine ⟨text, by rw [signatureTable, h]; exact hwrite, ?_⟩
  rw [dictReader_writeTable (by decide) (by decide) hfits hwrite]
  congr 1
  apply List.map_congr_left
  intro row hrow
  rw [← hkeys row hrow]
  exact cells_map_fst row

/-- The log of a primitive under a path with a comma and quotes. -/
def quotedLog : LogFile where
  path := "logs/\"night\", 2.log".toList
  content := (sampleLog .snovaVerify).file.content

theorem quoted_log_is_read_back : ∃ rows, analyzeSignatureLogs [quotedLog] = .ok rows ∧
    ∃ text, signatureTable [quotedLog] = .ok text ∧
      dictReader text = .ok (rows.map fun row name ↦ (row.lookup name).map some) := by
  obtain ⟨rows, hrows⟩ := exists_of_isOk
    (show (analyzeSignatureLogs [quotedLog]).isOk = true by decide +kernel)
  exact ⟨rows, hrows, signature_table_is_read_back hrows (by decide +kernel)⟩

end PqMqtt.Analysis
