import PqMqtt.Analysis.LogReading

/-!
# Truncated captures

The serial output of a campaign is cut at any character and read by `parse` and
`incomplete_attempts`.  The rows are those of the complete attempts, and the report names the
attempts that were begun and have no complete row, exactly when some row is complete, the line in
which the cut was made is not one that is misread, and the times of the complete attempts pass
through a double unchanged.
-/

namespace PqMqtt.Analysis

open Delimited

/-! ## Statement -/

/-- The line in which a text ends. -/
def unfinishedLine (text : Text) : Text := text.rtakeWhile (· ≠ '\n')

/-- A cut line that is taken for a complete one: a start line that is cut in its last field, or a
row that is cut in its 44th field, or in its 13th when the file name can be its campaign. -/
def Misread (name line : Text) : Prop :=
  startPrefix <+: line ∧ line.count ',' = 6 ∨
  rowPrefix <+: line ∧ (line.count ',' = 43 ∨ line.count ',' = 12 ∧ ¬FalseNumber name)

instance (name line : Text) : Decidable (Misread name line) :=
  inferInstanceAs (Decidable (_ ∨ _))

namespace Benchmark

variable (benchmark : Benchmark)

/-- The lines of the log as texts. -/
def textLines : List Text := benchmark.lines.map [','].intercalate

/-- The start line of an attempt is contained in the first `size` characters of the output. -/
def StartComplete (size : ℕ) (measured : MeasuredRun) : Prop :=
  Complete '\n' benchmark.textLines size (2 * measured.run + 1)

/-- The row line of an attempt is contained in the first `size` characters of the output. -/
def RowComplete (size : ℕ) (measured : MeasuredRun) : Prop :=
  Complete '\n' benchmark.textLines size (2 * measured.run + 2)

instance (size : ℕ) : DecidablePred (benchmark.StartComplete size) :=
  fun _ ↦ inferInstanceAs (Decidable (_ ∧ _))

instance (size : ℕ) : DecidablePred (benchmark.RowComplete size) :=
  fun _ ↦ inferInstanceAs (Decidable (_ ∧ _))

/-- A file with the first `size` characters of the output. -/
def capture (path : LogPath) (size : ℕ) : Capture :=
  ⟨path, benchmark.serial.take size⟩

/-- The rows and the report of a cut output that a reader can rely on. -/
structure Faithful (path : LogPath) (size : ℕ) (rows : List (Dict Value)) (report : List Start) :
    Prop where
  rows_complete : ∀ row ∈ rows, ∃ measured ∈ benchmark.runs,
    benchmark.RowComplete size measured ∧ row = benchmark.rowOf measured path.text
  report_eq : report = (benchmark.runs.filter fun measured ↦
    benchmark.StartComplete size measured ∧ ¬benchmark.RowComplete size measured).map
      benchmark.startOf

/-- The cut output is read without an exception, and faithfully. -/
def TruncationSound (path : LogPath) (size : ℕ) : Prop :=
  ∃ rows report, analyze [benchmark.capture path size] = .ok (rows, report) ∧
    benchmark.Faithful path size rows report

/-- The cuts that do no harm. -/
structure HarmlessCut (path : LogPath) (size : ℕ) : Prop where
  exists_complete : ∃ measured ∈ benchmark.runs, benchmark.RowComplete size measured
  not_misread : ¬Misread (basename path.text) (unfinishedLine (benchmark.serial.take size))
  timesExact : ∀ measured ∈ benchmark.runs, benchmark.RowComplete size measured →
    TimesExact measured

/-! ## The cut line -/

variable (measured : MeasuredRun)

theorem not_misread_nil (name : Text) : ¬Misread name [] := by
  rintro (⟨hstart, -⟩ | ⟨hrow, -⟩)
  · exact List.append_ne_nil_of_right_ne_nil _ (by decide) (List.prefix_nil.mp hstart)
  · exact List.append_ne_nil_of_right_ne_nil _ (by decide) (List.prefix_nil.mp hrow)

/-- A start line is no row. -/
theorem misread_startPiece_iff {name rest : Text}
    (hrest : rest <+: [','].intercalate (benchmark.startLine measured)) :
    Misread name rest ↔ startPrefix <+: rest ∧ rest.count ',' = 6 := by
  have hrow : ¬rowPrefix <+: rest := by
    intro hbegins
    have hline := (rowPrefix_iff (benchmark.startLine_plain measured)).mp (hbegins.trans hrest)
    exact absurd ((benchmark.startLine_startsWith measured).unique hline) (by decide)
  simp [Misread, hrow]

/-- A row is no start line. -/
theorem misread_rowPiece_iff {name rest : Text}
    (hrest : rest <+: [','].intercalate (benchmark.rowLine measured)) :
    Misread name rest ↔ rowPrefix <+: rest ∧
      (rest.count ',' = 43 ∨ rest.count ',' = 12 ∧ ¬FalseNumber name) := by
  have hstart : ¬startPrefix <+: rest := by
    intro hbegins
    have hline := (startPrefix_iff (benchmark.rowLine_plain measured)).mp (hbegins.trans hrest)
    exact absurd ((benchmark.rowLine_startsWith measured).unique hline) (by decide)
  simp [Misread, hstart]

/-- A piece of a line with its number of commas. -/
theorem exists_cut_line {fields : List Text} (hplain : PlainFields fields) (hne : fields ≠ [])
    {rest : Text} (hrest : rest <+: [','].intercalate fields) :
    ∃ piece field, fields[rest.count ',']? = some field ∧ piece <+: field ∧
      rest = [','].intercalate (fields.take (rest.count ',') ++ [piece]) ∧
      PlainFields (fields.take (rest.count ',') ++ [piece]) := by
  obtain ⟨count, piece, field, hfield, hpiece, htext, hcut⟩ := hplain.cut hne hrest
  obtain ⟨hlt, -⟩ := List.getElem?_eq_some_iff.mp hfield
  have hcount : rest.count ',' = count := by
    rw [htext, hcut.count_comma, List.length_append, List.length_take, List.length_singleton,
      Nat.min_eq_left hlt.le, Nat.add_sub_cancel]
  rw [hcount]
  exact ⟨piece, field, hfield, hpiece, htext, hcut⟩

theorem parseLine_startPiece {rest : Text}
    (hrest : rest <+: [','].intercalate (benchmark.startLine measured)) (path : Text)
    (state : ParseState) : parseLine path state rest = .ok state := by
  obtain ⟨piece, field, hfield, -, htext, hcut⟩ :=
    exists_cut_line (benchmark.startLine_plain measured) (by simp [startLine]) hrest
  rw [htext]
  apply parseLine_other hcut
  · rw [startsWith_take_iff hfield]
    rintro ⟨-, hhead⟩
    exact absurd (Option.some.inj hhead) (by decide)
  · rw [startsWith_take_iff hfield]
    rintro ⟨-, hhead⟩
    exact absurd (Option.some.inj hhead) (by decide)

theorem scanStart_rowPiece {rest : Text}
    (hrest : rest <+: [','].intercalate (benchmark.rowLine measured))
    (starts : List (Key × Start)) : scanStart starts rest = .ok starts := by
  obtain ⟨piece, field, hfield, -, htext, hcut⟩ :=
    exists_cut_line (benchmark.rowLine_plain measured) (by simp [rowLine]) hrest
  rw [htext]
  apply scanStart_other hcut
  rw [startsWith_take_iff hfield]
  rintro ⟨-, hhead⟩
  exact absurd (Option.some.inj hhead) (by decide)

/-- A start line that is cut before its last field is passed over. -/
theorem scanStart_startPiece {rest : Text}
    (hrest : rest <+: [','].intercalate (benchmark.startLine measured))
    (hmisread : ¬(startPrefix <+: rest ∧ rest.count ',' = 6)) (starts : List (Key × Start)) :
    scanStart starts rest = .ok starts := by
  obtain ⟨piece, field, -, -, htext, hcut⟩ :=
    exists_cut_line (benchmark.startLine_plain measured) (by simp [startLine]) hrest
  have hcount := hcut.count_comma
  rw [← htext] at hcount
  by_cases hstarts : startPrefix <+: rest
  · have hname := hstarts
    rw [htext, startPrefix_iff hcut] at hname
    rw [htext, scanStart_start hcut hname]
    unfold addStart
    split
    · rename_i hparts
      rw [hparts] at hcount
      exact absurd ⟨hstarts, hcount⟩ hmisread
    · rfl
  · exact if_pos hstarts

/-- A start line that is cut in its last field stops the report or puts the attempt in it. -/
theorem scanStart_startPiece_misread {rest : Text} (hrun : measured.run < 2 ^ 31)
    (hrest : rest <+: [','].intercalate (benchmark.startLine measured))
    (hcount : rest.count ',' = 6) {starts result : List (Key × Start)}
    (hresult : scanStart starts rest = .ok result) :
    ∃ start, result = insertStart starts (benchmark.startKey measured) start ∧
      start.run = measured.run := by
  obtain ⟨piece, field, hfield, -, htext, hcut⟩ :=
    exists_cut_line (benchmark.startLine_plain measured) (by simp [startLine]) hrest
  rw [hcount] at hfield htext hcut
  have hname : StartsWith ((benchmark.startLine measured).take 6 ++ [piece]) "csv_hs_start" :=
    (startsWith_take_iff hfield _).mpr ⟨by norm_num, rfl⟩
  have hnumber : pyInt (formatD measured.run) = .ok (measured.run : ℤ) :=
    pyInt_formatD (by omega)
  rw [htext, scanStart_start hcut hname] at hresult
  simp only [addStart, startLine, startFields, List.map_cons, List.map_nil, List.take_succ_cons,
    List.take_zero, List.cons_append, List.nil_append, parseBool_zero, zero_ne_one, if_false]
    at hresult
  simp only [Field.format, pyInt_formatD (natAbs_toInt_lt _), Int32.toInt_ofNat_of_lt hrun, hnumber,
    bind_eq_ok_iff, Except.ok.injEq, exists_eq_left'] at hresult
  obtain ⟨epoch, -, rfl⟩ := hresult
  exact ⟨_, rfl, rfl⟩

/-- The layouts of a cut row. -/
theorem layout_rowPiece (piece : Text) {count : ℕ} (hcount : count < 44) :
    layout (some columnNames) ((benchmark.rowLine measured).take count ++ [piece]) =
      if count = 43 then some (benchmark.cutRawRow measured piece, false)
      else if count = 16 then
        some (legacyFields17.zip ((benchmark.rowLine measured).take 16 ++ [piece]), true)
      else if count = 12 then
        some (legacyFields13.zip ((benchmark.rowLine measured).take 12 ++ [piece]), true)
      else none := by
  have hlength : ((benchmark.rowLine measured).take count ++ [piece]).length = count + 1 := by
    have hrow : (benchmark.rowLine measured).length = 44 := rfl
    rw [List.length_append, List.length_take, hrow, List.length_singleton,
      Nat.min_eq_left hcount.le]
  have hcolumns : columnNames ≠ [] ∧ columnNames.length = 43 := ⟨by simp [columnNames], rfl⟩
  simp only [layout, hlength, Option.getD_some, hcolumns, ne_eq, not_false_eq_true, true_and,
    Nat.add_sub_cancel, Nat.reduceEqDiff]
  split_ifs with hall hold holder
  · subst hall
    rfl
  · subst hold
    rfl
  · subst holder
    rfl
  · rfl

/-- A row that is cut behind its prefix is parsed from the fields that are left. -/
theorem exists_parseLine_rowPiece {rest : Text}
    (hrest : rest <+: [','].intercalate (benchmark.rowLine measured))
    (hbegins : rowPrefix <+: rest) (path : Text) (state : ParseState) :
    ∃ piece field, (benchmark.rowLine measured)[rest.count ',']? = some field ∧
      piece <+: field ∧
      parseLine path state rest
        = parseRow path state ((benchmark.rowLine measured).take (rest.count ',') ++ [piece]) := by
  obtain ⟨piece, field, hfield, hpiece, htext, hcut⟩ :=
    exists_cut_line (benchmark.rowLine_plain measured) (by simp [rowLine]) hrest
  have hname := hbegins
  rw [htext, rowPrefix_iff hcut] at hname
  have hline := parseLine_row hcut hname path state
  rw [← htext] at hline
  exact ⟨piece, field, hfield, hpiece, hline⟩

/-- A row that is cut in its first field is passed over. -/
theorem parseLine_rowPiece_other {rest : Text}
    (hrest : rest <+: [','].intercalate (benchmark.rowLine measured))
    (hbegins : ¬rowPrefix <+: rest) (path : Text) (state : ParseState) :
    parseLine path state rest = .ok state := by
  obtain ⟨piece, field, hfield, -, htext, hcut⟩ :=
    exists_cut_line (benchmark.rowLine_plain measured) (by simp [rowLine]) hrest
  rw [htext, rowPrefix_iff hcut] at hbegins
  rw [htext]
  apply parseLine_other hcut _ hbegins
  rw [startsWith_take_iff hfield]
  rintro ⟨-, hhead⟩
  exact absurd (Option.some.inj hhead) (by decide)

/-- A row that is cut where it is not misread is passed over. -/
theorem parseLine_rowPiece {rest path : Text}
    (hrest : rest <+: [','].intercalate (benchmark.rowLine measured))
    (hpath : (basename path).length ≤ 255) (hmisread : ¬Misread (basename path) rest)
    (rows : List (Dict Value)) :
    parseLine path ⟨some columnNames, rows⟩ rest = .ok ⟨some columnNames, rows⟩ := by
  by_cases hbegins : rowPrefix <+: rest
  · obtain ⟨piece, field, hfield, hpiece, hline⟩ :=
      benchmark.exists_parseLine_rowPiece measured hrest hbegins path ⟨some columnNames, rows⟩
    obtain ⟨hlt, -⟩ := List.getElem?_eq_some_iff.mp hfield
    have hlayout := benchmark.layout_rowPiece measured piece hlt
    rw [hline]
    by_cases hall : rest.count ',' = 43
    · exact absurd (Or.inr ⟨hbegins, Or.inl hall⟩) hmisread
    rw [if_neg hall] at hlayout
    by_cases hold : rest.count ',' = 16
    · rw [if_pos hold] at hlayout
      exact parseRow_of_valueError hlayout (benchmark.normalize_17 measured piece hpath)
    rw [if_neg hold] at hlayout
    by_cases holder : rest.count ',' = 12
    · have hfalse : FalseNumber (basename path) := by
        by_contra hfalse
        exact hmisread (Or.inr ⟨hbegins, Or.inr ⟨holder, hfalse⟩⟩)
      rw [if_pos holder] at hlayout
      rw [holder] at hfield
      have hreads := benchmark.reads_piece13 measured hfield hpiece
      exact parseRow_of_valueError hlayout
        (benchmark.normalize_13_falseNumber measured hreads hfalse)
    · rw [if_neg holder] at hlayout
      simp only [parseRow, hlayout]
  · exact benchmark.parseLine_rowPiece_other measured hrest hbegins path _

/-- A row that is cut where it is misread adds a row, of the legacy format or for the attempt. -/
theorem parseLine_rowPiece_misread {rest path : Text} (hrun : measured.run < 2 ^ 31)
    (hrest : rest <+: [','].intercalate (benchmark.rowLine measured))
    (hpath : (basename path).length ≤ 255) (hmisread : Misread (basename path) rest)
    {rows : List (Dict Value)} {result : ParseState}
    (hresult : parseLine path ⟨some columnNames, rows⟩ rest = .ok result) :
    ∃ row ∈ result.rows, row "legacy_success_only" = some (.int 1) ∨
      row "run" = some (.int measured.run) := by
  obtain ⟨hbegins, hcount⟩ := (benchmark.misread_rowPiece_iff measured hrest).mp hmisread
  obtain ⟨piece, field, hfield, hpiece, hline⟩ :=
    benchmark.exists_parseLine_rowPiece measured hrest hbegins path ⟨some columnNames, rows⟩
  obtain ⟨hlt, -⟩ := List.getElem?_eq_some_iff.mp hfield
  have hlayout := benchmark.layout_rowPiece measured piece hlt
  rw [hresult] at hline
  rcases hcount with hall | ⟨holder, hfalse⟩
  · rw [if_pos hall] at hlayout
    rw [hall] at hfield
    have hreads := benchmark.reads_piece43 measured hfield hpiece
    obtain ⟨row, hrow, hnormalize⟩ :=
      exists_of_parseRow_eq_ok hlayout (benchmark.normalize_43 measured hreads path) hline.symm
    refine ⟨row, hrow, Or.inr ?_⟩
    rw [benchmark.run_of_normalize_43 measured hnormalize, Int32.toInt_ofNat_of_lt hrun]
  · have hother : rest.count ',' ≠ 43 ∧ rest.count ',' ≠ 16 := by omega
    rw [if_neg hother.1, if_neg hother.2, if_pos holder] at hlayout
    rw [holder] at hfield
    have hreads := benchmark.reads_piece13 measured hfield hpiece
    obtain ⟨row, hrow, hnormalize⟩ :=
      exists_of_parseRow_eq_ok hlayout (benchmark.normalize_13 measured hreads hpath hfalse)
        hline.symm
    exact ⟨row, hrow, Or.inl (legacy_of_normalize hnormalize)⟩

/-! ## The place of the cut -/

/-- The first `size` characters are `count` complete lines and `rest`, a piece of the next. -/
structure CutAt (size count : ℕ) (rest : Text) : Prop where
  take_eq : benchmark.serial.take size = unlines '\n' (benchmark.textLines.take count) ++ rest
  rest_prefix : rest = [] ∨
    ∃ line, benchmark.lines[count]? = some line ∧ rest <+: [','].intercalate line
  complete_iff : ∀ index, Complete '\n' benchmark.textLines size index ↔ index < count

theorem exists_cutAt (size : ℕ) : ∃ count rest, benchmark.CutAt size count rest := by
  obtain ⟨count, rest, htake, hrest, hcomplete⟩ := take_unlines '\n' benchmark.textLines size
  refine ⟨count, rest, htake, ?_, hcomplete⟩
  rcases hrest with hempty | ⟨text, htext, hbegins⟩
  · exact Or.inl hempty
  · rw [textLines, List.getElem?_map] at htext
    obtain ⟨line, hline, rfl⟩ := Option.map_eq_some_iff.mp htext
    exact Or.inr ⟨line, hline, hbegins⟩

theorem getElem?_flatMap_attemptLines (runs : List MeasuredRun) (index : ℕ) :
    (runs.flatMap benchmark.attemptLines)[2 * index]? = runs[index]?.map benchmark.startLine ∧
    (runs.flatMap benchmark.attemptLines)[2 * index + 1]? = runs[index]?.map benchmark.rowLine := by
  induction runs generalizing index with
  | nil => simp
  | cons first rest ih =>
    cases index with
    | zero => exact ⟨rfl, rfl⟩
    | succ index =>
      have hdouble : 2 * (index + 1) = 2 * index + 1 + 1 := by omega
      rw [hdouble]
      exact ih index

theorem lines_eq :
    benchmark.lines = headerLine :: benchmark.runs.flatMap benchmark.attemptLines := rfl

variable {benchmark} {measured} {size count : ℕ} {rest : Text}

namespace CutAt

variable (hcut : benchmark.CutAt size count rest)

include hcut

theorem startComplete_iff (measured : MeasuredRun) :
    benchmark.StartComplete size measured ↔ 2 * measured.run + 1 < count :=
  hcut.complete_iff _

theorem rowComplete_iff (measured : MeasuredRun) :
    benchmark.RowComplete size measured ↔ 2 * measured.run + 2 < count :=
  hcut.complete_iff _

/-- A complete row comes after the header. -/
theorem count_pos (h : ∃ measured ∈ benchmark.runs, benchmark.RowComplete size measured) :
    0 < count := by
  obtain ⟨measured, -, hcomplete⟩ := h
  rw [hcut.rowComplete_iff] at hcomplete
  exact Nat.zero_lt_of_lt hcomplete

theorem mem_take_rows_iff {measured : MeasuredRun} :
    measured ∈ benchmark.runs.take ((count - 1) / 2) ↔
      measured ∈ benchmark.runs ∧ benchmark.RowComplete size measured := by
  rw [mem_take_runs_iff, hcut.rowComplete_iff]
  have hhalf : measured.run < (count - 1) / 2 ↔ 2 * measured.run + 2 < count := by omega
  rw [hhalf]

/-- The piece of a line after the complete ones has no line break. -/
theorem rest_isSpace : ∀ c ∈ rest, isSpace c = false := by
  rcases hcut.rest_prefix with rfl | ⟨line, hline, hbegins⟩
  · simp
  · exact fun c hc ↦ (benchmark.lines_plain line (List.mem_of_getElem? hline)).isSpace_eq_false c
      (hbegins.subset hc)

theorem unfinishedLine_eq : unfinishedLine (benchmark.serial.take size) = rest := by
  have hnewline : ∀ c ∈ rest, c ≠ '\n' := by
    rintro c hc rfl
    exact absurd (hcut.rest_isSpace '\n' hc) (by decide)
  have hall : ∀ c ∈ rest.reverse, decide (c ≠ '\n') = true := fun c hc ↦
    decide_eq_true (hnewline c (List.mem_reverse.mp hc))
  have hstop :
      (unlines '\n' (benchmark.textLines.take count)).reverse.takeWhile (· ≠ '\n') = [] := by
    rcases List.eq_nil_or_concat (benchmark.textLines.take count) with hnil | ⟨before, last, hlast⟩
    · simp [hnil]
    · simp [hlast, unlines]
  rw [hcut.take_eq, unfinishedLine, List.rtakeWhile, List.reverse_append,
    List.takeWhile_append_of_pos hall, hstop, List.append_nil, List.reverse_reverse]

/-- What a loop over the lines of the capture does. -/
theorem foldlM_readLines {σ : Type} (step : σ → Text → Except PyError σ)
    (hnewline : ∀ fields, PlainFields fields → ∀ state,
      step state ([','].intercalate fields ++ ['\n']) = step state ([','].intercalate fields))
    (hempty : ∀ state, step state [] = .ok state) (initial : σ) :
    (readLines (universalNewlines (benchmark.serial.take size))).foldlM step initial
      = (benchmark.lines.take count).foldlM
          (fun state fields ↦ step state ([','].intercalate fields)) initial
        >>= fun state ↦ step state rest := by
  have hplain : ∀ fields ∈ benchmark.lines.take count, PlainFields fields :=
    fun fields hfields ↦ benchmark.lines_plain fields (List.mem_of_mem_take hfields)
  have hlines : benchmark.textLines.take count
      = (benchmark.lines.take count).map [','].intercalate := List.map_take.symm
  rw [hcut.take_eq, hlines]
  exact foldlM_readLines_unlines step hnewline hempty hplain hcut.rest_isSpace initial

theorem take_lines (hcount : 0 < count) :
    benchmark.lines.take count
      = headerLine :: (benchmark.runs.flatMap benchmark.attemptLines).take (count - 1) := by
  obtain ⟨before, rfl⟩ := Nat.exists_eq_add_of_lt hcount
  rw [lines_eq, zero_add, List.take_succ_cons, Nat.add_sub_cancel]

/-- With a complete header `parse` has the complete rows before it comes to the cut line. -/
theorem parse_eq (hcount : 0 < count) (path : LogPath) :
    parse [benchmark.capture path size] =
      parseLine path.text ⟨some columnNames,
        (benchmark.runs.take ((count - 1) / 2)).map (benchmark.readRow · path.text)⟩ rest
      >>= fun state ↦ if state.rows.isEmpty then .error .systemExit else .ok state.rows := by
  have hheader := parseLine_header headerLine_plain headerLine_startsWith path.text ⟨none, []⟩
  have hloop := hcut.foldlM_readLines (parseLine path.text)
    (fun fields hplain state ↦ parseLine_newline hplain path.text state)
    (parseLine_nil path.text) ⟨none, []⟩
  rw [hcut.take_lines hcount, List.foldlM_cons, hheader, headerLine_columns] at hloop
  simp only [bind, Except.bind, foldlM_parseLine, List.nil_append] at hloop
  simp only [parse, List.foldlM_cons, List.foldlM_nil, parseFile, capture, bind, Except.bind, hloop]
  cases parseLine path.text _ rest <;> rfl

/-- `incomplete_attempts` has the entries of the complete start lines before it comes to the cut
line. -/
theorem incompleteAttempts_eq (hcount : 0 < count) (path : LogPath)
    (completed : List (Dict Value)) :
    incompleteAttempts [benchmark.capture path size] completed =
      scanStart ((benchmark.runs.take (count / 2)).map benchmark.entry) rest
      >>= fun starts ↦ completed.mapM doneKey >>= fun done ↦
        .ok (((starts.mergeSort fun first second ↦ first.1.le second.1).filter
          fun entry ↦ some entry.1 ∉ done).map Prod.snd) := by
  have hother : ¬StartsWith headerLine "csv_hs_start" := fun hstarts ↦
    absurd (headerLine_startsWith.unique hstarts) (by decide)
  have hheader := scanStart_other headerLine_plain hother []
  have hloop := hcut.foldlM_readLines scanStart
    (fun fields hplain starts ↦ scanStart_newline hplain starts) scanStart_nil []
  have hhalf : (count - 1 + 1) / 2 = count / 2 := by omega
  have hrun : ∀ measured ∈ benchmark.runs, measured.run < 2 ^ 31 :=
    fun measured hmem ↦ benchmark.run_lt hmem
  rw [hcut.take_lines hcount, List.foldlM_cons, hheader] at hloop
  simp only [bind, Except.bind] at hloop
  rw [benchmark.foldlM_scanStart _ _ _ hrun (by simpa using benchmark.startKey_nodup)] at hloop
  simp only [List.nil_append, hhalf] at hloop
  simp only [incompleteAttempts, List.foldlM_cons, List.foldlM_nil, capture, bind, Except.bind,
    hloop]
  cases scanStart _ rest <;> rfl

/-- The line that is cut belongs to an attempt when the header is complete. -/
theorem rest_cases (hcount : 0 < count) :
    rest = [] ∨
    (∃ measured ∈ benchmark.runs, count = 2 * measured.run + 1 ∧
      rest <+: [','].intercalate (benchmark.startLine measured)) ∨
    ∃ measured ∈ benchmark.runs, count = 2 * measured.run + 2 ∧
      rest <+: [','].intercalate (benchmark.rowLine measured) := by
  rcases hcut.rest_prefix with hempty | ⟨line, hline, hbegins⟩
  · exact Or.inl hempty
  obtain ⟨before, rfl⟩ := Nat.exists_eq_add_of_lt hcount
  rw [zero_add, lines_eq, List.getElem?_cons_succ] at hline
  rcases Nat.even_or_odd' before with ⟨run, rfl | rfl⟩
  · rw [(benchmark.getElem?_flatMap_attemptLines benchmark.runs run).1] at hline
    obtain ⟨measured, hmeasured, rfl⟩ := Option.map_eq_some_iff.mp hline
    refine Or.inr (Or.inl ⟨measured, List.mem_of_getElem? hmeasured, ?_, hbegins⟩)
    rw [benchmark.run_of_getElem? hmeasured, zero_add]
  · rw [(benchmark.getElem?_flatMap_attemptLines benchmark.runs run).2] at hline
    obtain ⟨measured, hmeasured, rfl⟩ := Option.map_eq_some_iff.mp hline
    refine Or.inr (Or.inr ⟨measured, List.mem_of_getElem? hmeasured, ?_, hbegins⟩)
    rw [benchmark.run_of_getElem? hmeasured]
    omega

end CutAt

/-! ## Faithful captures are harmless -/

theorem analyze_eq_ok_iff {files : List Capture} {rows : List (Dict Value)} {report : List Start} :
    analyze files = .ok (rows, report) ↔
      parse files = .ok rows ∧ incompleteAttempts files rows = .ok report := by
  unfold analyze
  constructor
  · intro h
    obtain ⟨found, hfound, h⟩ := bind_eq_ok_iff.mp h
    obtain ⟨starts, hstarts, h⟩ := bind_eq_ok_iff.mp h
    obtain ⟨rfl, rfl⟩ := Prod.mk.inj (Except.ok.inj h)
    exact ⟨hfound, hstarts⟩
  · rintro ⟨hrows, hreport⟩
    exact bind_eq_ok_iff.mpr ⟨rows, hrows, bind_eq_ok_iff.mpr ⟨report, hreport, rfl⟩⟩

section Sound

variable {path : LogPath} {rows : List (Dict Value)}
  {report : List Start}

theorem exists_complete_of_faithful
    (hparse : parse [benchmark.capture path size] = .ok rows)
    (hfaithful : benchmark.Faithful path size rows report) :
    ∃ measured ∈ benchmark.runs, benchmark.RowComplete size measured := by
  obtain ⟨row, hrow⟩ := List.exists_mem_of_ne_nil rows (ne_nil_of_parse_eq_ok hparse)
  obtain ⟨measured, hmem, hcomplete, -⟩ := hfaithful.rows_complete row hrow
  exact ⟨measured, hmem, hcomplete⟩

/-- The run of a row of a faithful capture is that of a complete attempt. -/
theorem complete_of_run_eq (hfaithful : benchmark.Faithful path size rows report)
    (hmeasured : measured ∈ benchmark.runs) {row : Dict Value} (hrow : row ∈ rows)
    (hrun : row "run" = some (.int measured.run)) :
    benchmark.RowComplete size measured ∧ row = benchmark.rowOf measured path.text := by
  obtain ⟨other, hother, hcomplete, rfl⟩ := hfaithful.rows_complete row hrow
  rw [rowOf, rowWith_run, Field.value, Int32.toInt_ofNat_of_lt (benchmark.run_lt hother),
    Option.some.injEq, Value.int.injEq] at hrun
  obtain rfl := benchmark.eq_of_run_eq hother hmeasured (by exact_mod_cast hrun)
  exact ⟨hcomplete, rfl⟩

variable (hcut : benchmark.CutAt size count rest) (hcount : 0 < count)

include hcut hcount

theorem exists_parseLine_rest (hparse : parse [benchmark.capture path size] = .ok rows) :
    ∃ state, parseLine path.text ⟨some columnNames,
        (benchmark.runs.take ((count - 1) / 2)).map (benchmark.readRow · path.text)⟩ rest
          = .ok state ∧
      state.rows = rows := by
  rw [hcut.parse_eq hcount] at hparse
  obtain ⟨state, hstate, hrows⟩ := bind_eq_ok_iff.mp hparse
  split at hrows
  · cases hrows
  · exact ⟨state, hstate, Except.ok.inj hrows⟩

theorem timesExact_of_faithful
    (hparse : parse [benchmark.capture path size] = .ok rows)
    (hfaithful : benchmark.Faithful path size rows report) (hmeasured : measured ∈ benchmark.runs)
    (hcomplete : benchmark.RowComplete size measured) : TimesExact measured := by
  obtain ⟨state, hstate, rfl⟩ := exists_parseLine_rest hcut hcount hparse
  have htake := hcut.mem_take_rows_iff.mpr ⟨hmeasured, hcomplete⟩
  have hrow : benchmark.readRow measured path.text ∈ state.rows :=
    mem_rows_of_parseLine hstate _ (List.mem_map_of_mem htake)
  have hrun : benchmark.readRow measured path.text "run" = some (.int measured.run) := by
    rw [readRow, rowWith_run, Field.read, Field.value,
      Int32.toInt_ofNat_of_lt (benchmark.run_lt hmeasured)]
    simp
  exact (benchmark.rowWith_read_eq_rowOf_iff measured path.text).mp
    (complete_of_run_eq hfaithful hmeasured hrow hrun).2

/-- A misread start line is reported as an attempt whose start line is complete. -/
theorem not_misread_start_of_faithful
    (hreport : incompleteAttempts [benchmark.capture path size] rows = .ok report)
    (hfaithful : benchmark.Faithful path size rows report) (hmeasured : measured ∈ benchmark.runs)
    (hposition : count = 2 * measured.run + 1)
    (hrest : rest <+: [','].intercalate (benchmark.startLine measured)) :
    rest.count ',' ≠ 6 := by
  intro hsix
  have hrun := benchmark.run_lt hmeasured
  rw [hcut.incompleteAttempts_eq hcount] at hreport
  obtain ⟨starts, hstarts, hreport⟩ := bind_eq_ok_iff.mp hreport
  obtain ⟨done, hdone, hreport⟩ := bind_eq_ok_iff.mp hreport
  obtain ⟨start, rfl, hstart⟩ :=
    benchmark.scanStart_startPiece_misread measured hrun hrest hsix hstarts
  have hhalf : count / 2 = measured.run := by omega
  have hnew : benchmark.startKey measured
      ∉ ((benchmark.runs.take (count / 2)).map benchmark.entry).map Prod.fst := by
    rw [List.map_map, hhalf]
    intro hmem
    obtain ⟨other, hother, hkey⟩ := List.mem_map.mp hmem
    have hlt := (benchmark.mem_take_runs_iff.mp hother).2
    have hsame : (other.run : ℤ) = measured.run := congrArg Key.run hkey
    omega
  have hundone : some (benchmark.startKey measured) ∉ done := by
    intro hmem
    obtain ⟨row, hrow, hkey⟩ := (mem_mapM_iff hdone _).mp hmem
    obtain ⟨other, hother, hcomplete, rfl⟩ := hfaithful.rows_complete row hrow
    rw [benchmark.doneKey_rowOf other (benchmark.run_lt hother), Except.ok.injEq,
      Option.some.injEq] at hkey
    have hsame : (other.run : ℤ) = measured.run := congrArg Key.run hkey
    rw [hcut.rowComplete_iff] at hcomplete
    omega
  have hentry : start ∈ report := by
    rw [insertStart_of_notMem hnew] at hreport
    rw [← Except.ok.inj hreport]
    apply List.mem_map_of_mem (f := Prod.snd) (a := (benchmark.startKey measured, start))
    rw [List.mem_filter, List.mem_mergeSort]
    exact ⟨by simp, decide_eq_true hundone⟩
  rw [hfaithful.report_eq] at hentry
  obtain ⟨other, hother, rfl⟩ := List.mem_map.mp hentry
  have hpending := (List.mem_filter.mp hother).2
  simp only [decide_eq_true_eq, hcut.startComplete_iff] at hpending
  have hsame : (other.run : ℤ) = measured.run := hstart
  omega

theorem not_misread_row_of_faithful
    (hparse : parse [benchmark.capture path size] = .ok rows)
    (hfaithful : benchmark.Faithful path size rows report) (hmeasured : measured ∈ benchmark.runs)
    (hposition : count = 2 * measured.run + 2)
    (hrest : rest <+: [','].intercalate (benchmark.rowLine measured)) :
    ¬Misread (basename path.text) rest := by
  intro hmisread
  obtain ⟨state, hstate, rfl⟩ := exists_parseLine_rest hcut hcount hparse
  obtain ⟨row, hrow, hlegacy | hrun⟩ := benchmark.parseLine_rowPiece_misread measured
    (benchmark.run_lt hmeasured) hrest path.basename_le hmisread hstate
  · obtain ⟨other, -, -, rfl⟩ := hfaithful.rows_complete row hrow
    rw [rowOf, rowWith_apply, if_neg (by decide), if_pos rfl] at hlegacy
    exact absurd hlegacy (by decide)
  · have hcomplete := (complete_of_run_eq hfaithful hmeasured hrow hrun).1
    rw [hcut.rowComplete_iff] at hcomplete
    omega

end Sound

theorem harmlessCut_of_sound {path : LogPath}
    (h : benchmark.TruncationSound path size) : benchmark.HarmlessCut path size := by
  obtain ⟨rows, report, hanalyze, hfaithful⟩ := h
  obtain ⟨hparse, hreport⟩ := analyze_eq_ok_iff.mp hanalyze
  obtain ⟨count, rest, hcut⟩ := benchmark.exists_cutAt size
  have hexists := exists_complete_of_faithful hparse hfaithful
  have hcount := hcut.count_pos hexists
  refine ⟨hexists, ?_, fun measured hmeasured hcomplete ↦
    timesExact_of_faithful hcut hcount hparse hfaithful hmeasured hcomplete⟩
  rw [hcut.unfinishedLine_eq]
  rcases hcut.rest_cases hcount with rfl | ⟨measured, hmeasured, hposition, hrest⟩ |
    ⟨measured, hmeasured, hposition, hrest⟩
  · exact not_misread_nil _
  · rw [benchmark.misread_startPiece_iff measured hrest]
    rintro ⟨-, hsix⟩
    exact not_misread_start_of_faithful hcut hcount hreport hfaithful hmeasured hposition hrest hsix
  · exact not_misread_row_of_faithful hcut hcount hparse hfaithful hmeasured hposition hrest

/-! ## Harmless cuts are read faithfully -/

section Harmless

variable {path : LogPath} (hcut : benchmark.CutAt size count rest) (hcount : 0 < count)

include hcut hcount

theorem parse_of_harmless
    (h : benchmark.HarmlessCut path size) :
    parse [benchmark.capture path size]
      = .ok ((benchmark.runs.take ((count - 1) / 2)).map (benchmark.rowOf · path.text)) := by
  have hmisread := h.not_misread
  rw [hcut.unfinishedLine_eq] at hmisread
  have hread : (benchmark.runs.take ((count - 1) / 2)).map (benchmark.readRow · path.text)
      = (benchmark.runs.take ((count - 1) / 2)).map (benchmark.rowOf · path.text) := by
    apply List.map_congr_left
    intro measured hmeasured
    obtain ⟨hmem, hcomplete⟩ := hcut.mem_take_rows_iff.mp hmeasured
    exact (benchmark.rowWith_read_eq_rowOf_iff measured path.text).mpr
      (h.timesExact measured hmem hcomplete)
  have hline : parseLine path.text ⟨some columnNames,
        (benchmark.runs.take ((count - 1) / 2)).map (benchmark.readRow · path.text)⟩ rest
      = .ok ⟨some columnNames,
        (benchmark.runs.take ((count - 1) / 2)).map (benchmark.readRow · path.text)⟩ := by
    rcases hcut.rest_cases hcount with rfl | ⟨measured, -, -, hrest⟩ | ⟨measured, -, -, hrest⟩
    · exact parseLine_nil path.text _
    · exact benchmark.parseLine_startPiece measured hrest path.text _
    · exact benchmark.parseLine_rowPiece measured hrest path.basename_le hmisread _
  have hne : (benchmark.runs.take ((count - 1) / 2)).map (benchmark.rowOf · path.text) ≠ [] := by
    obtain ⟨measured, hmem, hcomplete⟩ := h.exists_complete
    have htake := hcut.mem_take_rows_iff.mpr ⟨hmem, hcomplete⟩
    exact List.ne_nil_of_mem (List.mem_map_of_mem htake)
  rw [hcut.parse_eq hcount, hline, hread]
  exact if_neg (by simpa using hne)

theorem scanStart_of_harmless (h : benchmark.HarmlessCut path size) :
    scanStart ((benchmark.runs.take (count / 2)).map benchmark.entry) rest
      = .ok ((benchmark.runs.take (count / 2)).map benchmark.entry) := by
  have hmisread := h.not_misread
  rw [hcut.unfinishedLine_eq] at hmisread
  rcases hcut.rest_cases hcount with rfl | ⟨measured, -, -, hrest⟩ | ⟨measured, -, -, hrest⟩
  · exact scanStart_nil _
  · rw [benchmark.misread_startPiece_iff measured hrest] at hmisread
    exact benchmark.scanStart_startPiece measured hrest hmisread _
  · exact benchmark.scanStart_rowPiece measured hrest _

omit hcount in
/-- The attempts with a complete start line are the first ones. -/
theorem filter_startComplete :
    benchmark.runs.filter (fun measured ↦ benchmark.StartComplete size measured)
      = benchmark.runs.take (count / 2) := by
  have hhalf (run : ℕ) : run < count / 2 ↔ 2 * run + 1 < count := by omega
  have hfirst : ∀ measured ∈ benchmark.runs.take (count / 2),
      decide (benchmark.StartComplete size measured) = true := by
    intro measured hmeasured
    rw [decide_eq_true_eq, hcut.startComplete_iff, ← hhalf]
    exact (benchmark.mem_take_runs_iff.mp hmeasured).2
  have hothers : ∀ measured ∈ benchmark.runs.drop (count / 2),
      ¬decide (benchmark.StartComplete size measured) = true := by
    intro measured hmeasured
    obtain ⟨index, hindex⟩ := List.mem_iff_getElem?.mp hmeasured
    rw [List.getElem?_drop] at hindex
    rw [decide_eq_true_eq, hcut.startComplete_iff, ← hhalf, benchmark.run_of_getElem? hindex]
    omega
  conv_lhs => rw [← List.take_append_drop (count / 2) benchmark.runs]
  rw [List.filter_append, List.filter_eq_self.mpr hfirst, List.filter_eq_nil_iff.mpr hothers,
    List.append_nil]

omit hcut hcount in
/-- The entries are found in the order of their keys. -/
theorem mergeSort_entries :
    ((benchmark.runs.take (count / 2)).map benchmark.entry).mergeSort
        (fun first second ↦ first.1.le second.1)
      = (benchmark.runs.take (count / 2)).map benchmark.entry := by
  have hruns : benchmark.runs.Pairwise fun first second ↦ first.run < second.run := by
    rw [← List.pairwise_map, map_run_runs]
    exact List.pairwise_lt_range'
  apply List.mergeSort_of_pairwise
  rw [List.pairwise_map]
  apply (hruns.sublist (List.take_sublist (count / 2) benchmark.runs)).imp
  intro first second hlt
  have hle : (benchmark.startKey first).le (benchmark.startKey second) = true :=
    Key.le_of_run_le rfl rfl rfl (Int.ofNat_le.mpr hlt.le)
  exact hle

omit hcut hcount in
theorem mapM_doneKey_rowOf (path : Text) {complete : List MeasuredRun}
    (hrun : ∀ measured ∈ complete, measured.run < 2 ^ 31) :
    (complete.map (benchmark.rowOf · path)).mapM doneKey
      = .ok (complete.map (some <| benchmark.startKey ·)) := by
  induction complete with
  | nil => rfl
  | cons first others ih =>
    rw [List.forall_mem_cons] at hrun
    rw [List.map_cons, List.mapM_cons, benchmark.doneKey_rowOf first hrun.1, ih hrun.2]
    rfl

omit hcount in
/-- The keys that are done are those of the complete attempts. -/
theorem startKey_mem_done_iff (hmeasured : measured ∈ benchmark.runs) :
    some (benchmark.startKey measured)
        ∈ (benchmark.runs.take ((count - 1) / 2)).map (some <| benchmark.startKey ·) ↔
      benchmark.RowComplete size measured := by
  rw [List.mem_map]
  constructor
  · rintro ⟨other, hother, hkey⟩
    obtain ⟨hmem, hcomplete⟩ := hcut.mem_take_rows_iff.mp hother
    have hrun : (other.run : ℤ) = measured.run := congrArg Key.run (Option.some.inj hkey)
    obtain rfl := benchmark.eq_of_run_eq hmem hmeasured (by exact_mod_cast hrun)
    exact hcomplete
  · intro hcomplete
    exact ⟨measured, hcut.mem_take_rows_iff.mpr ⟨hmeasured, hcomplete⟩, rfl⟩

/-- The report of a harmless cut. -/
theorem incompleteAttempts_of_harmless
    (h : benchmark.HarmlessCut path size) :
    incompleteAttempts [benchmark.capture path size]
        ((benchmark.runs.take ((count - 1) / 2)).map (benchmark.rowOf · path.text))
      = .ok ((benchmark.runs.filter fun measured ↦
          benchmark.StartComplete size measured ∧ ¬benchmark.RowComplete size measured).map
            benchmark.startOf) := by
  have hrun : ∀ measured ∈ benchmark.runs.take ((count - 1) / 2), measured.run < 2 ^ 31 :=
    fun measured hmeasured ↦ benchmark.run_lt (List.mem_of_mem_take hmeasured)
  have hundone : ∀ measured ∈ benchmark.runs.take (count / 2),
      decide (some (benchmark.entry measured).1
          ∉ (benchmark.runs.take ((count - 1) / 2)).map (some <| benchmark.startKey ·))
        = decide (¬benchmark.RowComplete size measured) := by
    intro measured hmeasured
    apply decide_eq_decide.mpr
    exact not_congr (startKey_mem_done_iff hcut (List.mem_of_mem_take hmeasured))
  have hpending : (benchmark.runs.take (count / 2)).filter
        (fun measured ↦ ¬benchmark.RowComplete size measured)
      = benchmark.runs.filter fun measured ↦
          benchmark.StartComplete size measured ∧ ¬benchmark.RowComplete size measured := by
    rw [← filter_startComplete hcut, List.filter_filter]
    apply List.filter_congr
    intro measured _
    rw [Bool.decide_and, Bool.and_comm]
  rw [hcut.incompleteAttempts_eq hcount, scanStart_of_harmless hcut hcount h]
  simp only [bind, Except.bind, mapM_doneKey_rowOf path.text hrun, mergeSort_entries]
  rw [List.filter_map, List.map_map]
  refine congrArg Except.ok ?_
  calc ((benchmark.runs.take (count / 2)).filter _).map (Prod.snd ∘ benchmark.entry)
      = ((benchmark.runs.take (count / 2)).filter
          fun measured ↦ ¬benchmark.RowComplete size measured).map benchmark.startOf :=
        congrArg (List.map benchmark.startOf) (List.filter_congr hundone)
    _ = _ := by rw [hpending]

end Harmless

theorem sound_of_harmlessCut {path : LogPath}
    (h : benchmark.HarmlessCut path size) : benchmark.TruncationSound path size := by
  obtain ⟨count, rest, hcut⟩ := benchmark.exists_cutAt size
  have hcount := hcut.count_pos h.exists_complete
  refine ⟨_, _, analyze_eq_ok_iff.mpr ⟨parse_of_harmless hcut hcount h,
    incompleteAttempts_of_harmless hcut hcount h⟩, ?_, rfl⟩
  intro row hrow
  obtain ⟨measured, hmeasured, rfl⟩ := List.mem_map.mp hrow
  obtain ⟨hmem, hcomplete⟩ := hcut.mem_take_rows_iff.mp hmeasured
  exact ⟨measured, hmem, hcomplete, rfl⟩

/-- The output of a campaign that is cut at any character is read faithfully exactly when the cut
does no harm. -/
theorem truncated_capture_sound_iff (benchmark : Benchmark) (path : LogPath)
    (size : ℕ) :
    benchmark.TruncationSound path size ↔ benchmark.HarmlessCut path size :=
  ⟨harmlessCut_of_sound, sound_of_harmlessCut⟩

/-- An attempt whose crypto time is printed as `25.250`. -/
def sampleAttempt (startEpochMs : UInt64) (success : Bool) : Attempt where
  startEpochMs := startEpochMs
  result :=
    { timings := ⟨1234, 2000, 30250, 5000, 25250⟩
      bandwidth := ⟨20, 10, 40, 30, 2, 1⟩
      tcpStartEpochMs := startEpochMs + 2
      failureStage := if success then .none else .tlsHandshake
      errorCode := if success then 0 else -1001
      timedOut := !success }
  mqttUs := 4500
  success := success
  memory := ⟨1000, 100, 900, 800, 100, 900, 20, 10, 880, 256, 5, 3, 0, 4096, 500, 3596, false,
    false, 0, .idle⟩

/-- A success and a timeout. -/
def sampleBenchmark : Benchmark where
  scheme := .ecdsaP256
  board := ⟨"pico2_w".toList, List.forall_iff_forall_mem.mp (by decide), by decide⟩
  campaign := 1
  attempts := [sampleAttempt 1000 true, sampleAttempt 2000 false]
  length_lt := by decide

def samplePath : LogPath := ⟨"/tmp/capture.log".toList, by decide⟩

/-- After 1002 characters the second row ends in its crypto time and is read as a legacy row, a
success. -/
theorem cut_in_crypto_time_invents_row :
    ¬sampleBenchmark.TruncationSound samplePath 1002 := by
  intro h
  exact (harmlessCut_of_sound h).not_misread (by decide +kernel)

end Benchmark

end PqMqtt.Analysis
