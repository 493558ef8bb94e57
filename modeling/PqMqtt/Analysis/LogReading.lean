import PqMqtt.Analysis.CutRow

/-!
# Reading the lines of a log

What one line of the log does in the loops of `parse` and `incomplete_attempts`, and what the
complete lines of a campaign do together: every row line adds its row, and every start line adds
its entry.
-/

namespace PqMqtt.Analysis

open Delimited

/-! ## One line -/

section Line

variable {fields : List Text}

theorem strip_line (h : PlainFields fields) :
    strip ([','].intercalate fields) = [','].intercalate fields :=
  strip_of_forall h.isSpace_eq_false

/-- The line break of a line is stripped. -/
theorem parseLine_newline (h : PlainFields fields) (path : Text) (state : ParseState) :
    parseLine path state ([','].intercalate fields ++ ['\n'])
      = parseLine path state ([','].intercalate fields) := by
  unfold parseLine
  rw [strip_append_newline h.isSpace_eq_false, strip_line h]

theorem scanStart_newline (h : PlainFields fields) (starts : List (Key × Start)) :
    scanStart starts ([','].intercalate fields ++ ['\n'])
      = scanStart starts ([','].intercalate fields) := by
  have hbegins : startPrefix <+: [','].intercalate fields ++ ['\n'] ↔
      startPrefix <+: [','].intercalate fields := by
    constructor
    · intro hstarts
      rcases List.prefix_concat_iff.mp hstarts with heq | hin
      · have hnewline : '\n' ∈ startPrefix := by
          rw [heq]
          simp
        exact absurd hnewline (by decide)
      · exact hin
    · intro hstarts
      exact hstarts.trans (List.prefix_append _ _)
  unfold scanStart
  rw [strip_append_newline h.isSpace_eq_false, strip_line h]
  simp only [hbegins]

/-- The first field of a line with a comma is the given name. -/
def StartsWith (fields : List Text) (name : String) : Prop :=
  fields.head? = some name.toList ∧ 1 < fields.length

theorem headerPrefix_iff (h : PlainFields fields) :
    headerPrefix <+: [','].intercalate fields ↔ StartsWith fields "csv_hs_header" :=
  h.startsWith_iff (by decide)

theorem rowPrefix_iff (h : PlainFields fields) :
    rowPrefix <+: [','].intercalate fields ↔ StartsWith fields "csv_hs" :=
  h.startsWith_iff (by decide)

theorem startPrefix_iff (h : PlainFields fields) :
    startPrefix <+: [','].intercalate fields ↔ StartsWith fields "csv_hs_start" :=
  h.startsWith_iff (by decide)

theorem StartsWith.intercalate_ne_nil {name : String} (h : StartsWith fields name) :
    [','].intercalate fields ≠ [] := by
  obtain ⟨-, hlength⟩ := h
  match fields, hlength with
  | first :: second :: rest, _ => simp

/-- A line starts with one name at most. -/
theorem StartsWith.unique {first second : String} (hfirst : StartsWith fields first)
    (hsecond : StartsWith fields second) : first = second :=
  String.toList_injective (Option.some.inj (hfirst.1.symm.trans hsecond.1))

theorem parseLine_header (h : PlainFields fields) (hstarts : StartsWith fields "csv_hs_header")
    (path : Text) (state : ParseState) :
    parseLine path state ([','].intercalate fields)
      = .ok { state with header := some (fields.tail.map String.ofList) } := by
  unfold parseLine
  rw [strip_line h]
  simp only [if_pos ((headerPrefix_iff h).mpr hstarts), h.csvReader_eq hstarts.intercalate_ne_nil,
    bind, Except.bind]

/-- A line that is neither a header nor a row is passed over. -/
theorem parseLine_other (h : PlainFields fields) (hheader : ¬StartsWith fields "csv_hs_header")
    (hrow : ¬StartsWith fields "csv_hs") (path : Text) (state : ParseState) :
    parseLine path state ([','].intercalate fields) = .ok state := by
  unfold parseLine
  rw [strip_line h]
  simp only [headerPrefix_iff h, rowPrefix_iff h, hheader, hrow, if_false, not_false_eq_true,
    if_true]

theorem parseLine_row (h : PlainFields fields) (hstarts : StartsWith fields "csv_hs")
    (path : Text) (state : ParseState) :
    parseLine path state ([','].intercalate fields) = parseRow path state fields := by
  have hheader : ¬StartsWith fields "csv_hs_header" := fun hother ↦
    absurd (hstarts.unique hother) (by decide)
  unfold parseLine
  rw [strip_line h]
  simp only [headerPrefix_iff h, rowPrefix_iff h, hheader, hstarts, if_false, not_true_eq_false,
    h.csvReader_eq hstarts.intercalate_ne_nil, bind, Except.bind]

theorem scanStart_other (h : PlainFields fields) (hstart : ¬StartsWith fields "csv_hs_start")
    (starts : List (Key × Start)) :
    scanStart starts ([','].intercalate fields) = .ok starts := by
  unfold scanStart
  simp only [startPrefix_iff h, hstart, not_false_eq_true, if_true]

theorem scanStart_start (h : PlainFields fields) (hstart : StartsWith fields "csv_hs_start")
    (starts : List (Key × Start)) :
    scanStart starts ([','].intercalate fields) = addStart starts fields := by
  unfold scanStart
  simp only [startPrefix_iff h, hstart, not_true_eq_false, if_false, strip_line h,
    h.csvReader_eq hstart.intercalate_ne_nil, bind, Except.bind]

theorem plainFields_nil : PlainFields [] := by
  simp [PlainFields]

theorem parseLine_nil (path : Text) (state : ParseState) : parseLine path state [] = .ok state :=
  parseLine_other plainFields_nil (by simp [StartsWith]) (by simp [StartsWith]) path state

theorem scanStart_nil (starts : List (Key × Start)) : scanStart starts [] = .ok starts :=
  scanStart_other plainFields_nil (by simp [StartsWith]) starts

/-- The lines of a file of plain lines, whose last line may be unfinished. -/
theorem readLines_unlines_plain {lines : List (List Text)}
    (hplain : ∀ fields ∈ lines, PlainFields fields) {rest : Text}
    (hrest : ∀ c ∈ rest, isSpace c = false) :
    readLines (universalNewlines (unlines '\n' (lines.map [','].intercalate) ++ rest))
      = lines.map (fun fields ↦ [','].intercalate fields ++ ['\n'])
        ++ if rest = [] then [] else [rest] := by
  have hreturn : '\r' ∉ unlines '\n' (lines.map [','].intercalate) ++ rest := by
    intro hmem
    rw [List.mem_append, unlines, List.mem_flatMap] at hmem
    rcases hmem with ⟨line, hline, hin⟩ | hin
    · obtain ⟨fields, hfields, rfl⟩ := List.mem_map.mp hline
      rcases List.mem_append.mp hin with htext | hend
      · exact (hplain fields hfields).return_notMem htext
      · exact absurd (List.mem_singleton.mp hend) (by decide)
    · exact absurd (hrest _ hin) (by decide)
  have hnewlines : ∀ line ∈ lines.map [','].intercalate, '\n' ∉ line := by
    intro line hline
    obtain ⟨fields, hfields, rfl⟩ := List.mem_map.mp hline
    exact (hplain fields hfields).newline_notMem
  have hlast : '\n' ∉ rest := fun hin ↦ absurd (hrest _ hin) (by decide)
  rw [universalNewlines_of_notMem hreturn, readLines_unlines_append hnewlines hlast, List.map_map]
  rfl

/-- A loop over a file of plain lines, whose last line may be unfinished. -/
theorem foldlM_readLines_unlines {σ : Type} (step : σ → Text → Except PyError σ)
    (hnewline : ∀ fields, PlainFields fields → ∀ state,
      step state ([','].intercalate fields ++ ['\n']) = step state ([','].intercalate fields))
    (hempty : ∀ state, step state [] = .ok state) {lines : List (List Text)}
    (hplain : ∀ fields ∈ lines, PlainFields fields) {rest : Text}
    (hrest : ∀ c ∈ rest, isSpace c = false) (initial : σ) :
    (readLines (universalNewlines
        (unlines '\n' (lines.map [','].intercalate) ++ rest))).foldlM step initial
      = lines.foldlM (fun state fields ↦ step state ([','].intercalate fields)) initial
        >>= fun state ↦ step state rest := by
  rw [readLines_unlines_plain hplain hrest, List.foldlM_append, List.foldlM_map]
  congr 1
  · exact foldlM_congr _ _ fun fields hfields state ↦ hnewline fields (hplain fields hfields) state
  · funext state
    split
    · rename_i hnil
      rw [hnil, hempty]
      rfl
    · simp

/-- A loop over a file of complete plain lines. -/
theorem foldlM_readLines_complete {σ : Type} (step : σ → Text → Except PyError σ)
    (hnewline : ∀ fields, PlainFields fields → ∀ state,
      step state ([','].intercalate fields ++ ['\n']) = step state ([','].intercalate fields))
    (hempty : ∀ state, step state [] = .ok state) {lines : List (List Text)}
    (hplain : ∀ fields ∈ lines, PlainFields fields) (initial : σ) :
    (readLines (universalNewlines
        (unlines '\n' (lines.map [','].intercalate)))).foldlM step initial
      = lines.foldlM (fun state fields ↦ step state ([','].intercalate fields)) initial := by
  have hrest : ∀ c ∈ ([] : Text), isSpace c = false := List.forall_mem_nil _
  have hloop := foldlM_readLines_unlines step hnewline hempty hplain hrest initial
  have hpure : (fun state ↦ step state []) = pure := funext hempty
  rw [List.append_nil, hpure, bind_pure] at hloop
  exact hloop

/-- A line that is cut after a comma starts like the whole line. -/
theorem startsWith_take_iff {count : ℕ} {piece field : Text} (hfield : fields[count]? = some field)
    (name : String) :
    StartsWith (fields.take count ++ [piece]) name ↔
      0 < count ∧ fields.head? = some name.toList := by
  obtain ⟨hlt, -⟩ := List.getElem?_eq_some_iff.mp hfield
  have hlength : (fields.take count ++ [piece]).length = count + 1 := by
    rw [List.length_append, List.length_take, List.length_singleton, Nat.min_eq_left hlt.le]
  unfold StartsWith
  rw [hlength]
  cases count with
  | zero => simp
  | succ count =>
    cases fields with
    | nil => simp at hlt
    | cons first others => simp

end Line

namespace Benchmark

variable (benchmark : Benchmark) (measured : MeasuredRun)

/-! ## The lines of a campaign -/

theorem rowLine_startsWith : StartsWith (benchmark.rowLine measured) "csv_hs" :=
  ⟨rfl, by simp [rowLine, fields]⟩

theorem startLine_startsWith : StartsWith (benchmark.startLine measured) "csv_hs_start" :=
  ⟨rfl, by simp [startLine, startFields]⟩

theorem headerLine_startsWith : StartsWith headerLine "csv_hs_header" :=
  ⟨rfl, by simp [headerLine, columnNames]⟩

theorem headerLine_columns : headerLine.tail.map String.ofList = columnNames := by
  have hcolumn : String.ofList ∘ String.toList = id := by
    funext name
    exact String.ofList_toList
  rw [headerLine, List.tail_cons, List.map_map, hcolumn, List.map_id]

/-- The row as it is read. -/
def readRow (path : Text) : Dict Value := benchmark.rowWith measured Field.read path

/-- After the header a row line adds its row. -/
theorem parseLine_rowLine (path : Text) (rows : List (Dict Value)) :
    parseLine path ⟨some columnNames, rows⟩ ([','].intercalate (benchmark.rowLine measured))
      = .ok ⟨some columnNames, rows ++ [benchmark.readRow measured path]⟩ := by
  have hlayout : layout (some columnNames) (benchmark.rowLine measured)
      = some (benchmark.rawRow measured, false) := rfl
  rw [parseLine_row (benchmark.rowLine_plain measured) (benchmark.rowLine_startsWith measured)]
  simp only [parseRow, hlayout, benchmark.normalize_rawRow measured path, readRow]

theorem parseLine_startLine (path : Text) (state : ParseState) :
    parseLine path state ([','].intercalate (benchmark.startLine measured)) = .ok state := by
  apply parseLine_other (benchmark.startLine_plain measured)
  · intro hother
    exact absurd ((benchmark.startLine_startsWith measured).unique hother) (by decide)
  · intro hother
    exact absurd ((benchmark.startLine_startsWith measured).unique hother) (by decide)

/-- The key of an attempt. -/
def startKey : Key :=
  ⟨benchmark.scheme.name.toList, benchmark.board.name, benchmark.campaign.toInt, measured.run⟩

/-- The entry of an attempt in the report. -/
def startOf : Start :=
  ⟨benchmark.scheme.name.toList, benchmark.board.name, benchmark.campaign.toInt, measured.run,
    measured.attempt.startEpochMs.toNat, "hang_reset_or_truncated_capture"⟩

/-- A row is done under the key of its attempt, however its numbers are read. -/
theorem doneKey_rowWith (hrun : measured.run < 2 ^ 31) {read : Field → Value}
    (hname : ∀ text, read (.name text) = .str text)
    (hsigned : ∀ value, read (.signed value) = .int value.toInt) (path : Text) :
    doneKey (benchmark.rowWith measured read path) = .ok (some (benchmark.startKey measured)) := by
  have hscheme : ("scheme", Field.name benchmark.scheme.name.toList)
      ∈ columnNames.zip (benchmark.fields measured) := List.mem_of_getElem? (i := 0) rfl
  have hboard : ("board", Field.name benchmark.board.name)
      ∈ columnNames.zip (benchmark.fields measured) := List.mem_of_getElem? (i := 1) rfl
  have hcampaign : ("campaign", Field.signed benchmark.campaign)
      ∈ columnNames.zip (benchmark.fields measured) := List.mem_of_getElem? (i := 2) rfl
  rw [doneKey, rowWith_run, rowWith_of_mem _ _ _ _ hscheme (by decide) (by decide),
    rowWith_of_mem _ _ _ _ hboard (by decide) (by decide),
    rowWith_of_mem _ _ _ _ hcampaign (by decide) (by decide)]
  simp only [hname, hsigned, Int32.toInt_ofNat_of_lt hrun, startKey]

theorem doneKey_rowOf (hrun : measured.run < 2 ^ 31) (path : Text) :
    doneKey (benchmark.rowOf measured path) = .ok (some (benchmark.startKey measured)) :=
  benchmark.doneKey_rowWith measured hrun (fun _ ↦ rfl) (fun _ ↦ rfl) path

theorem doneKey_readRow (hrun : measured.run < 2 ^ 31) (path : Text) :
    doneKey (benchmark.readRow measured path) = .ok (some (benchmark.startKey measured)) :=
  benchmark.doneKey_rowWith measured hrun (fun _ ↦ rfl) (fun _ ↦ rfl) path

theorem parseBool_zero : parseBool (Field.format (.flag false)) = 0 := by decide

/-- A start line adds its entry. -/
theorem scanStart_startLine (hrun : measured.run < 2 ^ 31) (starts : List (Key × Start)) :
    scanStart starts ([','].intercalate (benchmark.startLine measured))
      = .ok (insertStart starts (benchmark.startKey measured) (benchmark.startOf measured)) := by
  have hstarts := benchmark.startLine_startsWith measured
  have hplain := benchmark.startLine_plain measured
  have hnumber : pyInt (formatD measured.run) = .ok (measured.run : ℤ) :=
    pyInt_formatD (by omega)
  rw [scanStart_start hplain hstarts]
  simp only [addStart, startLine, startFields, List.map_cons, List.map_nil, parseBool_zero,
    zero_ne_one, if_false]
  simp only [Field.format, pyInt_formatD (natAbs_toInt_lt _), pyInt_formatU (UInt64.toNat_lt _),
    bind, Except.bind, Int32.toInt_ofNat_of_lt hrun, hnumber]
  rfl

theorem scanStart_rowLine (starts : List (Key × Start)) :
    scanStart starts ([','].intercalate (benchmark.rowLine measured)) = .ok starts := by
  apply scanStart_other (benchmark.rowLine_plain measured)
  intro hother
  exact absurd ((benchmark.rowLine_startsWith measured).unique hother) (by decide)

/-! ## Complete lines -/

variable {measured}

theorem run_of_getElem? {index : ℕ} (h : benchmark.runs[index]? = some measured) :
    measured.run = index := by
  rw [runs, List.getElem?_map, List.getElem?_zipIdx] at h
  obtain ⟨pair, hpair, rfl⟩ := Option.map_eq_some_iff.mp h
  obtain ⟨attempt, -, rfl⟩ := Option.map_eq_some_iff.mp hpair
  simp

theorem run_of_getElem?_take {count index : ℕ}
    (h : (benchmark.runs.take count)[index]? = some measured) : measured.run = index := by
  rw [List.getElem?_take] at h
  split at h
  · exact benchmark.run_of_getElem? h
  · cases h

theorem length_runs : benchmark.runs.length = benchmark.attempts.length := by
  simp [runs]

/-- An attempt is found under its number. -/
theorem mem_runs_iff :
    measured ∈ benchmark.runs ↔ benchmark.runs[measured.run]? = some measured := by
  constructor
  · intro h
    obtain ⟨index, hindex⟩ := List.mem_iff_getElem?.mp h
    rw [benchmark.run_of_getElem? hindex, hindex]
  · intro h
    exact List.mem_of_getElem? h

theorem run_lt (h : measured ∈ benchmark.runs) : measured.run < 2 ^ 31 := by
  obtain ⟨hlt, -⟩ := List.getElem?_eq_some_iff.mp (benchmark.mem_runs_iff.mp h)
  rw [length_runs] at hlt
  exact hlt.trans benchmark.length_lt

/-- Attempts with the same number are the same. -/
theorem eq_of_run_eq {other : MeasuredRun} (h : measured ∈ benchmark.runs)
    (hother : other ∈ benchmark.runs) (hrun : measured.run = other.run) : measured = other := by
  have hfirst := benchmark.mem_runs_iff.mp h
  rw [hrun, benchmark.mem_runs_iff.mp hother] at hfirst
  exact (Option.some.inj hfirst).symm

theorem mem_take_runs_iff {count : ℕ} :
    measured ∈ benchmark.runs.take count ↔ measured ∈ benchmark.runs ∧ measured.run < count := by
  constructor
  · intro h
    refine ⟨List.mem_of_mem_take h, ?_⟩
    obtain ⟨index, hindex⟩ := List.mem_iff_getElem?.mp h
    obtain ⟨hlt, -⟩ := List.getElem?_eq_some_iff.mp hindex
    rw [benchmark.run_of_getElem?_take hindex]
    exact hlt.trans_le (List.length_take_le _ _)
  · rintro ⟨hmem, hlt⟩
    apply List.mem_of_getElem? (i := measured.run)
    rw [List.getElem?_take, if_pos hlt, benchmark.mem_runs_iff.mp hmem]

theorem map_run_runs :
    benchmark.runs.map MeasuredRun.run = List.range' 0 benchmark.attempts.length := by
  rw [runs, List.map_map, ← List.zipIdx_map_snd]
  rfl

/-- Different attempts have different keys. -/
theorem startKey_nodup : (benchmark.runs.map benchmark.startKey).Nodup := by
  apply List.Nodup.of_map Key.run
  have hrun : (benchmark.runs.map benchmark.startKey).map Key.run
      = (List.range' 0 benchmark.attempts.length).map fun run : ℕ ↦ (run : ℤ) := by
    rw [← benchmark.map_run_runs, List.map_map, List.map_map]
    rfl
  rw [hrun]
  exact List.Nodup.map Nat.cast_injective (by simp [List.nodup_range'])

/-- The lines of an attempt. -/
def attemptLines (measured : MeasuredRun) : List (List Text) :=
  [benchmark.startLine measured, benchmark.rowLine measured]

/-- The first lines of some attempts add the rows of those whose row line is among them. -/
theorem foldlM_parseLine (path : Text) (measured : List MeasuredRun) (count : ℕ)
    (rows : List (Dict Value)) :
    ((measured.flatMap benchmark.attemptLines).take count).foldlM
        (fun state fields ↦ parseLine path state ([','].intercalate fields))
        ⟨some columnNames, rows⟩
      = .ok ⟨some columnNames,
          rows ++ (measured.take (count / 2)).map (benchmark.readRow · path)⟩ := by
  induction measured generalizing count rows with
  | nil => simp [pure, Except.pure]
  | cons first rest ih =>
    match count with
    | 0 => simp [pure, Except.pure]
    | 1 =>
      simp only [List.flatMap_cons, attemptLines, List.cons_append, List.take_succ_cons,
        List.take_zero, List.foldlM_cons, List.foldlM_nil, benchmark.parseLine_startLine]
      simp [bind, Except.bind, pure, Except.pure]
    | count + 2 =>
      have hhalf : (count + 2) / 2 = count / 2 + 1 := by omega
      simp only [List.flatMap_cons, attemptLines, List.cons_append, List.nil_append,
        List.take_succ_cons, List.foldlM_cons, benchmark.parseLine_startLine,
        benchmark.parseLine_rowLine, hhalf, bind, Except.bind]
      rw [ih, List.map_cons, List.append_assoc, List.singleton_append]

theorem insertStart_of_notMem {starts : List (Key × Start)} {key : Key}
    (h : key ∉ starts.map Prod.fst) (start : Start) :
    insertStart starts key start = starts ++ [(key, start)] := by
  apply if_neg
  simp only [List.any_eq_true, decide_eq_true_eq, not_exists, not_and]
  intro entry hentry heq
  exact h (heq ▸ List.mem_map_of_mem hentry)

/-- The entry of an attempt under its key. -/
def entry (measured : MeasuredRun) : Key × Start :=
  (benchmark.startKey measured, benchmark.startOf measured)

/-- The first lines of some attempts add the entries of those whose start line is among them. -/
theorem foldlM_scanStart (measured : List MeasuredRun) (count : ℕ) (starts : List (Key × Start))
    (hrun : ∀ first ∈ measured, first.run < 2 ^ 31)
    (hnodup : (starts.map Prod.fst ++ measured.map benchmark.startKey).Nodup) :
    ((measured.flatMap benchmark.attemptLines).take count).foldlM
        (fun starts fields ↦ scanStart starts ([','].intercalate fields)) starts
      = .ok (starts ++ (measured.take ((count + 1) / 2)).map benchmark.entry) := by
  induction measured generalizing count starts with
  | nil => simp [pure, Except.pure]
  | cons first rest ih =>
    rw [List.forall_mem_cons] at hrun
    have hnew : benchmark.startKey first ∉ starts.map Prod.fst := by
      intro hmem
      exact (List.nodup_append.mp hnodup).2.2 _ hmem _ (by simp) rfl
    have hstart := benchmark.scanStart_startLine first hrun.1 starts
    rw [insertStart_of_notMem hnew] at hstart
    match count with
    | 0 => simp [pure, Except.pure]
    | 1 =>
      simp only [List.flatMap_cons, attemptLines, List.cons_append, List.take_succ_cons,
        List.take_zero, List.foldlM_cons, List.foldlM_nil, hstart]
      simp [bind, Except.bind, pure, Except.pure, entry]
    | count + 2 =>
      have hhalf : (count + 2 + 1) / 2 = (count + 1) / 2 + 1 := by omega
      simp only [List.flatMap_cons, attemptLines, List.cons_append, List.nil_append,
        List.take_succ_cons, List.foldlM_cons, hstart, benchmark.scanStart_rowLine, hhalf, bind,
        Except.bind]
      rw [ih _ _ hrun.2 (by simpa [List.append_assoc] using hnodup), List.map_cons,
        List.append_assoc, List.singleton_append]
      rfl

end Benchmark

end PqMqtt.Analysis
