import PqMqtt.Analysis.RepeatedCampaign

/-!
# Records among notes

The firmware prints its records between lines for a reader.  A line whose first word is none of
the three that `parse` and `incomplete_attempts` look for is passed over, so that both read from a
file what they read from its records.
-/

namespace PqMqtt.Analysis

open Delimited

/-- A line of the serial output: a record of plain fields, or a note for a reader. -/
inductive OutputLine where
  | record (fields : List Text)
  | note (text : Text)

namespace OutputLine

def text : OutputLine → Text
  | record fields => [','].intercalate fields
  | note text => text

def fields? : OutputLine → Option (List Text)
  | record fields => some fields
  | note _ => none

end OutputLine

/-- The text stays on its line. -/
def OnOneLine (text : Text) : Prop := ∀ c ∈ text, c ≠ '\n' ∧ c ≠ '\r'

instance (text : Text) : Decidable (OnOneLine text) := List.decidableBAll _ text

/-- The first word of a note differs from the words of the records. -/
def OtherWord (word : Text) : Prop :=
  (∃ c ∈ word.head?, isSpace c = false) ∧
    ∀ known ∈ [headerPrefix, rowPrefix, startPrefix], ¬known <+: word ∧ ¬word <+: known

instance (word : Text) : Decidable (OtherWord word) :=
  @instDecidableAnd _ _ (Option.decidableExistsMem _) inferInstance

/-- A note that both loops pass over: an empty line, or blanks, another word and a rest. -/
def PassedOver (text : Text) : Prop :=
  OnOneLine text ∧
    (text = [] ∨ ∃ indent word rest, OtherWord word ∧
      text = List.replicate indent ' ' ++ (word ++ rest))

theorem OnOneLine.append {first second : Text} (hfirst : OnOneLine first)
    (hsecond : OnOneLine second) : OnOneLine (first ++ second) :=
  fun c hc ↦ (List.mem_append.mp hc).elim (hfirst c) (hsecond c)

theorem OnOneLine.flatten {parts : List Text} (h : ∀ part ∈ parts, OnOneLine part) :
    OnOneLine parts.flatten := by
  intro c hc
  obtain ⟨part, hpart, hmem⟩ := List.mem_flatten.mp hc
  exact h part hpart c hmem

/-- A plain field stays on its line. -/
theorem PlainField.onOneLine {field : Text} (h : PlainField field) : OnOneLine field := by
  intro c hc
  have hlow : 0x21 ≤ c.toNat := (h.plain c hc).1
  constructor
  · rintro rfl
    exact absurd hlow (by decide)
  · rintro rfl
    exact absurd hlow (by decide)

theorem onOneLine_of_isDigit {text : Text} (h : ∀ c ∈ text, c.isDigit = true) :
    OnOneLine text :=
  fun c hc ↦ forall_isDigit (p := fun c ↦ c ≠ '\n' ∧ c ≠ '\r') (by decide) (h c hc)

@[simp]
theorem onOneLine_formatU (n : ℕ) : OnOneLine (formatU n) :=
  onOneLine_of_isDigit (formatU_isDigit n)

@[simp]
theorem onOneLine_formatD (n : ℤ) : OnOneLine (formatD n) := by
  have hminus : OnOneLine ['-'] := by decide
  unfold formatD
  split
  · exact hminus.append (onOneLine_formatU _)
  · exact onOneLine_formatU _

/-- A note that begins with another word. -/
theorem passedOver_flatten {word : Text} (hword : OtherWord word) {parts : List Text}
    (h : ∀ part ∈ word :: parts, OnOneLine part) : PassedOver (word :: parts).flatten :=
  ⟨.flatten h, Or.inr ⟨0, word, parts.flatten, hword, rfl⟩⟩

/-- A note that is indented. -/
theorem passedOver_indented {word : Text} (hword : OtherWord word) {parts : List Text}
    (h : ∀ part ∈ word :: parts, OnOneLine part) :
    PassedOver ("    ".toList :: word :: parts).flatten := by
  have hblanks : OnOneLine "    ".toList := by decide
  exact ⟨.flatten (List.forall_mem_cons.mpr ⟨hblanks, h⟩),
    Or.inr ⟨4, word, parts.flatten, hword, rfl⟩⟩

theorem passedOver_nil : PassedOver [] := ⟨by decide, Or.inl rfl⟩

/-- The lines of an output are plain records and notes that are passed over. -/
def OutputLine.WellFormed : OutputLine → Prop
  | record fields => PlainFields fields
  | note text => PassedOver text

/-! ## One line -/

section Line

variable {word rest known : Text}

/-- What begins with another word begins with none of the known ones. -/
theorem not_prefix_of_otherWord (hword : OtherWord word)
    (hknown : known ∈ [headerPrefix, rowPrefix, startPrefix]) {text : Text}
    (htext : text <+: word ++ rest) : ¬known <+: text := by
  intro hbegins
  have hboth := hword.2 known hknown
  rcases List.prefix_or_prefix_of_prefix (hbegins.trans htext) (List.prefix_append word rest) with
    hin | hbeyond
  · exact hboth.1 hin
  · exact hboth.2 hbeyond

/-- Blanks before a word are stripped, and the end of the line may be. -/
theorem prefix_of_strip (hword : OtherWord word) (indent : ℕ) :
    strip (List.replicate indent ' ' ++ (word ++ rest)) <+: word ++ rest := by
  obtain ⟨⟨c, hhead, hspace⟩, -⟩ := hword
  obtain ⟨others, rfl⟩ : ∃ others, word = c :: others := by
    cases word with
    | nil => cases hhead
    | cons first others => exact ⟨others, by rw [Option.some.inj hhead]⟩
  have hblank : ∀ blank ∈ List.replicate indent ' ', isSpace blank = true := by
    intro blank hblank
    rw [List.eq_of_mem_replicate hblank]
    decide
  have hdrop : (List.replicate indent ' ' ++ (c :: others ++ rest)).dropWhile isSpace
      = c :: others ++ rest := by
    rw [List.dropWhile_append_of_pos hblank]
    exact List.dropWhile_cons_of_neg (ne_true_of_eq_false hspace)
  rw [strip, hdrop]
  exact List.rdropWhile_prefix isSpace _

theorem parseLine_of_otherWord (hword : OtherWord word) (indent : ℕ) (path : Text)
    (state : ParseState) :
    parseLine path state (List.replicate indent ' ' ++ (word ++ rest)) = .ok state := by
  have hstrip : strip (List.replicate indent ' ' ++ (word ++ rest)) <+: word ++ rest :=
    prefix_of_strip hword indent
  have hheader : ¬headerPrefix <+: strip (List.replicate indent ' ' ++ (word ++ rest)) :=
    not_prefix_of_otherWord hword (by simp) hstrip
  have hrow : ¬rowPrefix <+: strip (List.replicate indent ' ' ++ (word ++ rest)) :=
    not_prefix_of_otherWord hword (by simp) hstrip
  unfold parseLine
  simp only [hheader, hrow, if_false, not_false_eq_true, if_true]

theorem scanStart_of_otherWord (hword : OtherWord word) (indent : ℕ)
    (starts : List (Key × Start)) :
    scanStart starts (List.replicate indent ' ' ++ (word ++ rest)) = .ok starts := by
  apply if_pos
  intro hbegins
  cases indent with
  | zero =>
    have hstart : ¬startPrefix <+: word ++ rest :=
      not_prefix_of_otherWord hword (by simp) (List.prefix_refl _)
    exact hstart hbegins
  | succ indent =>
    rw [List.replicate_succ, List.cons_append] at hbegins
    exact absurd (List.cons_prefix_cons.mp hbegins).1 (by decide)

end Line

namespace PassedOver

variable {text : Text}

theorem parseLine (h : PassedOver text) (path : Text) (state : ParseState) :
    Analysis.parseLine path state (text ++ ['\n']) = .ok state := by
  obtain ⟨-, rfl | ⟨indent, word, rest, hword, rfl⟩⟩ := h
  · have hnewline := parseLine_newline plainFields_nil path state
    exact hnewline.trans (parseLine_nil path state)
  · rw [List.append_assoc, List.append_assoc]
    exact parseLine_of_otherWord hword indent path state

theorem scanStart (h : PassedOver text) (starts : List (Key × Start)) :
    Analysis.scanStart starts (text ++ ['\n']) = .ok starts := by
  obtain ⟨-, rfl | ⟨indent, word, rest, hword, rfl⟩⟩ := h
  · exact (scanStart_newline plainFields_nil starts).trans (scanStart_nil starts)
  · rw [List.append_assoc, List.append_assoc]
    exact scanStart_of_otherWord hword indent starts

end PassedOver

/-! ## A file -/

section File

variable {lines : List OutputLine} (h : ∀ line ∈ lines, line.WellFormed)

include h

theorem OutputLine.onOneLine : ∀ line ∈ lines, OnOneLine line.text := by
  intro line hline
  have hformed := h line hline
  cases line with
  | note text => exact hformed.1
  | record fields =>
    have hplain : PlainFields fields := hformed
    intro c hc
    constructor
    · rintro rfl
      exact hplain.newline_notMem hc
    · rintro rfl
      exact hplain.return_notMem hc

/-- The lines of a file that was printed line by line. -/
theorem readLines_output :
    readLines (universalNewlines (unlines '\n' (lines.map OutputLine.text)))
      = lines.map fun line ↦ line.text ++ ['\n'] := by
  have hone := OutputLine.onOneLine h
  have hreturn : '\r' ∉ unlines '\n' (lines.map OutputLine.text) := by
    intro hmem
    rw [unlines, List.mem_flatMap] at hmem
    obtain ⟨text, htext, hin⟩ := hmem
    obtain ⟨line, hline, rfl⟩ := List.mem_map.mp htext
    rcases List.mem_append.mp hin with htext | hend
    · exact (hone line hline _ htext).2 rfl
    · exact absurd (List.mem_singleton.mp hend) (by decide)
  have hnewline : ∀ text ∈ lines.map OutputLine.text, '\n' ∉ text := by
    intro text htext hmem
    obtain ⟨line, hline, rfl⟩ := List.mem_map.mp htext
    exact (hone line hline _ hmem).1 rfl
  have hlines := readLines_unlines_append hnewline List.not_mem_nil
  rw [List.append_nil] at hlines
  rw [universalNewlines_of_notMem hreturn, hlines, List.map_map, if_pos rfl, List.append_nil]
  rfl

/-- A loop that passes over the notes is a loop over the records. -/
theorem foldlM_readLines_output {σ : Type} (step : σ → Text → Except PyError σ)
    (hnewline : ∀ fields, PlainFields fields → ∀ state,
      step state ([','].intercalate fields ++ ['\n']) = step state ([','].intercalate fields))
    (hnote : ∀ text, PassedOver text → ∀ state, step state (text ++ ['\n']) = .ok state)
    (initial : σ) :
    (readLines (universalNewlines (unlines '\n' (lines.map OutputLine.text)))).foldlM step initial
      = (lines.filterMap OutputLine.fields?).foldlM
          (fun state fields ↦ step state ([','].intercalate fields)) initial := by
  rw [readLines_output h, List.foldlM_map]
  induction lines generalizing initial with
  | nil => rfl
  | cons line lines ih =>
    obtain ⟨hline, hlines⟩ := List.forall_mem_cons.mp h
    rw [List.foldlM_cons]
    cases line with
    | note text =>
      have hpass : step initial ((OutputLine.note text).text ++ ['\n']) = .ok initial :=
        hnote text hline initial
      have hfields : OutputLine.fields? (.note text) = none := rfl
      rw [hpass, List.filterMap_cons_none hfields]
      exact ih hlines initial
    | record fields =>
      have hplain : PlainFields fields := hline
      have hfields : OutputLine.fields? (.record fields) = some fields := rfl
      rw [List.filterMap_cons_some hfields, List.foldlM_cons]
      congr 1
      · exact hnewline fields hplain initial
      · funext state
        exact ih hlines state

/-- The host reads from a file what it reads from a file with the records only. -/
theorem analyze_output {records : List (List Text)}
    (hrecords : lines.filterMap OutputLine.fields? = records) (path : LogPath) :
    analyze [⟨path, unlines '\n' (lines.map OutputLine.text)⟩]
      = analyze [⟨path, unlines '\n' (records.map [','].intercalate)⟩] := by
  have hplain : ∀ fields ∈ records, PlainFields fields := by
    intro fields hfields
    rw [← hrecords, List.mem_filterMap] at hfields
    obtain ⟨line, hline, hsome⟩ := hfields
    cases line with
    | note text => cases hsome
    | record own =>
      obtain rfl := Option.some.inj hsome
      exact h _ hline
  have hparse := foldlM_readLines_output h (Analysis.parseLine path.text)
    (fun fields hfields state ↦ parseLine_newline hfields path.text state)
    (fun text htext state ↦ htext.parseLine path.text state) ⟨none, []⟩
  have hscan := foldlM_readLines_output h Analysis.scanStart
    (fun fields hfields state ↦ scanStart_newline hfields state)
    (fun text htext state ↦ htext.scanStart state) []
  have hparse' := foldlM_readLines_complete (Analysis.parseLine path.text)
    (fun fields hfields state ↦ parseLine_newline hfields path.text state)
    (parseLine_nil path.text) hplain ⟨none, []⟩
  have hscan' := foldlM_readLines_complete Analysis.scanStart
    (fun fields hfields state ↦ scanStart_newline hfields state) scanStart_nil hplain []
  rw [hrecords] at hparse hscan
  simp only [analyze, parse, parseFile, incompleteAttempts, List.foldlM_cons, List.foldlM_nil,
    hparse, hscan, hparse', hscan']

end File

/-! ## A complete campaign -/

namespace Benchmark

variable (benchmark : Benchmark)

theorem flatMap_take_all (runs : List MeasuredRun) :
    (runs.flatMap benchmark.attemptLines).take (2 * runs.length)
      = runs.flatMap benchmark.attemptLines := by
  apply List.take_of_length_le
  simp only [List.length_flatMap, attemptLines, List.length_cons, List.length_nil, zero_add,
    List.map_const', List.sum_replicate, Nat.nsmul_eq_mul, Nat.reduceAdd]
  exact (Nat.mul_comm _ _).le

/-- Every attempt has its row. -/
theorem parse_serial (hne : benchmark.attempts ≠ []) (path : LogPath) :
    parse [⟨path, benchmark.serial⟩] = .ok (benchmark.runs.map (benchmark.readRow · path.text)) := by
  have hheader := parseLine_header headerLine_plain headerLine_startsWith path.text ⟨none, []⟩
  have hloop := foldlM_readLines_complete (parseLine path.text)
    (fun fields hfields state ↦ parseLine_newline hfields path.text state)
    (parseLine_nil path.text) benchmark.lines_plain ⟨none, []⟩
  have hrows := benchmark.foldlM_parseLine path.text benchmark.runs (2 * benchmark.runs.length) []
  have hhalf : 2 * benchmark.runs.length / 2 = benchmark.runs.length := by omega
  rw [benchmark.flatMap_take_all, hhalf, List.take_length, List.nil_append] at hrows
  have hread : (readLines (universalNewlines benchmark.serial)).foldlM (parseLine path.text)
        ⟨none, []⟩
      = .ok ⟨some columnNames, benchmark.runs.map (benchmark.readRow · path.text)⟩ := by
    refine hloop.trans ?_
    rw [lines, List.foldlM_cons, hheader, headerLine_columns]
    exact hrows
  have hfound : (benchmark.runs.map (benchmark.readRow · path.text)).isEmpty = false := by
    rw [List.isEmpty_eq_false_iff, ne_eq, List.map_eq_nil_iff, ← List.length_eq_zero_iff,
      length_runs, List.length_eq_zero_iff]
    exact hne
  simp only [parse, List.foldlM_cons, List.foldlM_nil, parseFile, bind, Except.bind, hread, pure,
    Except.pure, hfound, Bool.false_eq_true, if_false]

/-- No attempt is missing. -/
theorem incompleteAttempts_serial (path : LogPath) :
    incompleteAttempts [⟨path, benchmark.serial⟩]
      (benchmark.runs.map (benchmark.readRow · path.text)) = .ok [] := by
  have hrun : ∀ measured ∈ benchmark.runs, measured.run < 2 ^ 31 := fun _ ↦ benchmark.run_lt
  have hloop := foldlM_readLines_complete scanStart
    (fun fields hfields state ↦ scanStart_newline hfields state) scanStart_nil
    benchmark.lines_plain []
  have hheader : scanStart [] ([','].intercalate headerLine) = .ok [] := by
    apply scanStart_other headerLine_plain
    intro hother
    exact absurd (headerLine_startsWith.unique hother) (by decide)
  have hstarts := benchmark.foldlM_scanStart benchmark.runs (2 * benchmark.runs.length) [] hrun
    benchmark.startKey_nodup
  have hhalf : (2 * benchmark.runs.length + 1) / 2 = benchmark.runs.length := by omega
  rw [benchmark.flatMap_take_all, hhalf, List.take_length, List.nil_append] at hstarts
  have hread : (readLines (universalNewlines benchmark.serial)).foldlM scanStart []
      = .ok (benchmark.runs.map benchmark.entry) := by
    refine hloop.trans ?_
    rw [lines, List.foldlM_cons, hheader]
    exact hstarts
  have hdone : (benchmark.runs.map (benchmark.readRow · path.text)).mapM doneKey
      = .ok (benchmark.runs.map (some <| benchmark.startKey ·)) :=
    @RepeatedCapture.mapM_doneKey_readRow
      ⟨benchmark.scheme, benchmark.board, benchmark.campaign, _, benchmark.length_lt⟩ path.text _
      hrun
  have hnone : ((benchmark.runs.map benchmark.entry).mergeSort
      fun first second ↦ first.1.le second.1).filter
        (fun entry ↦ some entry.1 ∉ benchmark.runs.map (some <| benchmark.startKey ·)) = [] := by
    rw [List.filter_eq_nil_iff]
    intro entry hentry
    rw [List.mem_mergeSort] at hentry
    obtain ⟨measured, hmeasured, rfl⟩ := List.mem_map.mp hentry
    have hmem : some (benchmark.entry measured).1
        ∈ benchmark.runs.map (some <| benchmark.startKey ·) := List.mem_map_of_mem hmeasured
    simp [hmem]
  simp only [incompleteAttempts, List.foldlM_cons, List.foldlM_nil, bind, Except.bind, hread, pure,
    Except.pure, hdone, hnone, List.map_nil]

/-- The complete output of a campaign is read without an exception, and nothing is missing. -/
theorem analyze_serial (hne : benchmark.attempts ≠ []) (path : LogPath) :
    analyze [⟨path, benchmark.serial⟩]
      = .ok (benchmark.runs.map (benchmark.readRow · path.text), []) :=
  analyze_eq_ok_iff.mpr
    ⟨benchmark.parse_serial hne path, benchmark.incompleteAttempts_serial path⟩

end Benchmark

end PqMqtt.Analysis
