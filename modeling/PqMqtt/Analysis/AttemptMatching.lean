import PqMqtt.Analysis.HsCsv
import PqMqtt.Analysis.PyNumber
import PqMqtt.Foundation.GreedyMatching

/-!
# The labels of captured streams

`match_attempt_runs` of `analyze_tls_pcaps.py` on rows as dictionaries: texts of the CSV files,
their conversion to floats, and floating-point differences.  Whenever the cells convert and
nothing that is compared is NaN, the labels are a greedy matching inside the window, whatever the
order in which Python visits the unused candidates.
-/

namespace PqMqtt.Analysis.TlsPcaps

open Binary64 GreedyMatching

/-! ## Rows -/

/-- A row of `csv.DictReader`; a cell that the line does not reach is `None`. -/
abbrev CsvRow := Dict (Option Text)

/-- `row.get(column)` -/
def CsvRow.get (row : CsvRow) (column : String) : Option Text := (row column).join

/-- `str(cell)` -/
def pyStr (cell : Option Text) : Text := cell.getD "None".toList

inductive CaptureValue where
  | number (value : Number)
  | text (cell : Option Text)
deriving DecidableEq

abbrev CaptureRow := Dict CaptureValue

/-- `float(text)`; `none` when an exception is raised. -/
def floatOfText (text : Text) : Option Double := (pyFloat text).toOption

/-- `float(value)`; `none` when an exception is raised. -/
def CaptureValue.toFloat : CaptureValue → Option Double
  | number value => value.toDouble.toOption
  | text cell => cell.bind floatOfText

/-! ## Candidates -/

/-- `float(cell or 0)` -/
def floatOrZero : Option Text → Option Double
  | none | some [] => some (.fin 0)
  | some text => floatOfText text

/-- `float(row.get("tcp_start_epoch_ms", row.get("start_epoch_ms", 0)) or 0)` -/
def startOrZero (row : CsvRow) : Option Double :=
  floatOrZero ((row "tcp_start_epoch_ms").getD (row.get "start_epoch_ms"))

/-- `float(row.get("tcp_start_epoch_ms") or row["start_epoch_ms"])` -/
def matchStart (row : CsvRow) : Option Double :=
  match row.get "tcp_start_epoch_ms" with
  | none | some [] => (row "start_epoch_ms").bind fun cell ↦ cell.bind floatOfText
  | some text => floatOfText text

/-- The conditions of the filter, from left to right. -/
def passesFilter (target row : CsvRow) : Option Bool := do
  let scheme ← target "scheme"
  if row.get "scheme" ≠ scheme then some false
  else do
    let board ← target "board"
    if row.get "board" ≠ board then some false
    else do
      let campaign ← target "campaign"
      if pyStr (row.get "campaign") ≠ pyStr campaign then some false
      else do
        let start ← startOrZero row
        some (Double.lt (.fin 0) start)

/-- `candidates` -/
def candidates (target : CsvRow) : List CsvRow → Option (List CsvRow)
  | [] => some []
  | row :: rows => do
    let passes ← passesFilter target row
    let rest ← candidates target rows
    some (if passes then row :: rest else rest)

/-! ## The matcher -/

/-- The order in which the members of a set of indices are visited. -/
structure IndexOrder where
  list : ∀ {n : ℕ}, List (Fin n) → List (Fin n)
  mem_list : ∀ {n : ℕ} (members : List (Fin n)) (index : Fin n),
    index ∈ list members ↔ index ∈ members

/-- `abs(stream_start - attempt_start)` -/
def difference (streamStart attemptStart : Double) : Double := (streamStart.sub attemptStart).abs

/-- `first < second` of two pairs: the first components decide unless they are equal. -/
def pairLt {n : ℕ} (first second : Double × Fin n) : Bool :=
  if first.1 = second.1 ∧ first.1 ≠ .nan then first.2 < second.2 else first.1.lt second.1

/-- `min(choices)` -/
def pyMin {n : ℕ} : List (Double × Fin n) → Option (Double × Fin n)
  | [] => none
  | choice :: choices =>
    some (choices.foldl (fun least other ↦ if pairLt other least then other else least) choice)

/-- `choices` -/
def choicesOf (pool : List CsvRow) (streamStart : Double) (unused : List (Fin pool.length)) :
    Option (List (Double × Fin pool.length)) :=
  unused.mapM fun index ↦ do
    let attemptStart ← matchStart (pool.get index)
    some (difference streamStart attemptStart, index)

/-- The two assignments to a capture row. -/
def label (capture : CaptureRow) (run : CaptureValue) (method : String) : CaptureRow :=
  (capture.set "run" run).set "run_match_method" (.text method.toList)

def unmatched (capture : CaptureRow) : CaptureRow := label capture (.number (.int (-1))) "unmatched"

/-- The loop over the capture rows; `unused` holds candidate indices. -/
def matchLoop (order : IndexOrder) (pool : List CsvRow) (windowMs : Number) :
    List (Fin pool.length) → List CaptureRow → Option (List CaptureRow)
  | _, [] => some []
  | unused, capture :: captures => do
    let value ← capture "stream_start_epoch_ms"
    let streamStart ← value.toFloat
    let choices ← choicesOf pool streamStart (order.list unused)
    match pyMin choices with
    | none => do
      let rest ← matchLoop order pool windowMs unused captures
      some (unmatched capture :: rest)
    | some (delta, index) =>
      if windowMs.lt (.float delta) then do
        let rest ← matchLoop order pool windowMs unused captures
        some (unmatched capture :: rest)
      else do
        let run ← pool.get index "run"
        let rest ← matchLoop order pool windowMs (unused.erase index) captures
        some (label capture (.text run) "epoch" :: rest)

/-- `match_attempt_runs`; `none` when an exception is raised. -/
def matchAttemptRuns (order : IndexOrder) (captures : List CaptureRow) (attempts : List CsvRow)
    (target : CsvRow) (windowMs : Number) : Option (List CaptureRow) := do
  let pool ← candidates target attempts
  matchLoop order pool windowMs (List.finRange pool.length) captures

/-! ## Reading the rows -/

/-- The scheme, the board and the campaign of the attempt are those of the capture. -/
def Selected (target row : CsvRow) : Bool :=
  some (row.get "scheme") = target "scheme" && some (row.get "board") = target "board" &&
    some (pyStr (row.get "campaign")) = (target "campaign").map pyStr

/-- A selected attempt with a positive start. -/
def Candidate (target row : CsvRow) : Bool :=
  Selected target row && (startOrZero row).any (Double.lt (.fin 0))

/-- The stream start of a capture row. -/
def streamStart (capture : CaptureRow) : Option Double :=
  (capture "stream_start_epoch_ms").bind CaptureValue.toFloat

/-- The columns are there and the times that are read convert. -/
structure Readable (captures : List CaptureRow) (attempts : List CsvRow) (target : CsvRow) :
    Prop where
  columns : ∀ column ∈ ["scheme", "board", "campaign"], (target column).isSome
  starts : ∀ row ∈ attempts, Selected target row → (startOrZero row).isSome
  runs : ∀ row ∈ attempts, Candidate target row → (row "run").isSome
  streams : ∀ capture ∈ captures, (streamStart capture).isSome

/-- Neither the window nor a difference to the start of a candidate is NaN. -/
structure Comparable (captures : List CaptureRow) (attempts : List CsvRow) (target : CsvRow)
    (windowMs : Number) : Prop where
  window : windowMs.exact ≠ .nan
  differences : ∀ capture ∈ captures, ∀ row ∈ attempts, Candidate target row →
    ∀ start, streamStart capture = some start →
    ∀ attemptStart, matchStart row = some attemptStart → difference start attemptStart ≠ .nan

section Rows

variable {target row : CsvRow} {start : Double}

/-- A positive start is the value of a cell that is not empty. -/
theorem exists_text_of_positive (hstart : startOrZero row = some start)
    (hpositive : Double.lt (.fin 0) start = true) :
    ∃ c text, (row "tcp_start_epoch_ms").getD (row.get "start_epoch_ms") = some (c :: text) ∧
      floatOfText (c :: text) = some start := by
  have hnotzero : start ≠ .fin 0 := by
    rintro rfl
    exact absurd hpositive (by decide)
  unfold startOrZero at hstart
  cases hcell : (row "tcp_start_epoch_ms").getD (row.get "start_epoch_ms") with
  | none =>
    rw [hcell] at hstart
    exact absurd (Option.some.inj hstart).symm hnotzero
  | some text =>
    rw [hcell] at hstart
    cases text with
    | nil => exact absurd (Option.some.inj hstart).symm hnotzero
    | cons c text => exact ⟨c, text, rfl, hstart⟩

/-- The two ways of reading a start time agree on every row that passes the filter. -/
theorem matchStart_eq_startOrZero (hstart : startOrZero row = some start)
    (hpositive : Double.lt (.fin 0) start = true) : matchStart row = some start := by
  obtain ⟨c, text, hcell, hfloat⟩ := exists_text_of_positive hstart hpositive
  unfold matchStart CsvRow.get
  cases htcp : row "tcp_start_epoch_ms" with
  | none =>
    rw [htcp, Option.getD_none, CsvRow.get, Option.join_eq_some_iff] at hcell
    rw [hcell]
    exact hfloat
  | some cell =>
    rw [htcp, Option.getD_some] at hcell
    rw [hcell]
    exact hfloat

theorem exists_start_of_candidate (h : Candidate target row = true) :
    ∃ start, startOrZero row = some start ∧ matchStart row = some start ∧
      Double.lt (.fin 0) start = true := by
  obtain ⟨-, hpositive⟩ := Bool.and_eq_true_iff.mp h
  obtain ⟨start, hsome, hlt⟩ := (Option.any_eq_true _ _).mp hpositive
  exact ⟨start, hsome, matchStart_eq_startOrZero hsome hlt, hlt⟩

theorem passesFilter_eq (columns : ∀ column ∈ ["scheme", "board", "campaign"],
    (target column).isSome) (hstart : Selected target row → (startOrZero row).isSome) :
    passesFilter target row = some (Candidate target row) := by
  obtain ⟨scheme, hscheme⟩ := Option.isSome_iff_exists.mp (columns "scheme" (by simp))
  obtain ⟨board, hboard⟩ := Option.isSome_iff_exists.mp (columns "board" (by simp))
  obtain ⟨campaign, hcampaign⟩ := Option.isSome_iff_exists.mp (columns "campaign" (by simp))
  have hselected : Selected target row = true ↔ row.get "scheme" = scheme ∧
      row.get "board" = board ∧ pyStr (row.get "campaign") = pyStr campaign := by
    simp [Selected, hscheme, hboard, hcampaign, and_assoc]
  have hrefused : ¬Selected target row = true → Candidate target row = false := by
    intro hne
    rw [Candidate, Bool.eq_false_of_not_eq_true hne, Bool.false_and]
  simp only [passesFilter, hscheme, hboard, hcampaign, Option.bind_eq_bind, Option.bind_some]
  by_cases h : Selected target row = true
  · obtain ⟨start, hsome⟩ := Option.isSome_iff_exists.mp (hstart h)
    obtain ⟨hschemes, hboards, hcampaigns⟩ := hselected.mp h
    rw [if_neg (not_not.mpr hschemes), if_neg (not_not.mpr hboards),
      if_neg (not_not.mpr hcampaigns), hsome, Candidate, h, Bool.true_and, hsome]
    rfl
  · rw [hrefused h]
    split_ifs with hschemes hboards hcampaigns
    · rfl
    · rfl
    · rfl
    · exact absurd (hselected.mpr ⟨not_not.mp hschemes, not_not.mp hboards,
        not_not.mp hcampaigns⟩) h

end Rows

theorem candidates_eq {attempts : List CsvRow} {target : CsvRow}
    (hfilter : ∀ row ∈ attempts, passesFilter target row = some (Candidate target row)) :
    candidates target attempts = some (attempts.filter (Candidate target)) := by
  induction attempts with
  | nil => rfl
  | cons row rows ih =>
    rw [List.forall_mem_cons] at hfilter
    rw [candidates, hfilter.1, ih hfilter.2]
    cases hrow : Candidate target row with
    | true => rw [List.filter_cons_of_pos hrow]; rfl
    | false => rw [List.filter_cons_of_neg (by simp [hrow])]; rfl

/-! ## Choosing the nearest attempt -/

section Choosing

variable {n : ℕ}

/-- The order of pairs without NaN. -/
def pairKey (choice : Double × Fin n) : (ℕ ×ₗ ℚ) ×ₗ Fin n := toLex (choice.1.rank, choice.2)

theorem pairLt_iff {first second : Double × Fin n} (hfirst : first.1 ≠ .nan)
    (hsecond : second.1 ≠ .nan) : pairLt first second = true ↔ pairKey first < pairKey second := by
  unfold pairLt pairKey
  rw [Prod.Lex.toLex_lt_toLex]
  by_cases heq : first.1 = second.1
  · rw [if_pos ⟨heq, hfirst⟩, heq, decide_eq_true_iff]
    simp
  · have hrank : first.1.rank ≠ second.1.rank := fun h ↦ heq (Double.rank_injective h)
    rw [if_neg fun h ↦ heq h.1, Double.lt_iff_rank_lt hfirst hsecond]
    simp [hrank]

/-- The loop of `min` ends with a least pair. -/
theorem foldl_least {choice : Double × Fin n} {choices : List (Double × Fin n)}
    (hnumbers : ∀ other ∈ choice :: choices, other.1 ≠ .nan) :
    choices.foldl (fun least other ↦ if pairLt other least then other else least) choice ∈
        choice :: choices ∧
      ∀ other ∈ choice :: choices, pairKey
        (choices.foldl (fun least other ↦ if pairLt other least then other else least) choice) ≤
          pairKey other := by
  induction choices generalizing choice with
  | nil => simp
  | cons next choices ih =>
    rw [List.forall_mem_cons, List.forall_mem_cons] at hnumbers
    obtain ⟨hchoice, hnext, hrest⟩ := hnumbers
    rw [List.foldl_cons]
    have hless := pairLt_iff hnext hchoice
    split
    · rename_i hlt
      obtain ⟨hmem, hleast⟩ := ih (List.forall_mem_cons.mpr ⟨hnext, hrest⟩)
      refine ⟨List.mem_cons_of_mem choice hmem, List.forall_mem_cons.mpr ⟨?_, hleast⟩⟩
      exact (hleast next (List.mem_cons_self ..)).trans (hless.mp hlt).le
    · rename_i hle
      obtain ⟨hmem, hleast⟩ := ih (List.forall_mem_cons.mpr ⟨hchoice, hrest⟩)
      rw [List.forall_mem_cons] at hleast
      refine ⟨?_, List.forall_mem_cons.mpr ⟨hleast.1, List.forall_mem_cons.mpr ⟨?_, hleast.2⟩⟩⟩
      · rcases List.mem_cons.mp hmem with hsame | hlater
        · rw [hsame]
          exact List.mem_cons_self ..
        · exact List.mem_cons_of_mem choice (List.mem_cons_of_mem next hlater)
      · exact hleast.1.trans (not_lt.mp fun hlt ↦ hle (hless.mpr hlt))

/-- Without NaN the least choice is the cheapest index, whatever the order of the members. -/
theorem pyMin_map {cost : Fin n → Double} (hnumbers : ∀ index, cost index ≠ .nan)
    (members : List (Fin n)) :
    pyMin (members.map fun index ↦ (cost index, index)) =
      (cheapest (fun index ↦ (cost index).rank) members).map fun index ↦ (cost index, index) := by
  cases members with
  | nil => rfl
  | cons member members =>
    have hall : ∀ choice ∈ (member :: members).map fun index ↦ (cost index, index),
        choice.1 ≠ .nan := by
      intro choice hchoice
      obtain ⟨index, -, rfl⟩ := List.mem_map.mp hchoice
      exact hnumbers index
    rw [List.map_cons] at hall
    obtain ⟨hmem, hleast⟩ := foldl_least hall
    rw [List.map_cons, pyMin]
    generalize List.foldl _ _ _ = least at hmem hleast ⊢
    rw [← List.map_cons (f := fun index ↦ (cost index, index))] at hmem hleast
    obtain ⟨index, hindex, rfl⟩ := List.mem_map.mp hmem
    rw [cheapest_eq_some hindex, Option.map_some]
    intro other hother
    exact hleast (cost other, other) (List.mem_map.mpr ⟨other, hother, rfl⟩)

end Choosing

/-! ## The loop -/

section Loop

variable (pool : List CsvRow) (windowMs : Number)

/-- The time between a capture and an attempt. -/
def distance (capture : CaptureRow) (index : Fin pool.length) : Double :=
  difference ((streamStart capture).getD .nan) ((matchStart (pool.get index)).getD .nan)

/-- The attempt is inside the window of the capture. -/
def inWindow (capture : CaptureRow) (index : Fin pool.length) : Bool :=
  (distance pool capture index).rank ≤ windowMs.exact.rank

/-- The attempts that the captures are matched to. -/
def chosen (captures : List CaptureRow) : List (Option (Fin pool.length)) :=
  assign (fun capture index ↦ (distance pool capture index).rank) (inWindow pool windowMs)
    (List.finRange pool.length) captures

/-- What the matcher writes into a capture row. -/
def labelChoice (capture : CaptureRow) : Option (Fin pool.length) → CaptureRow
  | none => unmatched capture
  | some index => label capture (.text ((pool.get index).get "run")) "epoch"

/-- Everything that the loop reads is there, and nothing that it compares is NaN. -/
structure Ready (captures : List CaptureRow) : Prop where
  starts : ∀ index, (matchStart (pool.get index)).isSome
  runs : ∀ index, (pool.get index "run").isSome
  streams : ∀ capture ∈ captures, (streamStart capture).isSome
  window : windowMs.exact ≠ .nan
  distances : ∀ capture ∈ captures, ∀ index, distance pool capture index ≠ .nan

variable {pool windowMs}

theorem choicesOf_eq (hstarts : ∀ index, (matchStart (pool.get index)).isSome) (start : Double)
    (members : List (Fin pool.length)) :
    choicesOf pool start members = some (members.map fun index ↦
      (difference start ((matchStart (pool.get index)).getD .nan), index)) := by
  have hstep : (fun index ↦ do
      let attemptStart ← matchStart (pool.get index)
      some (difference start attemptStart, index)) = fun index : Fin pool.length ↦
        (pure (difference start ((matchStart (pool.get index)).getD .nan), index) : Option _) := by
    funext index
    obtain ⟨attemptStart, hsome⟩ := Option.isSome_iff_exists.mp (hstarts index)
    rw [hsome]
    rfl
  unfold choicesOf
  rw [hstep]
  exact List.mapM_pure

theorem inWindow_eq {captures : List CaptureRow} (h : Ready pool windowMs captures)
    {capture : CaptureRow} (hmem : capture ∈ captures) (index : Fin pool.length) :
    inWindow pool windowMs capture index =
      !windowMs.lt (.float (distance pool capture index)) := by
  have hless : windowMs.lt (.float (distance pool capture index)) = true ↔
      windowMs.exact.rank < (distance pool capture index).rank :=
    Double.lt_iff_rank_lt h.window (h.distances capture hmem index)
  cases hlt : windowMs.lt (.float (distance pool capture index)) with
  | true => exact decide_eq_false (not_le.mpr (hless.mp hlt))
  | false =>
    apply decide_eq_true
    apply not_lt.mp
    intro houtside
    rw [hless.mpr houtside] at hlt
    cases hlt

/-- The loop labels the captures with the choices of the greedy matching. -/
theorem matchLoop_eq (order : IndexOrder) {captures : List CaptureRow}
    (h : Ready pool windowMs captures) (unused : List (Fin pool.length)) :
    matchLoop order pool windowMs unused captures =
      some (List.zipWith (labelChoice pool) captures
        (assign (fun capture index ↦ (distance pool capture index).rank)
          (inWindow pool windowMs) unused captures)) := by
  induction captures generalizing unused with
  | nil => rfl
  | cons capture captures ih =>
    have hrest : Ready pool windowMs captures :=
      { h with
        streams := fun other hmem ↦ h.streams other (List.mem_cons_of_mem capture hmem)
        distances := fun other hmem ↦ h.distances other (List.mem_cons_of_mem capture hmem) }
    have hmem : capture ∈ capture :: captures := List.mem_cons_self ..
    obtain ⟨start, hstart⟩ := Option.isSome_iff_exists.mp (h.streams capture hmem)
    obtain ⟨value, hvalue, hfloat⟩ := Option.bind_eq_some_iff.mp hstart
    have hchoices : pyMin ((order.list unused).map fun index ↦
        (distance pool capture index, index)) =
          (cheapest (fun index ↦ (distance pool capture index).rank) unused).map
            fun index ↦ (distance pool capture index, index) := by
      rw [pyMin_map (h.distances capture hmem), cheapest_congr (order.mem_list unused)]
    have hdistance : ∀ index, difference start ((matchStart (pool.get index)).getD .nan) =
        distance pool capture index := by
      intro index
      rw [distance, hstart, Option.getD_some]
    rw [matchLoop, assign, hvalue]
    simp only [Option.bind_eq_bind, Option.bind_some, hfloat, choicesOf_eq h.starts, hdistance,
      hchoices]
    cases cheapest (fun index ↦ (distance pool capture index).rank) unused with
    | none =>
      simp only [Option.map_none, ih hrest, Option.bind_some, List.zipWith_cons_cons]
      rfl
    | some index =>
      obtain ⟨run, hrun⟩ := Option.isSome_iff_exists.mp (h.runs index)
      simp only [Option.map_some, inWindow_eq h hmem, hrun, ih hrest, Option.bind_some]
      cases windowMs.lt (.float (distance pool capture index)) with
      | true => rfl
      | false =>
        have hget : (pool.get index).get "run" = run := by
          rw [CsvRow.get, hrun, Option.join_some]
        simp only [Bool.not_false, if_true, List.zipWith_cons_cons, labelChoice, hget]
        rfl

/-- The choices are a greedy matching inside the window. -/
theorem matching_chosen (captures : List CaptureRow) :
    Matching (inWindow pool windowMs) (List.finRange pool.length) captures
      (chosen pool windowMs captures) := by
  apply matching_assign _ (List.nodup_finRange _)
  intro capture first second hle hsecond
  exact decide_eq_true (hle.trans (of_decide_eq_true hsecond))

end Loop

/-! ## The labels -/

/-- The start of the attempt is positive and differs from the start of the stream by at most the
window. -/
def Within (windowMs : Number) (capture : CaptureRow) (row : CsvRow) : Prop :=
  ∃ start attemptStart, streamStart capture = some start ∧ matchStart row = some attemptStart ∧
    Double.lt (.fin 0) attemptStart = true ∧
    (Number.float (difference start attemptStart)).le windowMs = true

/-- A capture row with its label; no other field changes. -/
structure Labelled (capture : CaptureRow) (run : CaptureValue) (method : String)
    (result : CaptureRow) : Prop where
  run : result "run" = some run
  runMatchMethod : result "run_match_method" = some (.text method.toList)
  others : ∀ field, field ≠ "run" → field ≠ "run_match_method" → result field = capture field

/-- Every capture row is labelled with the run of a candidate within its window, no candidate
serves two captures, and a capture is unmatched only if every candidate within its window is
taken by an earlier capture. -/
structure Matched (pool : List CsvRow) (windowMs : Number) (captures labelled : List CaptureRow)
    (choices : List (Option (Fin pool.length))) : Prop where
  length : labelled.length = captures.length ∧ choices.length = captures.length
  epoch : ∀ {place : ℕ} {capture result : CaptureRow} {index : Fin pool.length},
    captures[place]? = some capture → labelled[place]? = some result →
    choices[place]? = some (some index) → Within windowMs capture (pool.get index) ∧
      ∃ run, pool.get index "run" = some run ∧ Labelled capture (.text run) "epoch" result
  once : ∀ {first second : ℕ} {index : Fin pool.length}, choices[first]? = some (some index) →
    choices[second]? = some (some index) → first = second
  unmatched : ∀ {place : ℕ} {capture result : CaptureRow}, captures[place]? = some capture →
    labelled[place]? = some result → choices[place]? = some none →
      Labelled capture (.number (.int (-1))) "unmatched" result ∧
      ∀ index, Within windowMs capture (pool.get index) →
        ∃ earlier < place, choices[earlier]? = some (some index)

theorem labelled_label (capture : CaptureRow) (run : CaptureValue) (method : String) :
    Labelled capture run method (label capture run method) where
  run := by rw [label, Dict.set_of_ne _ _ (by decide), Dict.set_self]
  runMatchMethod := Dict.set_self _ _ _
  others field hrun hmethod := by rw [label, Dict.set_of_ne _ _ hmethod, Dict.set_of_ne _ _ hrun]

section Labels

variable {pool : List CsvRow} {windowMs : Number} {captures : List CaptureRow}

theorem within_iff (h : Ready pool windowMs captures)
    (hpositive : ∀ row ∈ pool, ∀ start, matchStart row = some start →
      Double.lt (.fin 0) start = true)
    {capture : CaptureRow} (hmem : capture ∈ captures) (index : Fin pool.length) :
    Within windowMs capture (pool.get index) ↔ inWindow pool windowMs capture index = true := by
  obtain ⟨start, hstart⟩ := Option.isSome_iff_exists.mp (h.streams capture hmem)
  obtain ⟨attemptStart, hattempt⟩ := Option.isSome_iff_exists.mp (h.starts index)
  have hdistance : difference start attemptStart = distance pool capture index := by
    rw [distance, hstart, hattempt, Option.getD_some, Option.getD_some]
  have hwindow : (Number.float (difference start attemptStart)).le windowMs = true ↔
      inWindow pool windowMs capture index = true := by
    rw [hdistance, inWindow, decide_eq_true_iff]
    apply Double.le_eq_true_iff.trans
    rw [and_iff_right h.window]
    exact and_iff_right (h.distances capture hmem index)
  constructor
  · intro ⟨start', attemptStart', hstart', hattempt', _, hle⟩
    obtain rfl := Option.some.inj (hstart.symm.trans hstart')
    obtain rfl := Option.some.inj (hattempt.symm.trans hattempt')
    exact hwindow.mp hle
  · intro hin
    exact ⟨start, attemptStart, hstart, hattempt,
      hpositive _ (List.get_mem _ _) attemptStart hattempt, hwindow.mpr hin⟩

theorem matched_labelChoice (h : Ready pool windowMs captures)
    (hpositive : ∀ row ∈ pool, ∀ start, matchStart row = some start →
      Double.lt (.fin 0) start = true) :
    Matched pool windowMs captures
      (List.zipWith (labelChoice pool) captures (chosen pool windowMs captures))
      (chosen pool windowMs captures) := by
  have hmatching : Matching (inWindow pool windowMs) (List.finRange pool.length) captures
      (chosen pool windowMs captures) := matching_chosen captures
  have hresult : ∀ {place : ℕ} {capture result : CaptureRow} {choice : Option (Fin pool.length)},
      captures[place]? = some capture →
      (List.zipWith (labelChoice pool) captures
        (chosen pool windowMs captures))[place]? = some result →
      (chosen pool windowMs captures)[place]? = some choice →
      result = labelChoice pool capture choice := by
    intro place capture result choice hcapture hresult hchoice
    rw [List.getElem?_zipWith, hcapture, hchoice] at hresult
    exact (Option.some.inj hresult).symm
  constructor
  · rw [List.length_zipWith, hmatching.length, min_self]
    exact ⟨rfl, rfl⟩
  · intro place capture result index hcapture hlabelled hchoice
    obtain rfl := hresult hcapture hlabelled hchoice
    obtain ⟨-, hin⟩ := hmatching.accepted hcapture hchoice
    obtain ⟨run, hrun⟩ := Option.isSome_iff_exists.mp (h.runs index)
    have hget : (pool.get index).get "run" = run := by rw [CsvRow.get, hrun, Option.join_some]
    refine ⟨(within_iff h hpositive (List.mem_of_getElem? hcapture) index).mpr hin, run, hrun, ?_⟩
    rw [labelChoice, hget]
    exact labelled_label capture _ _
  · exact hmatching.once
  · intro place capture result hcapture hlabelled hchoice
    obtain rfl := hresult hcapture hlabelled hchoice
    refine ⟨labelled_label capture _ _, fun index hwithin ↦ ?_⟩
    exact hmatching.maximal hcapture hchoice (List.mem_finRange index)
      ((within_iff h hpositive (List.mem_of_getElem? hcapture) index).mp hwithin)

end Labels

theorem matchAttemptRuns_eq (order : IndexOrder) {captures : List CaptureRow}
    {attempts : List CsvRow} {target : CsvRow} {windowMs : Number}
    (hcolumns : ∀ column ∈ ["scheme", "board", "campaign"], (target column).isSome)
    (hstarts : ∀ row ∈ attempts, Selected target row → (startOrZero row).isSome)
    (hready : Ready (attempts.filter (Candidate target)) windowMs captures) :
    matchAttemptRuns order captures attempts target windowMs =
      some (List.zipWith (labelChoice (attempts.filter (Candidate target))) captures
        (chosen (attempts.filter (Candidate target)) windowMs captures)) := by
  have hcandidates : candidates target attempts = some (attempts.filter (Candidate target)) := by
    apply candidates_eq
    intro row hrow
    exact passesFilter_eq hcolumns (hstarts row hrow)
  rw [matchAttemptRuns, hcandidates]
  exact matchLoop_eq order hready _

theorem ready_of_readable {attempts : List CsvRow} {target : CsvRow} {windowMs : Number}
    {captures : List CaptureRow} (hreadable : Readable captures attempts target)
    (hcomparable : Comparable captures attempts target windowMs) :
    Ready (attempts.filter (Candidate target)) windowMs captures := by
  have hpool : ∀ index, (attempts.filter (Candidate target)).get index ∈ attempts ∧
      Candidate target ((attempts.filter (Candidate target)).get index) = true := fun index ↦
    List.mem_filter.mp (List.get_mem _ _)
  constructor
  · intro index
    obtain ⟨start, -, hstart, -⟩ := exists_start_of_candidate (hpool index).2
    exact Option.isSome_of_eq_some hstart
  · intro index
    exact hreadable.runs _ (hpool index).1 (hpool index).2
  · exact hreadable.streams
  · exact hcomparable.window
  · intro capture hcapture index
    obtain ⟨start, hstart⟩ := Option.isSome_iff_exists.mp (hreadable.streams capture hcapture)
    obtain ⟨attemptStart, -, hattempt, -⟩ := exists_start_of_candidate (hpool index).2
    rw [distance, hstart, hattempt]
    exact hcomparable.differences capture hcapture _ (hpool index).1 (hpool index).2 start hstart
      attemptStart hattempt

/-- Whenever the cells convert and nothing that is compared is NaN, every capture is labelled by
an injective matching inside the window that leaves no capture out without need. -/
theorem attempts_matched (order : IndexOrder) (captures : List CaptureRow)
    (attempts : List CsvRow) (target : CsvRow) (windowMs : Number)
    (hreadable : Readable captures attempts target)
    (hcomparable : Comparable captures attempts target windowMs) :
    ∃ labelled choices, matchAttemptRuns order captures attempts target windowMs = some labelled ∧
      Matched (attempts.filter (Candidate target)) windowMs captures labelled choices := by
  have hready := ready_of_readable hreadable hcomparable
  refine ⟨_, _, matchAttemptRuns_eq order hreadable.columns hreadable.starts hready,
    matched_labelChoice hready ?_⟩
  intro row hrow start hsome
  obtain ⟨other, -, hother, hpositive⟩ := exists_start_of_candidate (List.mem_filter.mp hrow).2
  obtain rfl := Option.some.inj (hsome.symm.trans hother)
  exact hpositive

/-! ## Finite times -/

/-- A difference of finite times may be infinite, but it is not NaN. -/
theorem difference_fin_ne_nan (x y : ℚ) : difference (.fin x) (.fin y) ≠ .nan := by
  unfold difference Double.sub Double.neg Double.add ofRat
  dsimp only
  split
  · exact Double.noConfusion
  · exact Double.noConfusion

theorem comparable_of_fin {captures : List CaptureRow} {attempts : List CsvRow} {target : CsvRow}
    {windowMs : Number} (hwindow : windowMs.exact ≠ .nan)
    (hstreams : ∀ capture ∈ captures, ∃ x, streamStart capture = some (.fin x))
    (hattempts : ∀ row ∈ attempts, ∃ y, startOrZero row = some (.fin y)) :
    Comparable captures attempts target windowMs where
  window := hwindow
  differences capture hcapture row hrow hcandidate start hstart attemptStart hattempt := by
    obtain ⟨x, hx⟩ := hstreams capture hcapture
    obtain ⟨y, hy⟩ := hattempts row hrow
    obtain ⟨start', hzero, hmatch, -⟩ := exists_start_of_candidate hcandidate
    obtain rfl := Option.some.inj (hx.symm.trans hstart)
    obtain rfl := Option.some.inj (hmatch.symm.trans hattempt)
    obtain rfl := Option.some.inj (hy.symm.trans hzero)
    exact difference_fin_ne_nan x y

/-! ## Times of one campaign -/

def ascending : IndexOrder where
  list members := members
  mem_list _ _ := Iff.rfl

def campaignMeta : CsvRow :=
  Dict.ofPairs [("scheme", some "HAWK-512".toList), ("board", some "pico2_w".toList),
    ("campaign", some "1".toList)]

/-- An attempt of the campaign. -/
def campaignAttempt (run tcpStart : String) : CsvRow :=
  (campaignMeta.set "run" (some run.toList)).set "tcp_start_epoch_ms" (some tcpStart.toList)

def sequentialCapture (start : Double) : CaptureRow :=
  Dict.ofPairs [("stream_start_epoch_ms", .number (.float start)), ("run", .number (.int 0)),
    ("run_match_method", .text (some "sequential".toList))]

/-- The labels that the matcher writes. -/
def labels (result : Option (List CaptureRow)) :
    Option (List (Option CaptureValue × Option CaptureValue)) :=
  result.map fun captures ↦ captures.map fun row ↦ (row "run", row "run_match_method")

/-- The test of the repository, with the attempt that opened no stream. -/
theorem attempts_matched_ten_ms_apart :
    ∃ labelled choices, matchAttemptRuns ascending
        [sequentialCapture (.fin 1010), sequentialCapture (.fin 4010)]
        [campaignAttempt "0" "1000", campaignAttempt "1" "0", campaignAttempt "2" "4000"]
        campaignMeta (.int 500) = some labelled ∧
      Matched ([campaignAttempt "0" "1000", campaignAttempt "1" "0",
          campaignAttempt "2" "4000"].filter (Candidate campaignMeta)) (.int 500)
        [sequentialCapture (.fin 1010), sequentialCapture (.fin 4010)] labelled choices := by
  have hzero : startOrZero (campaignAttempt "0" "1000") = some (.fin 1000) := by decide +kernel
  have hone : startOrZero (campaignAttempt "1" "0") = some (.fin 0) := by decide +kernel
  have htwo : startOrZero (campaignAttempt "2" "4000") = some (.fin 4000) := by decide +kernel
  have hfirst : streamStart (sequentialCapture (.fin 1010)) = some (.fin 1010) := by decide +kernel
  have hsecond : streamStart (sequentialCapture (.fin 4010)) = some (.fin 4010) := by
    decide +kernel
  apply attempts_matched ascending
    [sequentialCapture (.fin 1010), sequentialCapture (.fin 4010)]
    [campaignAttempt "0" "1000", campaignAttempt "1" "0", campaignAttempt "2" "4000"]
    campaignMeta (.int 500)
  · constructor
    · decide +kernel
    · simp [hzero, hone, htwo]
    · decide +kernel
    · decide +kernel
  · apply comparable_of_fin Double.noConfusion
    · simp [hfirst, hsecond]
    · simp [hzero, hone, htwo]

/-- With a NaN window a distant attempt is accepted, an unreadable time stops the matcher, and a
rounded difference lets in an attempt that is one millisecond outside. -/
theorem unmatchable_times :
    (labels (matchAttemptRuns ascending [sequentialCapture (.fin 9000)]
        [campaignAttempt "0" "1000"] campaignMeta (.float .nan)) =
          some [(some (.text (some "0".toList)), some (.text (some "epoch".toList)))] ∧
      (Number.float (difference (.fin 9000) (.fin 1000))).le (.float .nan) = false) ∧
    labels (matchAttemptRuns ascending [sequentialCapture (.fin 9000)]
      [campaignAttempt "0" "soon"] campaignMeta (.int 1000)) = none ∧
    labels (matchAttemptRuns ascending [sequentialCapture (.fin (2 ^ 53 + 2))]
        [campaignAttempt "0" "1"] campaignMeta (.int (2 ^ 53))) =
          some [(some (.text (some "0".toList)), some (.text (some "epoch".toList)))] := by
  decide +kernel

end PqMqtt.Analysis.TlsPcaps
