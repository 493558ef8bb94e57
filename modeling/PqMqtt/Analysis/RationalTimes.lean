import PqMqtt.Analysis.AttemptMatching
import PqMqtt.Analysis.EpochMatching

/-!
# Rational times for floats

Where no difference of times is rounded, `match_attempt_runs` writes the labels of the matcher on
rational times, so what is proved of that matcher holds of the function on the rows of the files.
-/

namespace PqMqtt.Analysis.TlsPcaps

open Binary64 GreedyMatching

/-! ## Rows on both sides -/

/-- The cell that the matcher on rational times has for a cell of a row. -/
def cellOf : Option (Option Text) → Option Cell
  | none => some .absent
  | some none | some (some []) => some .empty
  | some (some (c :: text)) =>
    match floatOfText (c :: text) with
    | some (.fin value) => some (.number value)
    | _ => none

/-- An attempt row as the matcher on rational times has it. -/
structure RepresentsAttempt (row : CsvRow) (attempt : AttemptRow) : Prop where
  scheme : row.get "scheme" = attempt.scheme.map String.toList
  board : row.get "board" = attempt.board.map String.toList
  campaign : row.get "campaign" = attempt.campaign.map String.toList
  run : row "run" = some (some attempt.run.toList)
  tcpStart : cellOf (row "tcp_start_epoch_ms") = some attempt.tcpStartEpochMs
  start : cellOf (row "start_epoch_ms") = some attempt.startEpochMs

structure RepresentsMeta (row : CsvRow) (target : CaptureMeta) : Prop where
  scheme : row "scheme" = some (some target.scheme.toList)
  board : row "board" = some (some target.board.toList)
  campaign : row "campaign" = some (some target.campaign.toList)

def RunLabel.value : RunLabel → CaptureValue
  | .index run => .number (.int run)
  | .text run => .text (some run.toList)

def MatchMethod.text : MatchMethod → String
  | .sequential => "sequential"
  | .epoch => "epoch"
  | .unmatched => "unmatched"

/-- The label of a capture row is the one that the matcher on rational times writes. -/
def SameLabel (row : CaptureRow) (capture : Analysis.CaptureRow) : Prop :=
  row "run" = some (RunLabel.value capture.run) ∧
    row "run_match_method" = some (.text (MatchMethod.text capture.runMatchMethod).toList)

def Cell.orZero : Cell → ℚ
  | .number value => value
  | _ => 0

section Rational

variable {row target : CsvRow} {attempt : AttemptRow} {target' : CaptureMeta}

theorem floatOrZero_eq {cell : Option Text} {time : Cell} (h : cellOf (some cell) = some time) :
    floatOrZero cell = some (.fin (Cell.orZero time)) ∧ time ≠ .absent := by
  match cell with
  | none | some [] =>
    obtain rfl := Option.some.inj h
    exact ⟨rfl, Cell.noConfusion⟩
  | some (c :: text) =>
    rw [cellOf] at h
    split at h
    · rename_i value hvalue
      obtain rfl := Option.some.inj h
      exact ⟨hvalue, Cell.noConfusion⟩
    · cases h

theorem startOrZero_eq_orZero (attempt : AttemptRow) :
    attempt.startOrZero = match attempt.tcpStartEpochMs with
      | .absent => Cell.orZero attempt.startEpochMs
      | cell => Cell.orZero cell := by
  unfold AttemptRow.startOrZero
  cases attempt.tcpStartEpochMs with
  | number value => rfl
  | empty => rfl
  | absent => cases attempt.startEpochMs <;> rfl

theorem startOrZero_represents (h : RepresentsAttempt row attempt) :
    startOrZero row = some (.fin attempt.startOrZero) := by
  have htcp := h.tcpStart
  have hstart := h.start
  rw [startOrZero, startOrZero_eq_orZero]
  cases hrow : row "tcp_start_epoch_ms" with
  | none =>
    rw [hrow] at htcp
    rw [← Option.some.inj htcp, Option.getD_none, CsvRow.get]
    cases hboot : row "start_epoch_ms" with
    | none =>
      rw [hboot] at hstart
      rw [← Option.some.inj hstart]
      rfl
    | some cell =>
      rw [hboot] at hstart
      exact (floatOrZero_eq hstart).1
  | some cell =>
    rw [hrow] at htcp
    obtain ⟨hfloat, hpresent⟩ := floatOrZero_eq htcp
    rw [Option.getD_some, hfloat]
    cases hcell : attempt.tcpStartEpochMs with
    | number value => rfl
    | empty => rfl
    | absent => exact absurd hcell hpresent

theorem selected_represents (hrow : RepresentsAttempt row attempt)
    (htarget : RepresentsMeta target target') : Selected target row = attempt.Selected target' := by
  have htext : ∀ {cell : Option String} {text : String},
      cell.map String.toList = some text.toList ↔ cell = some text := by
    intro cell text
    cases cell with
    | none => simp
    | some other => simp [String.toList_inj]
  have hcampaign : pyStr (row.get "campaign") = (attempt.campaign.getD "None").toList := by
    rw [hrow.campaign]
    cases attempt.campaign <;> rfl
  have hnone : pyStr (some target'.campaign.toList) = target'.campaign.toList := rfl
  unfold Selected AttemptRow.Selected
  rw [htarget.scheme, htarget.board, htarget.campaign, hrow.scheme, hrow.board, hcampaign,
    Option.map_some, hnone]
  simp only [Option.some.injEq, htext, String.toList_inj]

theorem candidate_represents (hrow : RepresentsAttempt row attempt)
    (htarget : RepresentsMeta target target') :
    Candidate target row = (attempt.Selected target' && decide (0 < attempt.startOrZero)) := by
  rw [Candidate, selected_represents hrow htarget, startOrZero_represents hrow]
  rfl

theorem matchStart_represents (hrow : RepresentsAttempt row attempt)
    (hpositive : 0 < attempt.startOrZero) : matchStart row = some (.fin attempt.matchStart) := by
  rw [AttemptRow.matchStart_eq_startOrZero hpositive]
  exact matchStart_eq_startOrZero (startOrZero_represents hrow) (decide_eq_true hpositive)

theorem candidates_represent {attempts : List CsvRow} {attempts' : List AttemptRow}
    (hattempts : List.Forall₂ RepresentsAttempt attempts attempts')
    (htarget : RepresentsMeta target target') :
    List.Forall₂ (fun row attempt ↦ RepresentsAttempt row attempt ∧ 0 < attempt.startOrZero)
      (attempts.filter (Candidate target)) (Analysis.candidates attempts' target') := by
  induction hattempts with
  | nil => exact .nil
  | @cons row attempt _ _ hrow _ ih =>
    have hcandidate := candidate_represents hrow htarget
    unfold Analysis.candidates at ih ⊢
    rw [List.filter_cons, List.filter_cons, hcandidate]
    split
    · rename_i hpasses
      rw [Bool.and_eq_true, decide_eq_true_iff] at hpasses
      exact .cons ⟨hrow, hpasses.2⟩ ih
    · exact ih

end Rational

/-! ## Equal choices -/

section Choices

variable {pool : List CsvRow} {pool' : List AttemptRow} {captures : List CaptureRow}
  {captures' : List Analysis.CaptureRow} {windowMs : Number} {windowMs' : ℚ}

/-- A capture row with the start of its stream, from which no attempt is a rounded time away. -/
def ExactStart (pool : List AttemptRow) (row : CaptureRow) (capture : Analysis.CaptureRow) :
    Prop :=
  streamStart row = some (.fin capture.streamStartEpochMs) ∧ ∀ attempt ∈ pool,
    ofRat (capture.streamStartEpochMs - attempt.matchStart) =
      .fin (capture.streamStartEpochMs - attempt.matchStart)

/-- Attempts that passed the filter, on both sides. -/
abbrev RepresentsPool (pool : List CsvRow) (pool' : List AttemptRow) : Prop :=
  List.Forall₂ (fun row attempt ↦ RepresentsAttempt row attempt ∧ 0 < attempt.startOrZero)
    pool pool'

theorem forall₂_get {α β : Type*} {R : α → β → Prop} {xs : List α} {ys : List β}
    (h : List.Forall₂ R xs ys) (index : Fin xs.length) :
    R (xs.get index) (ys.get (index.cast h.length_eq)) :=
  h.get index.isLt (h.length_eq ▸ index.isLt)

theorem finRange_map_cast {n m : ℕ} (h : n = m) :
    (List.finRange n).map (Fin.castOrderIso h).toOrderEmbedding = List.finRange m := by
  subst h
  exact List.map_id _

theorem rank_fin_le_iff {x y : ℚ} :
    (Double.fin x).rank ≤ (Double.fin y).rank ↔ x ≤ y := by
  rw [Double.rank, Double.rank, Prod.Lex.toLex_le_toLex']
  exact ⟨fun h ↦ h.2 rfl, fun h ↦ ⟨le_rfl, fun _ ↦ h⟩⟩

theorem distance_eq (hpool : RepresentsPool pool pool') {row : CaptureRow}
    {capture : Analysis.CaptureRow} (hcapture : ExactStart pool' row capture)
    (index : Fin pool.length) :
    distance pool row index = .fin |capture.streamStartEpochMs -
      (pool'.get (index.cast hpool.length_eq)).matchStart| := by
  obtain ⟨hrow, hpositive⟩ := forall₂_get hpool index
  have hexact := hcapture.2 _ (List.get_mem pool' (index.cast hpool.length_eq))
  rw [sub_eq_add_neg] at hexact
  rw [distance, hcapture.1, matchStart_represents hrow hpositive, Option.getD_some,
    Option.getD_some, difference, Double.sub, Double.neg, Double.add, hexact, sub_eq_add_neg]
  rfl

theorem ready_of_represents (hpool : RepresentsPool pool pool')
    (hcaptures : List.Forall₂ (ExactStart pool') captures captures')
    (hwindow : windowMs.exact = .fin windowMs') : Ready pool windowMs captures where
  starts index := by
    obtain ⟨hrow, hpositive⟩ := forall₂_get hpool index
    exact Option.isSome_of_eq_some (matchStart_represents hrow hpositive)
  runs index := Option.isSome_of_eq_some (forall₂_get hpool index).1.run
  streams row hmem := by
    obtain ⟨index, hindex, rfl⟩ := List.getElem_of_mem hmem
    exact Option.isSome_of_eq_some (forall₂_get hcaptures ⟨index, hindex⟩).1
  window := by
    rw [hwindow]
    exact Double.noConfusion
  distances row hmem index := by
    obtain ⟨place, hplace, rfl⟩ := List.getElem_of_mem hmem
    have hdistance := distance_eq hpool (forall₂_get hcaptures ⟨place, hplace⟩) index
    rw [List.get_eq_getElem] at hdistance
    rw [hdistance]
    exact Double.noConfusion

/-- On exact times the choices are those of the matcher on rational times. -/
theorem chosen_eq (hpool : RepresentsPool pool pool')
    (hcaptures : List.Forall₂ (ExactStart pool') captures captures')
    (hwindow : windowMs.exact = .fin windowMs') :
    NearestMatching.assign (fun index ↦ (pool'.get index).matchStart) windowMs'
        (List.finRange pool'.length)
        (captures'.map Analysis.CaptureRow.streamStartEpochMs) =
      (chosen pool windowMs captures).map
        (Option.map (Fin.castOrderIso hpool.length_eq).toOrderEmbedding) := by
  rw [NearestMatching.assign_eq_greedy, ← finRange_map_cast hpool.length_eq, chosen]
  apply assign_map
  rw [List.forall₂_map_right_iff]
  apply hcaptures.imp
  intro row capture hcapture
  have hdistance := distance_eq hpool hcapture
  constructor
  · intro first second
    rw [hdistance, hdistance, rank_fin_le_iff]
    rfl
  · intro index
    rw [inWindow, hdistance, hwindow]
    exact decide_eq_decide.mpr rank_fin_le_iff

/-- Equal choices give equal labels. -/
theorem sameLabel_labelChoice (hpool : RepresentsPool pool pool')
    (hlength : captures.length = captures'.length) (choices : List (Option (Fin pool.length))) :
    List.Forall₂ SameLabel (List.zipWith (labelChoice pool) captures choices)
      (List.zipWith (labelCapture pool') captures'
        (choices.map (Option.map (Fin.castOrderIso hpool.length_eq).toOrderEmbedding))) := by
  induction captures generalizing captures' choices with
  | nil =>
    obtain rfl := List.length_eq_zero_iff.mp hlength.symm
    exact .nil
  | cons row captures ih =>
    cases captures' with
    | nil => cases hlength
    | cons capture captures' =>
      cases choices with
      | nil => exact .nil
      | cons choice choices =>
        refine .cons ?_ (ih (Nat.succ.inj hlength) choices)
        cases choice with
        | none =>
          have hlabel := labelled_label row (.number (.int (-1))) "unmatched"
          exact ⟨hlabel.run, hlabel.runMatchMethod⟩
        | some index =>
          have hlabel := labelled_label row (.text ((pool.get index).get "run")) "epoch"
          have hrun := (forall₂_get hpool index).1.run
          have hget : (pool.get index).get "run" =
              some (pool'.get (index.cast hpool.length_eq)).run.toList := by
            rw [CsvRow.get, hrun, Option.join_some]
          refine ⟨hlabel.run.trans ?_, hlabel.runMatchMethod⟩
          rw [hget]
          rfl

end Choices

/-- On times whose differences are not rounded the labels are those of the matcher on rational
times. -/
theorem labels_of_rational_times (order : IndexOrder) {captures : List CaptureRow}
    {captures' : List Analysis.CaptureRow} {attempts : List CsvRow} {attempts' : List AttemptRow}
    {target : CsvRow} {target' : CaptureMeta} {windowMs : Number} {windowMs' : ℚ}
    (hattempts : List.Forall₂ RepresentsAttempt attempts attempts')
    (htarget : RepresentsMeta target target')
    (hcaptures : List.Forall₂ (ExactStart (Analysis.candidates attempts' target')) captures
      captures')
    (hwindow : windowMs.exact = .fin windowMs') :
    ∃ labelled, matchAttemptRuns order captures attempts target windowMs = some labelled ∧
      List.Forall₂ SameLabel labelled
        (Analysis.matchAttemptRuns captures' attempts' target' windowMs') := by
  have hpool := candidates_represent hattempts htarget
  have hcolumns : ∀ column ∈ ["scheme", "board", "campaign"], (target column).isSome := by
    simp [htarget.scheme, htarget.board, htarget.campaign]
  have hstarts : ∀ row ∈ attempts, Selected target row → (startOrZero row).isSome := by
    intro row hrow _
    obtain ⟨place, hplace, rfl⟩ := List.getElem_of_mem hrow
    exact Option.isSome_of_eq_some (startOrZero_represents (forall₂_get hattempts ⟨place, hplace⟩))
  refine ⟨_, matchAttemptRuns_eq order hcolumns hstarts
    (ready_of_represents hpool hcaptures hwindow), ?_⟩
  rw [Analysis.matchAttemptRuns, matchLoop_eq_zipWith, chosen_eq hpool hcaptures hwindow]
  exact sameLabel_labelChoice hpool hcaptures.length_eq _

end PqMqtt.Analysis.TlsPcaps
