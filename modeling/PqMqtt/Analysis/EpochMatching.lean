import PqMqtt.Foundation.NearestMatching

/-!
# Matching captured streams to attempts by time

`match_attempt_runs` of `analyze_tls_pcaps.py` gives every captured TCP stream the run of the
attempt of the same scheme, board and campaign whose start time is nearest and not taken yet.
With a constant offset between the two clocks the nearest start is the right one only while
neighbouring starts are at least twice the offset apart.  Times are rational numbers, which
covers the milliseconds of both logs.
-/

namespace PqMqtt.Analysis

open NearestMatching

/-! ## The matcher -/

/-- A numeric column of a CSV row: missing from the row, empty, or a number. -/
inductive Cell where
  | absent
  | empty
  | number (value : ℚ)

/-- The columns of `meta` that select the attempts of a capture. -/
structure CaptureMeta where
  scheme : String
  board : String
  campaign : String

/-- The columns of an attempt row that the matcher reads. -/
structure AttemptRow where
  scheme : Option String
  board : Option String
  campaign : Option String
  run : String
  startEpochMs : Cell
  tcpStartEpochMs : Cell

inductive RunLabel where
  | index (run : ℤ)
  | text (run : String)
deriving DecidableEq

inductive MatchMethod where
  | sequential
  | epoch
  | unmatched
deriving DecidableEq

/-- The columns of a capture row that the matcher reads or writes. -/
structure CaptureRow where
  streamStartEpochMs : ℚ
  run : RunLabel
  runMatchMethod : MatchMethod

namespace AttemptRow

/-- `float(row.get("tcp_start_epoch_ms", row.get("start_epoch_ms", 0)) or 0)` -/
def startOrZero (row : AttemptRow) : ℚ :=
  match row.tcpStartEpochMs, row.startEpochMs with
  | .number value, _ => value
  | .empty, _ => 0
  | .absent, .number value => value
  | .absent, _ => 0

/-- `float(row.get("tcp_start_epoch_ms") or row["start_epoch_ms"])`; the last case raises, but
not for a row that passed the filter. -/
def matchStart (row : AttemptRow) : ℚ :=
  match row.tcpStartEpochMs, row.startEpochMs with
  | .number value, _ => value
  | _, .number value => value
  | _, _ => 0

/-- The two ways of reading a start time agree on every row that passes the filter. -/
theorem matchStart_eq_startOrZero {row : AttemptRow} (h : 0 < row.startOrZero) :
    row.matchStart = row.startOrZero := by
  obtain ⟨scheme, board, campaign, run, start, tcpStart⟩ := row
  cases tcpStart with
  | number value => rfl
  | empty => exact absurd h (lt_irrefl 0)
  | absent => cases start <;> rfl

/-- The attempt is of the scheme, board and campaign of the capture; a missing campaign reads
as `None`. -/
def Selected (row : AttemptRow) (target : CaptureMeta) : Bool :=
  row.scheme = some target.scheme && row.board = some target.board &&
    row.campaign.getD "None" = target.campaign

end AttemptRow

/-- `candidates` -/
def candidates (attempts : List AttemptRow) (target : CaptureMeta) : List AttemptRow :=
  attempts.filter fun row ↦ row.Selected target && 0 < row.startOrZero

/-- What the matcher writes into a capture row. -/
def labelCapture (pool : List AttemptRow) (capture : CaptureRow) :
    Option (Fin pool.length) → CaptureRow
  | none => { capture with run := .index (-1), runMatchMethod := .unmatched }
  | some index =>
      { capture with run := .text (pool.get index).run, runMatchMethod := .epoch }

/-- The loop of `match_attempt_runs` over the capture rows; `unused` holds candidate indices. -/
def matchLoop (pool : List AttemptRow) (windowMs : ℚ) :
    List (Fin pool.length) → List CaptureRow → List CaptureRow
  | _, [] => []
  | unused, capture :: captures =>
      let start := capture.streamStartEpochMs
      match nearest (fun index ↦ (pool.get index).matchStart) start unused with
      | none => labelCapture pool capture none :: matchLoop pool windowMs unused captures
      | some index =>
          if |start - (pool.get index).matchStart| > windowMs then
            labelCapture pool capture none :: matchLoop pool windowMs unused captures
          else
            labelCapture pool capture (some index) ::
              matchLoop pool windowMs (unused.erase index) captures

/-- `match_attempt_runs` -/
def matchAttemptRuns (captures : List CaptureRow) (attempts : List AttemptRow)
    (target : CaptureMeta) (windowMs : ℚ) : List CaptureRow :=
  let pool := candidates attempts target
  matchLoop pool windowMs (List.finRange pool.length) captures

/-! ## Labels and choices -/

/-- Row by row, the captures carry the runs of the attempts, matched by time. -/
def Identified (captures : List CaptureRow) (attempts : List AttemptRow) : Prop :=
  List.Forall₂ (fun capture row ↦
    capture.run = .text row.run ∧ capture.runMatchMethod = .epoch) captures attempts

instance (captures : List CaptureRow) (attempts : List AttemptRow) :
    Decidable (Identified captures attempts) :=
  inferInstanceAs (Decidable (List.Forall₂ _ captures attempts))

section Labels

variable {pool : List AttemptRow}

/-- The loop labels the captures with the choices of the greedy matching. -/
theorem matchLoop_eq_zipWith (windowMs : ℚ) (unused : List (Fin pool.length))
    (captures : List CaptureRow) :
    matchLoop pool windowMs unused captures =
      List.zipWith (labelCapture pool) captures
        (assign (fun index ↦ (pool.get index).matchStart) windowMs unused
          (captures.map CaptureRow.streamStartEpochMs)) := by
  induction captures generalizing unused with
  | nil => simp [matchLoop]
  | cons capture captures ih =>
    rw [matchLoop, List.map_cons, assign]
    cases nearest (fun index ↦ (pool.get index).matchStart) capture.streamStartEpochMs unused with
    | none => rw [List.zipWith_cons_cons, ih]
    | some index =>
      dsimp only
      split_ifs <;> rw [List.zipWith_cons_cons, ih]

theorem identified_of_choices {captures : List CaptureRow} {indices : List (Fin pool.length)}
    (hlength : captures.length = indices.length) :
    Identified (List.zipWith (labelCapture pool) captures (indices.map some))
      (indices.map pool.get) := by
  induction captures generalizing indices with
  | nil =>
    obtain rfl : indices = [] := List.length_eq_zero_iff.mp hlength.symm
    exact List.Forall₂.nil
  | cons capture captures ih =>
    cases indices with
    | nil => exact absurd hlength (Nat.succ_ne_zero _)
    | cons index indices =>
      exact List.Forall₂.cons ⟨rfl, rfl⟩ (ih (Nat.succ.inj hlength))

/-- With distinct runs the labels determine the choices. -/
theorem choices_of_identified (hruns : Function.Injective fun index ↦ (pool.get index).run)
    {captures : List CaptureRow} {choices : List (Option (Fin pool.length))}
    {indices : List (Fin pool.length)} (hlength : captures.length = choices.length)
    (h : Identified (List.zipWith (labelCapture pool) captures choices)
      (indices.map pool.get)) : choices = indices.map some := by
  induction captures generalizing choices indices with
  | nil =>
    obtain rfl : choices = [] := List.length_eq_zero_iff.mp hlength.symm
    cases indices with
    | nil => rfl
    | cons index indices => cases h
  | cons capture captures ih =>
    cases choices with
    | nil => exact absurd hlength (Nat.succ_ne_zero _)
    | cons choice choices =>
      cases indices with
      | nil => cases h
      | cons index indices =>
        obtain ⟨⟨hrun, hmethod⟩, hrest⟩ := List.forall₂_cons.mp h
        rw [ih (Nat.succ.inj hlength) hrest, List.map_cons]
        cases choice with
        | none => cases hmethod
        | some chosen => rw [hruns (RunLabel.text.inj hrun)]

theorem length_assign {position : Fin pool.length → ℚ} {windowMs : ℚ}
    (unused : List (Fin pool.length)) (targets : List ℚ) :
    (assign position windowMs unused targets).length = targets.length := by
  induction targets generalizing unused with
  | nil => rfl
  | cons target targets ih =>
    rw [assign]
    cases nearest position target unused with
    | none => simp [ih]
    | some index =>
      dsimp only
      split_ifs <;> simp [ih]

end Labels

/-! ## A constant clock offset -/

/-- Neighbouring starts are at least `width` apart. -/
def GapsAtLeast (width : ℚ) (attempts : List AttemptRow) : Prop :=
  attempts.IsChain fun first later ↦ width ≤ later.matchStart - first.matchStart

/-- With a constant offset inside the window, every capture gets the run of its own attempt if
neighbouring starts are at least twice the offset apart, and only if, when runs are distinct. -/
theorem epoch_matching_identifies_iff (captures : List CaptureRow) (attempts : List AttemptRow)
    (target : CaptureMeta) (windowMs offset : ℚ)
    (hsorted : (candidates attempts target).Pairwise fun first later ↦
      first.matchStart < later.matchStart)
    (hoffset : |offset| ≤ windowMs)
    (hcaptures : captures.map CaptureRow.streamStartEpochMs =
      (candidates attempts target).map fun row ↦ row.matchStart + offset) :
    (GapsAtLeast (2 * offset) (candidates attempts target) →
      Identified (matchAttemptRuns captures attempts target windowMs)
        (candidates attempts target)) ∧
    (((candidates attempts target).map AttemptRow.run).Nodup →
      Identified (matchAttemptRuns captures attempts target windowMs)
        (candidates attempts target) →
      GapsAtLeast (2 * offset) (candidates attempts target)) := by
  unfold matchAttemptRuns
  dsimp only
  generalize candidates attempts target = pool at *
  have hpool : (List.finRange pool.length).map pool.get = pool := List.map_get_finRange pool
  have hstarts : captures.map CaptureRow.streamStartEpochMs =
      (List.finRange pool.length).map fun index ↦ (pool.get index).matchStart + offset := by
    conv_lhs => rw [hcaptures, ← hpool, List.map_map]
    rfl
  have hindices : (List.finRange pool.length).Pairwise fun first later ↦
      first < later ∧ (pool.get first).matchStart < (pool.get later).matchStart := by
    rw [← hpool, List.pairwise_map] at hsorted
    exact (List.pairwise_lt_finRange _).and hsorted
  have hassign := assign_shifted_iff hindices hoffset
  rw [pairwise_gaps_iff (hindices.imp And.right), ← hstarts] at hassign
  have hgaps : GapsAtLeast (2 * offset) pool ↔ (List.finRange pool.length).IsChain
      fun first later ↦ 2 * offset ≤ (pool.get later).matchStart - (pool.get first).matchStart := by
    unfold GapsAtLeast
    conv_lhs => rw [← hpool, List.isChain_map]
  have hlength : captures.length = (List.finRange pool.length).length := by
    simpa using congrArg List.length hstarts
  rw [matchLoop_eq_zipWith, hgaps, ← hassign]
  constructor
  · intro hchoices
    rw [hchoices]
    simpa only [hpool] using identified_of_choices hlength
  · intro hruns hidentified
    have hinjective : Function.Injective fun index ↦ (pool.get index).run := by
      rw [← hpool, List.map_map] at hruns
      exact fun first second heq ↦
        List.inj_on_of_nodup_map hruns (List.mem_finRange first) (List.mem_finRange second) heq
    refine choices_of_identified hinjective ?_ (by simpa only [hpool] using hidentified)
    rw [length_assign, List.length_map]

/-- An attempt of the first campaign on a Pico 2 W, started at a time. -/
def hawkAttempt (run : String) (tcpStart : ℚ) : AttemptRow where
  scheme := some "HAWK-512"
  board := some "pico2_w"
  campaign := some "1"
  run := run
  startEpochMs := .number 500
  tcpStartEpochMs := .number tcpStart

def hawkCapture (start : ℚ) : CaptureRow := ⟨start, .index 0, .sequential⟩

/-- Three seconds apart and ten milliseconds off, with one attempt that opened no stream. -/
theorem epoch_matching_identifies_ten_ms_offset :
    let attempts := [hawkAttempt "0" 1000, hawkAttempt "1" 0, hawkAttempt "2" 4000]
    let captures := [hawkCapture 1010, hawkCapture 4010]
    let target : CaptureMeta := ⟨"HAWK-512", "pico2_w", "1"⟩
    (GapsAtLeast (2 * 10) (candidates attempts target) →
      Identified (matchAttemptRuns captures attempts target 500) (candidates attempts target)) ∧
    (((candidates attempts target).map AttemptRow.run).Nodup →
      Identified (matchAttemptRuns captures attempts target 500) (candidates attempts target) →
      GapsAtLeast (2 * 10) (candidates attempts target)) :=
  epoch_matching_identifies_iff [hawkCapture 1010, hawkCapture 4010]
    [hawkAttempt "0" 1000, hawkAttempt "1" 0, hawkAttempt "2" 4000] ⟨"HAWK-512", "pico2_w", "1"⟩
    500 10 (by decide +kernel) (by norm_num) (by decide +kernel)

/-- With starts 800 ms apart and an offset of 900 ms, inside the default window, the first
capture is given the run of the second attempt. -/
theorem epoch_matching_shifts_runs_at_900_ms :
    let attempts := [hawkAttempt "0" 1000, hawkAttempt "1" 1800]
    let captures := [hawkCapture 1900, hawkCapture 2700]
    let target : CaptureMeta := ⟨"HAWK-512", "pico2_w", "1"⟩
    (candidates attempts target).Pairwise
        (fun first later ↦ first.matchStart < later.matchStart) ∧
      captures.map CaptureRow.streamStartEpochMs =
        (candidates attempts target).map (fun row ↦ row.matchStart + 900) ∧
      |(900 : ℚ)| ≤ 1000 ∧
      ¬ Identified (matchAttemptRuns captures attempts target 1000)
        (candidates attempts target) :=
  ⟨by decide +kernel, by decide +kernel, by norm_num, by decide +kernel⟩

end PqMqtt.Analysis
