import PqMqtt.Analysis.EpochMatching
import PqMqtt.Analysis.Printf
import PqMqtt.Foundation.KeyedJoin

/-!
# Joining captured streams to attempts

`analyze_tls_pcaps.py` writes the capture rows of all captures of a manifest, matched to attempts
by time, and `summarize_tls_capture_effects.py` joins them to the attempts by scheme, board,
campaign and run.  The join is the matching exactly when these texts tell the matched attempts
from all others.  Rows keep their texts in the CSV files; attempts and capture rows are named by
their positions, since nothing else tells two rows with the same texts apart.
-/

namespace PqMqtt.Analysis

open NearestMatching

/-! ## Capture rows -/

/-- A row of the manifest, with the rows of `summarize_capture`. -/
structure ManifestRow where
  target : CaptureMeta
  captures : List CaptureRow

/-- A row of the capture CSV: the columns that the join reads. -/
structure PcapRow where
  target : CaptureMeta
  capture : CaptureRow

section Pipeline

variable (attempts : List AttemptRow) (windowMs : ℚ)

/-- The body of the loop over the manifest in `main`. -/
def captureRows (entry : ManifestRow) : List PcapRow :=
  let labelled :=
    if attempts.isEmpty then entry.captures
    else matchAttemptRuns entry.captures attempts entry.target windowMs
  labelled.map (⟨entry.target, ·⟩)

/-- The rows of the capture CSV. -/
def pcapCsv (manifest : List ManifestRow) : List PcapRow :=
  manifest.flatMap (captureRows attempts windowMs)

/-! ## The matched attempts -/

/-- The positions of the candidates among the attempts. -/
def candidatePositions (target : CaptureMeta) : List (Fin attempts.length) :=
  (List.finRange attempts.length).filter fun position ↦
    (attempts.get position).Selected target && 0 < (attempts.get position).startOrZero

theorem map_get_candidatePositions (target : CaptureMeta) :
    (candidatePositions attempts target).map attempts.get = candidates attempts target := by
  conv_rhs => rw [candidates, ← List.map_get_finRange attempts, List.filter_map]
  rfl

/-- The position of a candidate. -/
def candidateAt (target : CaptureMeta) (index : Fin (candidates attempts target).length) :
    Fin attempts.length :=
  (candidatePositions attempts target).get
    (index.cast (by rw [← map_get_candidatePositions, List.length_map]))

theorem get_candidateAt (target : CaptureMeta)
    (index : Fin (candidates attempts target).length) :
    attempts.get (candidateAt attempts target index) = (candidates attempts target).get index := by
  have hlength : index.val < (candidatePositions attempts target).length := by
    rw [← List.length_map (f := attempts.get), map_get_candidatePositions]
    exact index.isLt
  have hmap : ((candidatePositions attempts target).map attempts.get)[index.val]?
      = (candidates attempts target)[index.val]? := by
    rw [map_get_candidatePositions]
  rw [List.getElem?_map, List.getElem?_eq_getElem hlength,
    List.getElem?_eq_getElem index.isLt] at hmap
  exact Option.some.inj hmap

/-- The attempts that the capture rows of a manifest row are matched to. -/
def chosenAttempts (entry : ManifestRow) : List (Option (Fin attempts.length)) :=
  let pool := candidates attempts entry.target
  (assign (fun index : Fin pool.length ↦ (pool.get index).matchStart) windowMs
    (List.finRange pool.length) (entry.captures.map CaptureRow.streamStartEpochMs)).map
      (Option.map (candidateAt attempts entry.target))

/-- The attempt that a row of the capture CSV is matched to. -/
def epochMatch (manifest : List ManifestRow)
    (row : Fin (pcapCsv attempts windowMs manifest).length) : Option (Fin attempts.length) :=
  (manifest.flatMap (chosenAttempts attempts windowMs)).getD row none

/-! ## The join -/

/-- `(scheme, board, campaign, run)`, stripped. -/
abbrev JoinKey := Text × Text × Text × Text

/-- The text of `run` in the CSV file. -/
def RunLabel.cell : RunLabel → Text
  | index run => formatD run
  | text run => run.toList

/-- `normalized_key` of an attempt; a row that ends before a column has `None` there. -/
def AttemptRow.normalizedKey (row : AttemptRow) : JoinKey :=
  (strip (row.scheme.getD "None").toList, strip (row.board.getD "None").toList,
    strip (row.campaign.getD "None").toList, strip row.run.toList)

/-- `normalized_key` of a capture row. -/
def PcapRow.normalizedKey (row : PcapRow) : JoinKey :=
  (strip row.target.scheme.toList, strip row.target.board.toList,
    strip row.target.campaign.toList, strip row.capture.run.cell)

/-- The positions of the rows that `joined` merges. -/
def joined (rows : List PcapRow) : List (Fin attempts.length × Fin rows.length) :=
  KeyedJoin.join (fun attempt ↦ (attempts.get attempt).normalizedKey)
    (fun row ↦ (rows.get row).normalizedKey) (List.finRange attempts.length)
    (List.finRange rows.length)

end Pipeline

/-! ## Keys of matched rows -/

section Keys

variable {attempts : List AttemptRow} {windowMs : ℚ}

theorem length_captureRows (entry : ManifestRow) :
    (captureRows attempts windowMs entry).length =
      (chosenAttempts attempts windowMs entry).length := by
  have hassign : (assign
      (fun index ↦ ((candidates attempts entry.target).get index).matchStart) windowMs
      (List.finRange (candidates attempts entry.target).length)
      (entry.captures.map CaptureRow.streamStartEpochMs)).length
        = (entry.captures.map CaptureRow.streamStartEpochMs).length := length_assign _ _
  simp only [captureRows, chosenAttempts, List.length_map, hassign]
  split
  · rfl
  · simp only [matchAttemptRuns, matchLoop_eq_zipWith, List.length_zipWith, hassign,
      List.length_map, min_self]

/-- A capture that is matched has the columns of its attempt. -/
theorem normalizedKey_labelCapture {target : CaptureMeta} (capture : CaptureRow)
    (index : Fin (candidates attempts target).length) :
    PcapRow.normalizedKey ⟨target, labelCapture (candidates attempts target) capture (some index)⟩ =
      ((candidates attempts target).get index).normalizedKey := by
  have hmem : (candidates attempts target).get index ∈ candidates attempts target :=
    List.get_mem _ _
  obtain ⟨-, hselected⟩ := List.mem_filter.mp hmem
  rw [Bool.and_eq_true] at hselected
  have hcolumns := hselected.1
  simp only [AttemptRow.Selected, Bool.and_eq_true, decide_eq_true_eq] at hcolumns
  obtain ⟨⟨hscheme, hboard⟩, hcampaign⟩ := hcolumns
  simp only [PcapRow.normalizedKey, AttemptRow.normalizedKey, labelCapture, RunLabel.cell,
    hscheme, hboard, hcampaign, Option.getD_some]

theorem exists_of_mem_zip_zipWith {α β γ δ : Type} {f : α → β → γ} {g : β → δ} {firsts : List α}
    {seconds : List β} {pair : γ × δ}
    (h : pair ∈ (List.zipWith f firsts seconds).zip (seconds.map g)) :
    ∃ first second, pair = (f first second, g second) := by
  obtain ⟨index, hindex⟩ := List.mem_iff_getElem?.mp h
  obtain ⟨hleft, hright⟩ := List.getElem?_zip_eq_some.mp hindex
  obtain ⟨first, second, -, hsecond, hpair⟩ := List.getElem?_zipWith_eq_some.mp hleft
  rw [List.getElem?_map, hsecond, Option.map_some] at hright
  exact ⟨first, second, Prod.ext hpair.symm (Option.some.inj hright).symm⟩

theorem key_of_mem_zip {entry : ManifestRow} {row : PcapRow} {attempt : Fin attempts.length}
    (h : (row, some attempt) ∈
      (captureRows attempts windowMs entry).zip (chosenAttempts attempts windowMs entry)) :
    row.normalizedKey = (attempts.get attempt).normalizedKey := by
  have hsome : attempts.isEmpty = false := by
    rw [List.isEmpty_eq_false_iff_exists_mem]
    exact ⟨attempts.get attempt, List.get_mem _ _⟩
  simp only [captureRows, hsome, Bool.false_eq_true, if_false, chosenAttempts, matchAttemptRuns,
    matchLoop_eq_zipWith, List.map_zipWith] at h
  obtain ⟨capture, choice, heq⟩ := exists_of_mem_zip_zipWith h
  obtain ⟨rfl, hchoice⟩ := Prod.mk.inj heq
  cases choice with
  | none => cases hchoice
  | some index =>
    obtain rfl := Option.some.inj hchoice
    rw [normalizedKey_labelCapture, get_candidateAt]

theorem zip_pcapCsv (manifest : List ManifestRow) :
    (pcapCsv attempts windowMs manifest).zip
        (manifest.flatMap (chosenAttempts attempts windowMs)) =
      manifest.flatMap fun entry ↦
        (captureRows attempts windowMs entry).zip (chosenAttempts attempts windowMs entry) := by
  induction manifest with
  | nil => rfl
  | cons entry manifest ih =>
    rw [pcapCsv, List.flatMap_cons, List.flatMap_cons, List.flatMap_cons,
      List.zip_append (length_captureRows entry), ← ih]
    rfl

/-- A row of the capture CSV is matched to an attempt with its key. -/
theorem key_of_epochMatch {manifest : List ManifestRow}
    {row : Fin (pcapCsv attempts windowMs manifest).length} {attempt : Fin attempts.length}
    (h : epochMatch attempts windowMs manifest row = some attempt) :
    ((pcapCsv attempts windowMs manifest).get row).normalizedKey =
      (attempts.get attempt).normalizedKey := by
  have hchoice : (manifest.flatMap (chosenAttempts attempts windowMs))[row.val]?
      = some (some attempt) := by
    rw [epochMatch, List.getD_eq_getElem?_getD] at h
    cases hfound : (manifest.flatMap (chosenAttempts attempts windowMs))[row.val]? with
    | none =>
      rw [hfound] at h
      cases h
    | some choice =>
      rw [hfound] at h
      exact congrArg some h
  have hrow : (pcapCsv attempts windowMs manifest)[row.val]?
      = some ((pcapCsv attempts windowMs manifest).get row) := List.getElem?_eq_getElem row.isLt
  have hmem : ((pcapCsv attempts windowMs manifest).get row, some attempt) ∈
      (pcapCsv attempts windowMs manifest).zip
        (manifest.flatMap (chosenAttempts attempts windowMs)) :=
    List.mem_of_getElem? (List.getElem?_zip_eq_some.mpr ⟨hrow, hchoice⟩)
  rw [zip_pcapCsv, List.mem_flatMap] at hmem
  obtain ⟨entry, -, hentry⟩ := hmem
  exact key_of_mem_zip hentry

end Keys

/-! ## Attribution -/

/-- The keys of attempts and capture rows tell the matched pairs from all others. -/
def KeysSeparate (attempts : List AttemptRow) (windowMs : ℚ) (manifest : List ManifestRow) :
    Prop :=
  KeyedJoin.Separated (fun attempt ↦ (attempts.get attempt).normalizedKey)
    (fun row ↦ ((pcapCsv attempts windowMs manifest).get row).normalizedKey)
    (List.finRange attempts.length) (List.finRange (pcapCsv attempts windowMs manifest).length)
    (epochMatch attempts windowMs manifest)

/-- The joined pairs are the matched pairs, for every manifest, exactly when keys tell the matched
pairs from all others. -/
theorem join_attributes_iff (attempts : List AttemptRow) (windowMs : ℚ)
    (manifest : List ManifestRow) :
    ((∀ attempt row, (attempt, row) ∈ joined attempts (pcapCsv attempts windowMs manifest) ↔
        epochMatch attempts windowMs manifest row = some attempt) ∧
      ((joined attempts (pcapCsv attempts windowMs manifest)).map Prod.snd).Nodup) ↔
      KeysSeparate attempts windowMs manifest := by
  have hkeys : KeyedJoin.KeysAgree (fun attempt ↦ (attempts.get attempt).normalizedKey)
      (fun row ↦ ((pcapCsv attempts windowMs manifest).get row).normalizedKey)
      (List.finRange attempts.length)
      (List.finRange (pcapCsv attempts windowMs manifest).length)
      (epochMatch attempts windowMs manifest) :=
    fun _ _ attempt hmatched ↦ ⟨List.mem_finRange attempt, key_of_epochMatch hmatched⟩
  rw [KeysSeparate, ← KeyedJoin.attributed_iff (List.nodup_finRange _) (List.nodup_finRange _)
    hkeys]
  constructor
  · intro ⟨hpairs, honce⟩
    refine ⟨fun attempt row ↦ ?_, honce⟩
    rw [and_iff_right (List.mem_finRange row)]
    exact hpairs attempt row
  · intro ⟨hpairs, honce⟩
    exact ⟨fun attempt row ↦ (hpairs attempt row).trans (and_iff_right (List.mem_finRange row)),
      honce⟩

/-- A campaign that is run again: both captures are matched in time, and the second one is
attributed to both attempts. -/
theorem repeated_campaign_is_joined_twice :
    let attempts := [hawkAttempt "0" 1000, hawkAttempt "0" 9000]
    let manifest : List ManifestRow :=
      [⟨⟨"HAWK-512", "pico2_w", "1"⟩, [hawkCapture 1010, hawkCapture 9010]⟩]
    (List.ofFn (epochMatch attempts 1000 manifest)).map (Option.map Fin.val) = [some 0, some 1] ∧
      (joined attempts (pcapCsv attempts 1000 manifest)).map (fun pair ↦
        (pair.1.val, pair.2.val)) = [(0, 1), (1, 1)] := by
  decide +kernel

end PqMqtt.Analysis
