import Mathlib.Data.List.Rotate
import Mathlib.Tactic

/-!
# The flashing schedule of a benchmark campaign

`generate_tls_campaign_order.py` rotates one shuffled list of the eight schemes by the campaign
number, adds half a rotation for every further board and reverses the order in even campaigns.
Rotation step and reversal cancel modulo 2: whatever the shuffle, the board and the campaign,
the scheme at an odd position has an even index in the shuffled list and the other way round.
-/

namespace PqMqtt.Campaign

/-! ## The generator -/

/-- `SCHEMES` -/
inductive Scheme where
  | plain
  | ecdsaP256
  | rsa2048
  | mldsa44
  | hawk512
  | falcon512
  | mayo1
  | snova2454164
deriving DecidableEq

namespace Scheme

def all : List Scheme :=
  [plain, ecdsaP256, rsa2048, mldsa44, hawk512, falcon512, mayo1, snova2454164]

def name : Scheme → String
  | plain => "plain"
  | ecdsaP256 => "ecdsa_p256"
  | rsa2048 => "rsa2048"
  | mldsa44 => "mldsa44"
  | hawk512 => "hawk512"
  | falcon512 => "falcon512"
  | mayo1 => "mayo1"
  | snova2454164 => "snova_24_5_16_4"

theorem nodup_all : all.Nodup := by decide

end Scheme

/-- What `rng.shuffle(base)` can leave in `base`: some order of the schemes for every seed. -/
structure ShuffledBase where
  schemes : List Scheme
  perm : schemes.Perm Scheme.all

theorem ShuffledBase.length (base : ShuffledBase) : base.schemes.length = 8 :=
  base.perm.length_eq

theorem ShuffledBase.nodup (base : ShuffledBase) : base.schemes.Nodup :=
  base.perm.nodup_iff.mpr Scheme.nodup_all

structure Row where
  board : String
  campaign : ℕ
  position : ℕ
  scheme : Scheme
  target : String

inductive GenerateError where
  | campaignsNotPositive
  | noRows

/-- `order` for one board and one campaign. -/
def campaignOrder (base : List Scheme) (boardIndex campaign : ℕ) : List Scheme :=
  let shift := (campaign - 1 + boardIndex * (base.length / 2)) % base.length
  let order := base.drop shift ++ base.take shift
  if campaign % 2 = 0 then order.reverse else order

/-- Rows of one board and one campaign; positions are counted from 1. -/
def campaignRows (base : List Scheme) (board : String) (boardIndex campaign : ℕ) : List Row :=
  ((campaignOrder base boardIndex campaign).zipIdx 1).map fun (scheme, position) ↦
    { board, campaign, position, scheme, target := "mqtt_client_" ++ scheme.name }

def scheduleRows (base : List Scheme) (boards : List String) (campaigns : ℕ) : List Row :=
  boards.zipIdx.flatMap fun (board, boardIndex) ↦
    (List.range' 1 campaigns).flatMap (campaignRows base board boardIndex)

/-- The rows `main` writes for the boards it has parsed.  Without a campaign it stops at the
argument check, without a board at `rows[0]`. -/
def generate (base : List Scheme) (boards : List String) (campaigns : ℕ) :
    Except GenerateError (List Row) :=
  if campaigns < 1 then .error .campaignsNotPositive
  else
    let rows := scheduleRows base boards campaigns
    if rows = [] then .error .noRows else .ok rows

/-! ## Parity of the positions -/

/-- Index in the shuffled list of the scheme that `campaignOrder` puts at index `slot`. -/
def orderIndex (boardIndex campaign slot : ℕ) : ℕ :=
  let shift := (campaign - 1 + boardIndex * 4) % 8
  if campaign % 2 = 0 then (7 - slot + shift) % 8 else (slot + shift) % 8

/-- Reversal and rotation step cancel modulo 2. -/
theorem orderIndex_parity (boardIndex : ℕ) {campaign slot : ℕ} (hcampaign : 0 < campaign)
    (hslot : slot < 8) : orderIndex boardIndex campaign slot % 2 = slot % 2 := by
  unfold orderIndex
  dsimp only
  split_ifs with heven
  · omega
  · omega

section Order

variable {base : List Scheme} (hlength : base.length = 8) (boardIndex campaign : ℕ)

include hlength

theorem length_campaignOrder : (campaignOrder base boardIndex campaign).length = 8 := by
  have hrotated : ∀ shift, (base.drop shift ++ base.take shift).length = 8 := by
    intro shift
    rw [List.length_append, List.length_drop, List.length_take, hlength]
    omega
  unfold campaignOrder
  dsimp only
  split_ifs
  · rw [List.length_reverse, hrotated]
  · exact hrotated _

theorem getElem?_campaignOrder {slot : ℕ} (hslot : slot < 8) :
    (campaignOrder base boardIndex campaign)[slot]? =
      base[orderIndex boardIndex campaign slot]? := by
  have hshift : (campaign - 1 + boardIndex * (base.length / 2)) % base.length =
      (campaign - 1 + boardIndex * 4) % 8 := by rw [hlength]
  have hrotate : base.drop ((campaign - 1 + boardIndex * 4) % 8) ++
      base.take ((campaign - 1 + boardIndex * 4) % 8) =
        base.rotate ((campaign - 1 + boardIndex * 4) % 8) :=
    (List.rotate_eq_drop_append_take (by omega)).symm
  unfold campaignOrder orderIndex
  dsimp only
  rw [hshift, hrotate]
  split_ifs
  · rw [List.getElem?_reverse (by rwa [List.length_rotate, hlength]), List.length_rotate, hlength,
      List.getElem?_rotate (by omega), hlength]
  · rw [List.getElem?_rotate (by omega), hlength]

end Order

theorem mem_campaignRows {base : List Scheme} {board : String} {boardIndex campaign : ℕ}
    {row : Row} (h : row ∈ campaignRows base board boardIndex campaign) :
    1 ≤ row.position ∧
      (campaignOrder base boardIndex campaign)[row.position - 1]? = some row.scheme := by
  unfold campaignRows at h
  obtain ⟨⟨scheme, position⟩, hmem, rfl⟩ := List.mem_map.mp h
  exact List.mk_mem_zipIdx_iff_le_and_getElem?_sub.mp hmem

/-- Every row of a schedule takes its scheme from an index of the shuffled list that differs in
parity from its position. -/
theorem scheduleRows_parity (base : ShuffledBase) (boards : List String) (campaigns : ℕ)
    {row : Row} (h : row ∈ scheduleRows base.schemes boards campaigns) :
    ∃ index, base.schemes[index]? = some row.scheme ∧ index % 2 = (row.position - 1) % 2 := by
  obtain ⟨⟨board, boardIndex⟩, -, hboard⟩ := List.mem_flatMap.mp h
  obtain ⟨campaign, hcampaign, hrow⟩ := List.mem_flatMap.mp hboard
  have hpositive : 0 < campaign := (List.mem_range'_1.mp hcampaign).1
  obtain ⟨-, hscheme⟩ := mem_campaignRows hrow
  have hslot : row.position - 1 < 8 := by
    have hinside := (List.getElem?_eq_some_iff.mp hscheme).1
    rwa [length_campaignOrder base.length] at hinside
  rw [getElem?_campaignOrder base.length boardIndex campaign hslot] at hscheme
  exact ⟨_, hscheme, orderIndex_parity boardIndex hpositive hslot⟩

/-! ## Balance -/

/-- How often a scheme stands at a position in the rows of a board. -/
def occurrences (rows : List Row) (board : String) (position : ℕ) (scheme : Scheme) : ℕ :=
  rows.countP fun row ↦ row.board = board && row.position = position && row.scheme = scheme

/-- Every scheme stands exactly `k` times at each of the positions 1 to 8 of every board. -/
def Balanced (rows : List Row) (boards : List String) (k : ℕ) : Prop :=
  ∀ board ∈ boards, ∀ position, 1 ≤ position → position ≤ 8 → ∀ scheme,
    occurrences rows board position scheme = k

/-- The second scheme of the shuffled list never comes first. -/
theorem occurrences_second_scheme_first (base : ShuffledBase) (boards : List String)
    (campaigns : ℕ) (board : String) {scheme : Scheme} (hscheme : base.schemes[1]? = some scheme) :
    occurrences (scheduleRows base.schemes boards campaigns) board 1 scheme = 0 := by
  refine List.countP_eq_zero.mpr fun row hrow hmatch ↦ ?_
  simp only [Bool.and_eq_true, decide_eq_true_eq] at hmatch
  obtain ⟨⟨-, hposition⟩, heq⟩ := hmatch
  obtain ⟨index, hindex, hparity⟩ := scheduleRows_parity base boards campaigns hrow
  rw [heq] at hindex
  have hsame : index = 1 := by
    have hinside := (List.getElem?_eq_some_iff.mp hindex).1
    exact (List.getElem?_inj hinside base.nodup).mp (hindex.trans hscheme.symm)
  rw [hposition, hsame] at hparity
  exact absurd hparity (by decide)

/-- No schedule is balanced: not for any shuffle, any boards and any number of campaigns. -/
theorem schedule_never_balanced (base : ShuffledBase) (boards : List String) (k : ℕ) :
    ¬ ∃ rows, generate base.schemes boards (8 * k) = .ok rows ∧ Balanced rows boards k := by
  rintro ⟨rows, hrows, hbalanced⟩
  unfold generate at hrows
  dsimp only at hrows
  split_ifs at hrows with hnone hempty
  obtain rfl : scheduleRows base.schemes boards (8 * k) = rows := Except.ok.inj hrows
  obtain ⟨board, hboard⟩ : ∃ board, board ∈ boards := by
    by_contra hboards
    have hnil : boards = [] := List.eq_nil_iff_forall_not_mem.mpr (not_exists.mp hboards)
    exact hempty (by rw [hnil]; rfl)
  have hlong : 1 < base.schemes.length := by rw [base.length]; norm_num
  have hcount := hbalanced board hboard 1 (by norm_num) (by norm_num) base.schemes[1]
  rw [occurrences_second_scheme_first base boards (8 * k) board
    (List.getElem?_eq_getElem hlong)] at hcount
  omega

/-- `SCHEMES` in its own order. -/
def unshuffled : ShuffledBase := ⟨Scheme.all, .refl _⟩

/-- Eight campaigns on both boards never start with the second scheme. -/
theorem schedule_not_balanced_eight_campaigns :
    ¬ ∃ rows, generate unshuffled.schemes ["pico_w", "pico2_w"] (8 * 1) = .ok rows ∧
      Balanced rows ["pico_w", "pico2_w"] 1 := by
  rintro ⟨rows, hrows, hbalanced⟩
  obtain rfl : scheduleRows unshuffled.schemes ["pico_w", "pico2_w"] 8 = rows :=
    Except.ok.inj hrows
  have hcount := hbalanced "pico_w" (by decide) 1 (by norm_num) (by norm_num) .ecdsaP256
  revert hcount
  decide

end PqMqtt.Campaign
