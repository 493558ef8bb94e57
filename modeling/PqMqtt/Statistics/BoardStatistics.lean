import Mathlib.Data.List.MinMax
import PqMqtt.Analysis.StatisticsRange
import PqMqtt.Statistics.PooledDeviation

/-!
# The statistics of the board in doubles

`print_stat_row` computes in doubles like `robust_stats` of the host, but by other loops: it finds
the least and the greatest value before it sorts, and its quantiles step from an index to the next
one where the host rounds up.  On finite values that are not too large both return the same
doubles.
-/

namespace PqMqtt.Statistics

open Analysis Binary64

/-! ## The firmware -/

/-- `v[index]` -/
def boardItem (v : List Double) (index : ℕ) : Double := v.getD index .nan

/-- The conversion to `unsigned` of a number that is not negative. -/
def toUnsigned : Double → ℕ
  | .fin x => ⌊x⌋.toNat
  | _ => 0

/-- `quantile_sorted` in doubles. -/
def boardQuantile (v : List Double) (p : Double) : Double :=
  let n := v.length
  if n = 1 then boardItem v 0
  else
    let pos := p.mul (ofRat (n - 1 : ℕ))
    let lo := toUnsigned pos
    let hi := if lo + 1 < n then lo + 1 else lo
    let frac := pos.sub (ofRat lo)
    (boardItem v lo).add (frac.mul ((boardItem v hi).sub (boardItem v lo)))

/-- `qsort` with `cmp_double`. -/
def boardSort (v : List Double) : List Double := v.insertionSort fun x y ↦ y.lt x = false

/-- The first loop of `print_stat_row`: the sum, the least and the greatest value. -/
def boardLoop (v : List Double) (first : Double) : Double × Double × Double :=
  v.foldl (fun acc x ↦
    (acc.1.add x, if x.lt acc.2.1 then x else acc.2.1, if acc.2.2.lt x then x else acc.2.2))
    (.fin 0, first, first)

/-- The second loop. -/
def boardVariance (v : List Double) (mean : Double) : Double :=
  v.foldl (fun variance x ↦ variance.add ((x.sub mean).mul (x.sub mean))) (.fin 0)

/-- `print_stat_row` in doubles; `none` stands for a metric without observations. -/
def boardStatRow (sqrt : Double → Double) (v : List Double) : Option (StatRow Double) :=
  match v with
  | [] => none
  | first :: _ =>
    let n := v.length
    let loop := boardLoop v first
    let mean := loop.1.div (ofRat n)
    let variance := boardVariance v mean
    let values := boardSort v
    some
      { n := n
        mean := mean
        stddev := sqrt (variance.div (if 1 < n then ofRat (n - 1 : ℕ) else .fin 1))
        mn := loop.2.1
        mx := loop.2.2
        q1 := boardQuantile values (.fin (1 / 4))
        median := boardQuantile values (.fin (1 / 2))
        q3 := boardQuantile values (.fin (3 / 4))
        p90 := boardQuantile values (ofRat (90 / 100))
        p99 := boardQuantile values (ofRat (99 / 100)) }

/-! ## Quantiles -/

/-- The value is a finite double whose differences with others of the kind are finite. -/
def Moderate (x : Double) : Prop := ∃ q : ℚ, x = .fin q ∧ |q| < 2 ^ 1021

theorem Moderate.ne_nan {x : Double} (h : Moderate x) : x ≠ .nan := by
  obtain ⟨q, rfl, -⟩ := h
  exact Double.noConfusion

/-- A finite difference times zero is zero. -/
theorem zero_mul_sub {x y : Double} (hx : Moderate x) (hy : Moderate y) :
    (Double.fin 0).mul (x.sub y) = .fin 0 := by
  obtain ⟨p, rfl, hp⟩ := hx
  obtain ⟨q, rfl, hq⟩ := hy
  have hdifference : |p + -q| < 2 ^ 1022 := by
    calc |p + -q| ≤ |p| + |-q| := abs_add_le p (-q)
      _ < 2 ^ 1021 + 2 ^ 1021 := by
        rw [abs_neg]
        exact add_lt_add hp hq
      _ = 2 ^ 1022 := by rw [← two_mul, ← pow_succ']
  have hsub : (Double.fin p).sub (.fin q) = .fin (Binary64.round (p + -q)) :=
    ofRat_eq_fin hdifference
  have hzero : ofRat ((0 : ℤ) : ℚ) = .fin ((0 : ℤ) : ℚ) := ofRat_intCast (by norm_num)
  rw [hsub]
  change ofRat (0 * _) = .fin 0
  rwa [zero_mul, ← Int.cast_zero]

section Quantiles

variable {v : List Double}

theorem moderate_boardItem (h : ∀ x ∈ v, Moderate x) {index : ℕ} (hindex : index < v.length) :
    Moderate (boardItem v index) := by
  rw [boardItem, List.getD_eq_getElem?_getD, List.getElem?_eq_getElem hindex, Option.getD_some]
  exact h _ (List.getElem_mem hindex)

theorem getD_map_float (v : List Double) (index : ℕ) :
    (v.map Number.float).getD index Number.nan = .float (boardItem v index) := by
  rw [List.getD_eq_getElem?_getD, List.getElem?_map, boardItem, List.getD_eq_getElem?_getD]
  cases v[index]? <;> rfl

/-- The position of a quantile lies between the indices of the first and the last value. -/
theorem exists_boardPosition {p : ℚ} (hp : 0 ≤ p) (hp' : p ≤ 1) {last : ℕ} (hlast : last < 2 ^ 53) :
    ∃ position : ℚ, (Double.fin p).mul (ofRat last) = .fin position ∧ 0 ≤ position ∧
      position ≤ last := by
  have hcast : ofRat (last : ℚ) = .fin last := by
    have hint : |(last : ℤ)| < 2 ^ 53 := by
      rw [abs_of_nonneg (Int.natCast_nonneg last)]
      exact_mod_cast hlast
    exact_mod_cast ofRat_intCast hint
  have hnonneg : 0 ≤ p * last := mul_nonneg hp (Nat.cast_nonneg _)
  have hle : p * last ≤ last := mul_le_of_le_one_left (Nat.cast_nonneg _) hp'
  have hfinite : |p * last| < 2 ^ 1022 := by
    rw [abs_of_nonneg hnonneg]
    calc p * last ≤ last := hle
      _ < 2 ^ 53 := by exact_mod_cast hlast
      _ ≤ 2 ^ 1022 := pow_le_pow_right₀ (by norm_num) (by norm_num)
  refine ⟨Binary64.round (p * last), ?_, round_nonneg hnonneg, ?_⟩
  · rw [hcast]
    exact ofRat_eq_fin hfinite
  · have hbelow : p * last ≤ ((last : ℤ) : ℚ) := hle
    exact round_le_intCast hnonneg hbelow (by exact_mod_cast hlast)

/-- Where the host rounds up, the board steps to the next index: at a whole position neither
moves. -/
theorem mul_gap_eq (hv : ∀ x ∈ v, Moderate x) {position : ℚ} (hnonneg : 0 ≤ position)
    (hle : position ≤ (v.length - 1 : ℕ)) (hpos : 0 < v.length) :
    ((Double.fin position).sub (.fin ⌊position⌋.toNat)).mul
        ((boardItem v ⌈position⌉.toNat).sub (boardItem v ⌊position⌋.toNat))
      = ((Double.fin position).sub (.fin ⌊position⌋.toNat)).mul
          ((boardItem v (if ⌊position⌋.toNat + 1 < v.length then ⌊position⌋.toNat + 1
            else ⌊position⌋.toNat)).sub (boardItem v ⌊position⌋.toNat)) := by
  have hfloor : ((⌊position⌋.toNat : ℕ) : ℤ) = ⌊position⌋ :=
    Int.toNat_of_nonneg (Int.floor_nonneg.mpr hnonneg)
  have hceil : ⌈position⌉ ≤ ((v.length - 1 : ℕ) : ℤ) := Int.ceil_le.mpr hle
  have horder : ⌊position⌋ ≤ ⌈position⌉ := Int.floor_le_ceil position
  have hnext : ⌈position⌉ ≤ ⌊position⌋ + 1 := Int.ceil_le_floor_add_one position
  rcases horder.eq_or_lt with hwhole | hbetween
  · have hposition : position = ((⌊position⌋.toNat : ℕ) : ℚ) := by
      have hle' : position ≤ ⌊position⌋ := hwhole ▸ Int.le_ceil position
      have heq : (⌊position⌋ : ℚ) = position := le_antisymm (Int.floor_le position) hle'
      rw [← Int.cast_natCast, hfloor, heq]
    have hfraction : (Double.fin position).sub (.fin ⌊position⌋.toNat) = .fin 0 := by
      have hzero : ofRat ((0 : ℤ) : ℚ) = .fin ((0 : ℤ) : ℚ) := ofRat_intCast (by norm_num)
      change ofRat (position + -((⌊position⌋.toNat : ℕ) : ℚ)) = .fin 0
      rwa [← hposition, add_neg_cancel, ← Int.cast_zero]
    have hitem {index : ℕ} (hindex : index < v.length) : Moderate (boardItem v index) :=
      moderate_boardItem hv hindex
    rw [hfraction, zero_mul_sub (hitem (by omega)) (hitem (by omega)),
      zero_mul_sub (hitem (by split_ifs <;> omega)) (hitem (by omega))]
  · have hindex : ⌈position⌉.toNat = ⌊position⌋.toNat + 1 := by omega
    rw [hindex, if_pos (by omega)]

/-- On moderate values the host's quantile is the board's. -/
theorem quantile_map_float (hne : v ≠ []) (hlength : v.length < 2 ^ 53)
    (hv : ∀ x ∈ v, Moderate x) {p : ℚ} (hp : 0 ≤ p) (hp' : p ≤ 1) :
    Analysis.quantile (v.map Number.float) (.fin p)
      = .ok (.float (boardQuantile v (.fin p))) := by
  have hpos : 0 < v.length := List.length_pos_iff.mpr hne
  have hlast : ((v.map Number.float).length : ℚ) - 1 = ((v.length - 1 : ℕ) : ℚ) := by
    rw [List.length_map, Nat.cast_sub hpos, Nat.cast_one]
  obtain ⟨position, hposition, hnonneg, hle⟩ :=
    exists_boardPosition hp hp' (show v.length - 1 < 2 ^ 53 by omega)
  have hlo : ofRat ((⌊position⌋.toNat : ℕ) : ℚ) = .fin ((⌊position⌋.toNat : ℕ) : ℚ) := by
    have hbound : ⌊position⌋ ≤ ((v.length - 1 : ℕ) : ℤ) :=
      Int.floor_le_iff.mpr (hle.trans_lt (by exact_mod_cast Nat.lt_succ_self _))
    have hint : |((⌊position⌋.toNat : ℕ) : ℤ)| < 2 ^ 53 := by
      rw [abs_of_nonneg (Int.natCast_nonneg _)]
      omega
    exact_mod_cast ofRat_intCast hint
  unfold Analysis.quantile boardQuantile
  dsimp only [toUnsigned]
  rw [hlast, hposition, List.length_map]
  dsimp only
  rw [hlo]
  by_cases hone : v.length = 1
  · rw [if_pos hone, if_pos hone, getD_map_float]
  · rw [if_neg hone, if_neg hone, ← mul_gap_eq hv hnonneg hle hpos]
    simp only [getD_map_float]
    rfl

end Quantiles

/-! ## Sorting and the extremes -/

section Extremes

variable {v : List Double}

/-- `qsort` and `sorted` order doubles alike. -/
theorem sorted_map_float (v : List Double) :
    sorted (v.map Number.float) = (boardSort v).map Number.float := by
  apply Eq.symm
  exact List.map_insertionSort (fun x y : Double ↦ y.lt x = false)
    (fun x y : Number ↦ y.lt x = false) Number.float v fun _ _ _ _ ↦ Iff.rfl

theorem length_boardSort (v : List Double) : (boardSort v).length = v.length :=
  List.length_insertionSort _ _

theorem mem_boardSort {x : Double} : x ∈ boardSort v ↔ x ∈ v := List.mem_insertionSort _

/-- The values are sorted by their ranks. -/
theorem pairwise_boardSort (hnan : ∀ x ∈ v, x ≠ .nan) :
    (boardSort v).Pairwise fun x y ↦ x.rank ≤ y.rank := by
  have hsorted : (sorted (v.map Number.float)).Pairwise fun x y ↦ x.exact.rank ≤ y.exact.rank := by
    apply pairwise_sorted
    intro x hx
    obtain ⟨value, hvalue, rfl⟩ := List.mem_map.mp hx
    exact hnan value hvalue
  rwa [sorted_map_float, List.pairwise_map] at hsorted

/-- A scan keeps what `argAux` keeps. -/
theorem scan_eq (better : Double → Double → Prop) [DecidableRel better]
    (test : Double → Double → Bool) (htest : ∀ x y, x ≠ .nan → y ≠ .nan →
      (test x y = true ↔ better x y)) (hnan : ∀ x ∈ v, x ≠ .nan) {first : Double}
    (hfirst : first ≠ .nan) :
    some (v.foldl (fun kept x ↦ if test x kept then x else kept) first)
      = v.foldl (List.argAux better) (some first) := by
  induction v generalizing first with
  | nil => rfl
  | cons x v ih =>
    obtain ⟨hx, hv⟩ := List.forall_mem_cons.mp hnan
    have hkept : (if test x first then x else first) ≠ .nan := by
      split_ifs
      · exact hx
      · exact hfirst
    have haux : List.argAux better (some first) x
        = some (if test x first then x else first) := by
      simp only [List.argAux, htest x first hx hfirst]
      split_ifs <;> rfl
    rw [List.foldl_cons, List.foldl_cons, haux, ih hv hkept]

theorem boardLoop_least (v : List Double) (first : Double) :
    (boardLoop v first).2.1 = v.foldl (fun kept x ↦ if x.lt kept then x else kept) first :=
  (List.foldl_hom (fun acc : Double × Double × Double ↦ acc.2.1) fun _ _ ↦ rfl).symm

theorem boardLoop_greatest (v : List Double) (first : Double) :
    (boardLoop v first).2.2 = v.foldl (fun kept x ↦ if kept.lt x then x else kept) first :=
  (List.foldl_hom (fun acc : Double × Double × Double ↦ acc.2.2) fun _ _ ↦ rfl).symm

/-- The least value of the loop stands first after sorting. -/
theorem boardLoop_least_eq (hnan : ∀ x ∈ v, x ≠ .nan) {first : Double} (hfirst : first ∈ v) :
    (boardLoop v first).2.1 = boardItem (boardSort v) 0 := by
  have hscan : some (boardLoop v first).2.1 = (first :: v).argmin Double.rank := by
    rw [boardLoop_least]
    exact scan_eq (fun x y ↦ x.rank < y.rank) Double.lt
      (fun x y hx hy ↦ Double.lt_iff_rank_lt hx hy) hnan (hnan first hfirst)
  have hmem : (boardLoop v first).2.1 ∈ v := by
    rcases List.mem_cons.mp (List.argmin_mem hscan.symm) with heq | hmem
    · rwa [heq]
    · exact hmem
  have hpos : 0 < (boardSort v).length := by
    rw [length_boardSort]
    exact List.length_pos_of_mem hfirst
  have hitem : boardItem (boardSort v) 0 = (boardSort v)[0] := by
    rw [boardItem, List.getD_eq_getElem?_getD, List.getElem?_eq_getElem hpos, Option.getD_some]
  rw [hitem]
  apply Double.rank_injective
  apply le_antisymm
  · have hfirstItem : (boardSort v)[0] ∈ v := mem_boardSort.mp (List.getElem_mem hpos)
    exact List.le_of_mem_argmin (List.mem_cons_of_mem first hfirstItem) hscan.symm
  · obtain ⟨index, hindex, heq⟩ := List.getElem_of_mem (mem_boardSort.mpr hmem)
    rw [← heq]
    rcases Nat.eq_zero_or_pos index with rfl | hlater
    · exact le_refl _
    · exact List.pairwise_iff_getElem.mp (pairwise_boardSort hnan) 0 index hpos hindex hlater

/-- The greatest value of the loop stands last after sorting. -/
theorem boardLoop_greatest_eq (hnan : ∀ x ∈ v, x ≠ .nan) {first : Double} (hfirst : first ∈ v) :
    (boardLoop v first).2.2 = boardItem (boardSort v) (v.length - 1) := by
  have hscan : some (boardLoop v first).2.2 = (first :: v).argmax Double.rank := by
    rw [boardLoop_greatest]
    exact scan_eq (fun x y ↦ y.rank < x.rank) (fun x kept ↦ kept.lt x)
      (fun x y hx hy ↦ Double.lt_iff_rank_lt hy hx) hnan (hnan first hfirst)
  have hmem : (boardLoop v first).2.2 ∈ v := by
    rcases List.mem_cons.mp (List.argmax_mem hscan.symm) with heq | hmem
    · rwa [heq]
    · exact hmem
  have hlast : v.length - 1 < (boardSort v).length := by
    have hpos : 0 < v.length := List.length_pos_of_mem hfirst
    rw [length_boardSort]
    omega
  have hitem : boardItem (boardSort v) (v.length - 1) = (boardSort v)[v.length - 1] := by
    rw [boardItem, List.getD_eq_getElem?_getD, List.getElem?_eq_getElem hlast, Option.getD_some]
  rw [hitem]
  apply Double.rank_injective
  apply le_antisymm
  · obtain ⟨index, hindex, heq⟩ := List.getElem_of_mem (mem_boardSort.mpr hmem)
    rw [← heq]
    have hle : index ≤ v.length - 1 := by
      rw [length_boardSort] at hindex
      omega
    rcases hle.eq_or_lt with rfl | hearlier
    · exact le_refl _
    · exact List.pairwise_iff_getElem.mp (pairwise_boardSort hnan) index (v.length - 1) hindex
        hlast hearlier
  · have hlastItem : (boardSort v)[v.length - 1] ∈ v := mem_boardSort.mp (List.getElem_mem hlast)
    exact List.le_of_mem_argmax (List.mem_cons_of_mem first hlastItem) hscan.symm

end Extremes

/-! ## Device and host -/

/-- The statistics that both sides compute are the same doubles. -/
structure SameStatistics (row : StatRow Double) (stats : RobustStats) : Prop where
  n : stats.n = row.n
  median : stats.median = .float row.median
  q1 : stats.q1 = .float row.q1
  q3 : stats.q3 = .float row.q3
  p90 : stats.p90 = .float row.p90
  min : stats.min = .float row.mn
  max : stats.max = .float row.mx

/-- What `robust_stats` returns for the values of a metric, the row of the board contains. -/
theorem sameStatistics (sqrt : Double → Double) {v : List Double} {stats : RobustStats}
    (hne : v ≠ []) (hv : ∀ x ∈ v, Moderate x)
    (h : robustStats (v.map Number.float) = .ok stats) :
    ∃ row, boardStatRow sqrt v = some row ∧ SameStatistics row stats := by
  have hlength : (boardSort v).length < 2 ^ 53 := by
    have hsmall := length_lt_of_robustStats h
    rw [List.length_map, ← length_boardSort] at hsmall
    omega
  have hsortedNe : boardSort v ≠ [] := by
    rw [← List.length_pos_iff, length_boardSort]
    exact List.length_pos_iff.mpr hne
  have hsorted : ∀ x ∈ boardSort v, Moderate x := fun x hx ↦ hv x (mem_boardSort.mp hx)
  have hquantile {p : ℚ} (hp : 0 ≤ p) (hp' : p ≤ 1) :=
    quantile_map_float hsortedNe hlength hsorted hp hp'
  have hninety : ofRat (9 / 10) = .fin (Binary64.round (9 / 10)) := by
    apply ofRat_eq_fin
    rw [abs_of_nonneg (by norm_num)]
    calc (9 / 10 : ℚ) < 1 := by norm_num
      _ ≤ 2 ^ 1022 := one_le_pow₀ (by norm_num)
  have hninety' : Binary64.round (9 / 10) ≤ 1 := by
    have hle := round_le_intCast (q := 9 / 10) (n := 1) (by norm_num) (by norm_num) (by norm_num)
    rwa [Int.cast_one] at hle
  have hboard : ofRat (90 / 100) = .fin (Binary64.round (9 / 10)) := by
    rw [← hninety]
    norm_num
  obtain ⟨first, rest, rfl⟩ := List.exists_cons_of_ne_nil hne
  have hnan : ∀ x ∈ first :: rest, x ≠ .nan := fun x hx ↦ (hv x hx).ne_nan
  refine ⟨_, rfl, ?_⟩
  unfold robustStats at h
  dsimp only at h
  rw [sorted_map_float, hninety, hquantile (by norm_num) (by norm_num),
    hquantile (by norm_num) (by norm_num), hquantile (by norm_num) (by norm_num),
    hquantile (round_nonneg (by norm_num)) hninety'] at h
  obtain ⟨q1, hq1, h⟩ := bind_eq_ok_iff.mp h
  obtain ⟨median, hmedian, h⟩ := bind_eq_ok_iff.mp h
  obtain ⟨q3, hq3, h⟩ := bind_eq_ok_iff.mp h
  obtain ⟨interval, hinterval, h⟩ := bind_eq_ok_iff.mp h
  obtain ⟨iqr, hiqr, h⟩ := bind_eq_ok_iff.mp h
  obtain ⟨p90, hp90, h⟩ := bind_eq_ok_iff.mp h
  cases Except.ok.inj h
  constructor
  · rw [List.length_map]
    exact length_boardSort _
  · exact (Except.ok.inj hmedian).symm
  · exact (Except.ok.inj hq1).symm
  · exact (Except.ok.inj hq3).symm
  · dsimp only
    rw [hboard]
    exact (Except.ok.inj hp90).symm
  · dsimp only
    rw [getD_map_float, boardLoop_least_eq hnan List.mem_cons_self]
  · dsimp only
    rw [getD_map_float, boardLoop_greatest_eq hnan List.mem_cons_self, List.length_map,
      length_boardSort]

end PqMqtt.Statistics
