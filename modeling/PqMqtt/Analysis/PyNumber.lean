import Mathlib.Data.List.Sort
import Mathlib.Data.Nat.Choose.Basic
import PqMqtt.Analysis.PyText
import PqMqtt.Foundation.DoubleArithmetic

/-!
# Numbers of Python and their order statistics

Integers without bounds and floats, and the functions `quantile`, `median_confidence_interval`
and `robust_stats` of `analyze_hs_csv.py`.  `sorted` compares with `<` only; on fewer than three
values, and on values that are linearly ordered, every stable sorting method returns the same list.
-/

namespace PqMqtt.Analysis

open Binary64

inductive Number where
  | int (value : ℤ)
  | float (value : Double)
deriving DecidableEq

namespace Number

/-! ## Arithmetic -/

/-- `math.nan` -/
def nan : Number := float .nan

/-- An operand of an operation on floats. -/
def toDouble : Number → Except PyError Double
  | float x => .ok x
  | int n =>
    match ofRat n with
    | .fin x => .ok (.fin x)
    | _ => .error .overflowError

/-- An operation that stays with the integers when both operands are integers. -/
def arith (onInts : ℤ → ℤ → ℤ) (onFloats : Double → Double → Double) :
    Number → Number → Except PyError Number
  | int a, int b => .ok (int (onInts a b))
  | x, y => do
    let a ← x.toDouble
    let b ← y.toDouble
    .ok (float (onFloats a b))

def add := arith (· + ·) Double.add

def sub := arith (· - ·) Double.sub

def mul := arith (· * ·) Double.mul

/-- The quotient by a number that is not zero. -/
def div : Number → Number → Except PyError Number
  | int a, int b =>
    match ofRat (a / b) with
    | .fin x => .ok (float (.fin x))
    | _ => .error .overflowError
  | x, y => do
    let a ← x.toDouble
    let b ← y.toDouble
    .ok (float (a.div b))

/-- `bool(x)` -/
def truthy (x : Number) : Bool := x ≠ int 0 && x ≠ float (.fin 0)

/-- The value that comparisons of integers and floats look at. -/
def exact : Number → Double
  | int n => .fin n
  | float x => x

def lt (x y : Number) : Bool := x.exact.lt y.exact

def le (x y : Number) : Bool := x.exact.le y.exact

/-- No operation raises anything but an overflow. -/
def OnlyOverflows {α : Type} (result : Except PyError α) : Prop :=
  ∀ error, result = .error error → error = .overflowError

theorem OnlyOverflows.ok {α : Type} (value : α) : OnlyOverflows (.ok value) := by
  intro error h
  cases h

theorem OnlyOverflows.bind {α β : Type} {first : Except PyError α} {next : α → Except PyError β}
    (hfirst : OnlyOverflows first) (hnext : ∀ a, OnlyOverflows (next a)) :
    OnlyOverflows (first >>= next) := by
  intro error h
  rcases bind_eq_error_iff.mp h with h | ⟨a, -, h⟩
  · exact hfirst error h
  · exact hnext a error h

theorem onlyOverflows_toDouble (x : Number) : OnlyOverflows x.toDouble := by
  intro error h
  unfold toDouble at h
  split at h
  · cases h
  split at h
  · cases h
  · exact (Except.error.inj h).symm

theorem onlyOverflows_arith (onInts : ℤ → ℤ → ℤ) (onFloats : Double → Double → Double)
    (x y : Number) : OnlyOverflows (arith onInts onFloats x y) := by
  unfold arith
  split
  · exact .ok _
  · exact (onlyOverflows_toDouble _).bind fun a ↦
      (onlyOverflows_toDouble _).bind fun b ↦ .ok _

end Number

/-! ## Sorting -/

/-- `sorted(values)` -/
def sorted (values : List Number) : List Number :=
  values.insertionSort fun x y ↦ y.lt x = false

section Sorted

variable {values others : List Number}

theorem lt_eq_false_iff {x y : Number} (hx : x.exact ≠ .nan) (hy : y.exact ≠ .nan) :
    y.lt x = false ↔ x.exact.rank ≤ y.exact.rank := by
  rw [← not_lt, ← Double.lt_iff_rank_lt hy hx, Bool.not_eq_true]
  rfl

/-- Values that are numbers are sorted by their ranks. -/
theorem pairwise_sorted (hnan : ∀ x ∈ values, x.exact ≠ .nan) :
    (sorted values).Pairwise fun x y ↦ x.exact.rank ≤ y.exact.rank := by
  have hmap : (sorted values).map (fun x ↦ x.exact.rank)
      = (values.map fun x ↦ x.exact.rank).insertionSort fun first second ↦ first ≤ second :=
    List.map_insertionSort _ _ _ _ fun x hx y hy ↦ lt_eq_false_iff (hnan x hx) (hnan y hy)
  have hsorted := List.pairwise_insertionSort (fun first second : ℕ ×ₗ ℚ ↦ first ≤ second)
    (values.map fun x ↦ x.exact.rank)
  rw [← hmap, List.pairwise_map] at hsorted
  exact hsorted

/-- The order of the values does not matter when they are numbers and no integer equals a
float among them. -/
theorem sorted_perm (h : values.Perm others) (hnan : ∀ x ∈ values, x.exact ≠ .nan)
    (hexact : ∀ x ∈ values, ∀ y ∈ values, x.exact = y.exact → x = y) :
    sorted values = sorted others := by
  have hperm : (sorted values).Perm (sorted others) :=
    (List.perm_insertionSort _ _).trans (h.trans (List.perm_insertionSort _ _).symm)
  have hothers : ∀ x ∈ others, x.exact ≠ .nan := fun x hx ↦ hnan x (h.mem_iff.mpr hx)
  apply hperm.eq_of_pairwise _ (pairwise_sorted hnan) (pairwise_sorted hothers)
  intro x y hx hy hxy hyx
  have hx' : x ∈ values := (List.mem_insertionSort _).mp hx
  have hy' : y ∈ values := h.mem_iff.mpr ((List.mem_insertionSort _).mp hy)
  exact hexact x hx' y hy' (Double.rank_injective (le_antisymm hxy hyx))

theorem sorted_map_int_perm {ints moreInts : List ℤ} (h : ints.Perm moreInts) :
    sorted (ints.map Number.int) = sorted (moreInts.map Number.int) := by
  apply sorted_perm (h.map _)
  · simp [Number.exact]
  · simp [Number.exact]

theorem sorted_map_float_perm {floats moreFloats : List Double} (h : floats.Perm moreFloats)
    (hnan : Double.nan ∉ floats) :
    sorted (floats.map Number.float) = sorted (moreFloats.map Number.float) := by
  apply sorted_perm (h.map _)
  · intro x hx
    obtain ⟨value, hvalue, rfl⟩ := List.mem_map.mp hx
    rintro rfl
    exact hnan hvalue
  · simp [Number.exact]

end Sorted

/-! ## Order statistics -/

/-- `quantile`; its list is not empty and its positions lie in the list. -/
def quantile (sortedValues : List Number) (p : Double) : Except PyError Number :=
  let item := fun index ↦ sortedValues.getD index Number.nan
  if sortedValues.length = 1 then .ok (item 0)
  else
    match p.mul (ofRat (sortedValues.length - 1)) with
    | .fin position => do
      let lo := ⌊position⌋.toNat
      let hi := ⌈position⌉.toNat
      let fraction := (Double.fin position).sub (.fin lo)
      let gap ← (item hi).sub (item lo)
      let moved ← (Number.float fraction).mul gap
      (item lo).add moved
    | _ => .error .overflowError

theorem onlyOverflows_quantile (sortedValues : List Number) (p : Double) :
    Number.OnlyOverflows (quantile sortedValues p) := by
  unfold quantile
  dsimp only
  split
  · exact .ok _
  split
  · exact (Number.onlyOverflows_arith _ _ _ _).bind fun gap ↦
      (Number.onlyOverflows_arith _ _ _ _).bind fun moved ↦ Number.onlyOverflows_arith _ _ _ _
  · intro error h
    exact (Except.error.inj h).symm

/-- `2.0**n` -/
def powTwo (n : ℕ) : Except PyError Double :=
  if n < 1024 then .ok (.fin (2 ^ n)) else .error .overflowError

/-- The loop of `median_confidence_interval` from the candidate `k` on, for `count` candidates. -/
def coverageLoop (n : ℕ) (confidence : Double) :
    (count k bestK : ℕ) → (bestCoverage : Double) → Except PyError (ℕ × Double)
  | 0, _, bestK, bestCoverage => .ok (bestK, bestCoverage)
  | count + 1, k, bestK, bestCoverage => do
    let scale ← powTwo n
    let below : ℕ := ((List.range k).map n.choose).sum
    let tail := (ofRat below).div scale
    let coverage := (Double.fin 1).sub ((Double.fin 2).mul tail)
    if confidence.le (coverage.add (ofRat (1 / 10 ^ 12))) then
      coverageLoop n confidence count (k + 1) k coverage
    else .ok (bestK, bestCoverage)

/-- `median_confidence_interval` -/
def medianConfidenceInterval (sortedValues : List Number) :
    Except PyError (Number × Number × Double) := do
  let n := sortedValues.length
  let narrowest := (Double.fin 1).sub ((Double.fin 2).mul (ofRat ((1 / 2) ^ n)))
  let best ← coverageLoop n (ofRat (95 / 100)) (n / 2) 1 1 narrowest
  .ok (sortedValues.getD (best.1 - 1) Number.nan, sortedValues.getD (n - best.1) Number.nan, best.2)

/-- The result of `robust_stats`. -/
structure RobustStats where
  n : ℕ
  median : Number
  q1 : Number
  q3 : Number
  iqr : Number
  p90 : Number
  min : Number
  max : Number
  medianCiLow : Number
  medianCiHigh : Number
  medianCiCoverage : Double
deriving DecidableEq

/-- `robust_stats` -/
def robustStats (values : List Number) : Except PyError RobustStats := do
  let values := sorted values
  let q1 ← quantile values (.fin (1 / 4))
  let median ← quantile values (.fin (1 / 2))
  let q3 ← quantile values (.fin (3 / 4))
  let (ciLow, ciHigh, coverage) ← medianConfidenceInterval values
  let iqr ← q3.sub q1
  let p90 ← quantile values (ofRat (9 / 10))
  .ok
    { n := values.length
      median := median
      q1 := q1
      q3 := q3
      iqr := iqr
      p90 := p90
      min := values.getD 0 Number.nan
      max := values.getD (values.length - 1) Number.nan
      medianCiLow := ciLow
      medianCiHigh := ciHigh
      medianCiCoverage := coverage }

/-- Statistics of values that are sorted alike are the same. -/
theorem robustStats_congr {values others : List Number} (h : sorted values = sorted others) :
    robustStats values = robustStats others := by
  unfold robustStats
  rw [h]

end PqMqtt.Analysis
