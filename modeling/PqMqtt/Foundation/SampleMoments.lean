import Mathlib.Algebra.BigOperators.Ring.List
import Mathlib.Algebra.CharZero.Defs
import Mathlib.Tactic

/-!
# Moments of samples and of pooled samples

The squared deviations of a sample from any centre are those from its mean and the squared distance
of the mean from the centre, once for every value.  A sample that is put together from several runs
therefore has the squared deviations within the runs and those of the run means.
-/

namespace PqMqtt.SampleMoments

/-- Runs of equal size together have the values of that many runs. -/
theorem length_flatten_of_forall {α : Type*} {runs : List (List α)} {n : ℕ}
    (hsize : ∀ run ∈ runs, run.length = n) : runs.flatten.length = n * runs.length := by
  rw [List.length_flatten, List.map_congr_left hsize, List.map_const', List.sum_replicate,
    smul_eq_mul, Nat.mul_comm]

variable {K : Type*} [Field K]

def mean (sample : List K) : K := sample.sum / sample.length

/-- The sum of the squared deviations from a centre. -/
def squares (sample : List K) (centre : K) : K := (sample.map fun x ↦ (x - centre) ^ 2).sum

/-- The variance with the denominator that makes it unbiased. -/
def sampleVariance (sample : List K) : K := squares sample (mean sample) / (sample.length - 1)

theorem squares_cons (x : K) (sample : List K) (centre : K) :
    squares (x :: sample) centre = (x - centre) ^ 2 + squares sample centre := by
  rw [squares, List.map_cons, List.sum_cons, squares]

theorem squares_flatten (runs : List (List K)) (centre : K) :
    squares runs.flatten centre = (runs.map fun run ↦ squares run centre).sum := by
  induction runs with
  | nil => rfl
  | cons run runs ih =>
    rw [List.flatten_cons, List.map_cons, List.sum_cons, ← ih, squares, List.map_append,
      List.sum_append]
    rfl

/-- Expanded squares. -/
theorem squares_eq (sample : List K) (centre : K) :
    squares sample centre =
      (sample.map (· ^ 2)).sum - 2 * centre * sample.sum + sample.length * centre ^ 2 := by
  induction sample with
  | nil => simp [squares]
  | cons x sample ih =>
    rw [squares_cons, ih, List.map_cons, List.sum_cons, List.sum_cons, List.length_cons]
    push_cast
    ring

variable [CharZero K]

theorem length_mul_mean {sample : List K} (h : sample ≠ []) :
    sample.length * mean sample = sample.sum := by
  have hlength : (sample.length : K) ≠ 0 := by
    rwa [Nat.cast_ne_zero, ne_eq, List.length_eq_zero_iff]
  exact mul_div_cancel₀ _ hlength

/-- The centre is moved to the mean. -/
theorem squares_eq_add {sample : List K} (h : sample ≠ []) (centre : K) :
    squares sample centre =
      squares sample (mean sample) + sample.length * (mean sample - centre) ^ 2 := by
  rw [squares_eq, squares_eq, ← length_mul_mean h]
  ring

theorem sum_flatten_of_forall {runs : List (List K)} {n : ℕ} (hn : 0 < n)
    (hsize : ∀ run ∈ runs, run.length = n) : runs.flatten.sum = n * (runs.map mean).sum := by
  have hrun : ∀ run ∈ runs, run.sum = n * mean run := by
    intro run hrun
    have hne : run ≠ [] := List.ne_nil_of_length_pos (hsize run hrun ▸ hn)
    rw [← length_mul_mean hne, hsize run hrun]
  calc
    runs.flatten.sum = (runs.map List.sum).sum := List.sum_flatten
    _ = (runs.map fun run ↦ (n : K) * mean run).sum := by rw [List.map_congr_left hrun]
    _ = n * (runs.map mean).sum := List.sum_map_mul_left ..

/-- The mean of runs of equal size is the mean of the run means. -/
theorem mean_flatten {runs : List (List K)} {n : ℕ} (hn : 0 < n)
    (hsize : ∀ run ∈ runs, run.length = n) : mean runs.flatten = mean (runs.map mean) := by
  have hcount : (n : K) ≠ 0 := Nat.cast_ne_zero.mpr hn.ne'
  calc
    mean runs.flatten = n * (runs.map mean).sum / (n * runs.length : ℕ) := by
      rw [mean, sum_flatten_of_forall hn hsize, length_flatten_of_forall hsize]
    _ = (runs.map mean).sum / runs.length := by
      rw [Nat.cast_mul, mul_div_mul_left _ _ hcount]
    _ = mean (runs.map mean) := by rw [mean, List.length_map]

/-- The squared deviations within the runs and those of the run means. -/
theorem squares_flatten_eq {runs : List (List K)} {n : ℕ} (hn : 0 < n)
    (hsize : ∀ run ∈ runs, run.length = n) (centre : K) :
    squares runs.flatten centre =
      (runs.map fun run ↦ squares run (mean run) + n * (mean run - centre) ^ 2).sum := by
  rw [squares_flatten]
  congr 1
  apply List.map_congr_left
  intro run hrun
  have hne : run ≠ [] := List.ne_nil_of_length_pos (hsize run hrun ▸ hn)
  rw [squares_eq_add hne, hsize run hrun]

end PqMqtt.SampleMoments
