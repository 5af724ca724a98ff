import Mathlib.Analysis.Complex.Basic
import Mathlib.Analysis.Complex.Exponential
import Mathlib.Analysis.Complex.Trigonometric
import Mathlib.NumberTheory.Zsqrtd.GaussianInt

/-! # Sines of whole numbers

The point of the unit circle at angle one is close to a complex number with rational
parts. The powers of that number are computed exactly, and come close to the points
at the other whole angles.
-/

namespace NetRpc.Sines

/-- The integer part of `2 ^ 32` times the sine of `n` without its sign. -/
noncomputable def scaled (n : Nat) : Nat :=
  ⌊2 ^ 32 * |Real.sin n|⌋₊

/-- `19!` times the first twenty terms of the exponential series at the imaginary unit. -/
def point : GaussianInt :=
  ⟨65725128248453315, 102360822438075317⟩

def denominator : Nat :=
  121645100408832000

/-- What `2 ^ 32` times the sine of `n` is close to, times `denominator ^ n`. -/
def numerator (n : Nat) : Nat :=
  2 ^ 32 * (point ^ n).im.natAbs

/-- The sine of `n` is so far from its neighbours that the powers of `point` tell
its integer part. -/
def Certifies (n value : Nat) : Prop :=
  value * denominator ^ n * 10 ^ 18 + 2 ^ 33 * n * denominator ^ n ≤ numerator n * 10 ^ 18 ∧
    numerator n * 10 ^ 18 + 2 ^ 33 * n * denominator ^ n <
      (value + 1) * denominator ^ n * 10 ^ 18

instance (n value : Nat) : Decidable (Certifies n value) :=
  inferInstanceAs (Decidable (_ ∧ _))

theorem norm_exp_sub_point_le :
    ‖Complex.exp Complex.I - point.toComplex / denominator‖ ≤ 1 / 10 ^ 18 := by
  have unit : ‖Complex.I‖ ≤ 1 := by rw [Complex.norm_I]
  have bound := Complex.exp_bound unit (by decide : 0 < 20)
  have sum : ∑ m ∈ Finset.range 20, Complex.I ^ m / (m.factorial : ℂ) =
      point.toComplex / denominator := by
    simp only [Finset.sum_range_succ, Finset.sum_range_zero, pow_succ, pow_zero, one_mul,
      Complex.I_mul_I, neg_mul, neg_neg]
    norm_num [point, denominator, GaussianInt.toComplex_def, Nat.factorial]
    ring
  rw [sum] at bound
  refine bound.trans ?_
  rw [Complex.norm_I]
  norm_num [Nat.factorial]

/-- The powers of two numbers drift apart at most twice as fast as the exponent
grows, as long as they are not far apart. -/
theorem norm_pow_sub_pow_le {z w : ℂ} {distance : ℝ} (unit : ‖z‖ = 1)
    (close : ‖z - w‖ ≤ distance) (n : Nat) (few : 2 * n * distance ≤ 1) :
    ‖z ^ n - w ^ n‖ ≤ 2 * n * distance := by
  have nonneg : 0 ≤ distance := (norm_nonneg _).trans close
  induction n with
  | zero => simp
  | succ n induction =>
      push_cast at few ⊢
      have before := induction (by nlinarith)
      have size : ‖w ^ n‖ ≤ 2 := by
        calc
          ‖w ^ n‖ = ‖z ^ n - (z ^ n - w ^ n)‖ := by rw [sub_sub_cancel]
          _ ≤ ‖z ^ n‖ + ‖z ^ n - w ^ n‖ := norm_sub_le _ _
          _ ≤ 2 := by
            rw [norm_pow, unit, one_pow]
            nlinarith
      calc
        ‖z ^ (n + 1) - w ^ (n + 1)‖ = ‖z * (z ^ n - w ^ n) + (z - w) * w ^ n‖ := by
          congr 1
          ring
        _ ≤ ‖z‖ * ‖z ^ n - w ^ n‖ + ‖z - w‖ * ‖w ^ n‖ := by
          rw [← norm_mul, ← norm_mul]
          exact norm_add_le _ _
        _ ≤ 1 * (2 * n * distance) + distance * 2 := by
          rw [unit]
          gcongr
        _ = 2 * (n + 1) * distance := by ring

theorem sin_eq_im (n : Nat) : Real.sin n = (Complex.exp Complex.I ^ n).im := by
  rw [← Complex.exp_nat_mul, ← Complex.ofReal_natCast, Complex.exp_ofReal_mul_I_im]

/-- The sine of `n` as far as the powers of `point` tell it. -/
theorem abs_sin_sub_le {n : Nat} (few : n ≤ 64) :
    |Real.sin n - ((point ^ n).im : ℝ) / denominator ^ n| ≤ 2 * n / 10 ^ 18 := by
  have small : (n : ℝ) ≤ 64 := by exact_mod_cast few
  have unit : ‖Complex.exp Complex.I‖ = 1 := by
    simpa using Complex.norm_exp_ofReal_mul_I 1
  have near := norm_pow_sub_pow_le unit norm_exp_sub_point_le n (by norm_num; linarith)
  have power : ((point.toComplex / denominator) ^ n).im =
      ((point ^ n).im : ℝ) / denominator ^ n := by
    have scale : (denominator : ℂ) ^ n = ((denominator ^ n : ℝ) : ℂ) := by push_cast; rfl
    rw [div_pow, ← map_pow, scale, Complex.div_ofReal_im, ← GaussianInt.intCast_im]
  calc
    |Real.sin n - ((point ^ n).im : ℝ) / denominator ^ n| =
        |(Complex.exp Complex.I ^ n - (point.toComplex / denominator) ^ n).im| := by
      rw [Complex.sub_im, sin_eq_im, power]
    _ ≤ ‖Complex.exp Complex.I ^ n - (point.toComplex / denominator) ^ n‖ :=
      Complex.abs_im_le_norm _
    _ ≤ 2 * n / 10 ^ 18 := near.trans_eq (by ring)

theorem scaled_eq {n value : Nat} (few : n ≤ 64) (certifies : Certifies n value) :
    scaled n = value := by
  have near := abs_sin_sub_le few
  have positive : (0 : ℝ) < denominator ^ n := by
    rw [denominator]
    positivity
  have size : |((point ^ n).im : ℝ) / denominator ^ n| =
      ((point ^ n).im.natAbs : ℝ) / denominator ^ n := by
    rw [abs_div, abs_of_pos positive, Nat.cast_natAbs, Int.cast_abs]
  have apart := (abs_abs_sub_abs_le _ _).trans near
  rw [size, abs_le] at apart
  have ratio : ((point ^ n).im.natAbs : ℝ) =
      (point ^ n).im.natAbs / denominator ^ n * denominator ^ n :=
    (div_mul_cancel₀ _ (ne_of_gt positive)).symm
  have least : (value : ℝ) * denominator ^ n * 10 ^ 18 + 2 ^ 33 * n * denominator ^ n ≤
      2 ^ 32 * (point ^ n).im.natAbs * 10 ^ 18 := by
    exact_mod_cast certifies.1
  have most : 2 ^ 32 * ((point ^ n).im.natAbs : ℝ) * 10 ^ 18 + 2 ^ 33 * n * denominator ^ n <
      (value + 1) * denominator ^ n * 10 ^ 18 := by
    exact_mod_cast certifies.2
  rw [ratio] at least most
  generalize ((point ^ n).im.natAbs : ℝ) / denominator ^ n = height at apart least most
  generalize (denominator : ℝ) ^ n = scale at positive least most
  have lower : (value : ℝ) * 10 ^ 18 + 2 ^ 33 * n ≤ 2 ^ 32 * height * 10 ^ 18 :=
    le_of_mul_le_mul_right (by linarith) positive
  have upper : 2 ^ 32 * height * 10 ^ 18 + 2 ^ 33 * n < ((value : ℝ) + 1) * 10 ^ 18 :=
    lt_of_mul_lt_mul_right (by linarith) positive.le
  rw [scaled, Nat.floor_eq_iff (by positivity)]
  constructor
  · linarith [apart.1]
  · linarith [apart.2]

end NetRpc.Sines
