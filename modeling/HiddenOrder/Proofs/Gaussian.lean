import HiddenOrder.Proofs.Euclid
import HiddenOrder.Ring.Gaussian
import Mathlib.Algebra.Order.Ring.Abs
import Mathlib.Tactic.LinearCombination
import Mathlib.Tactic.Linarith
import Mathlib.Tactic.Ring

/-!
# Gaussian integers as a ring

* The ring structure, with conjugation as its star.
* **`roundDiv_near`** — a rounded quotient is off by at most one half.
* **`Gaussian.halving`** — a division halves the norm.
* **`Gaussian.checkedRun_gcd`** — no division on the way to a greatest common divisor is refused.
* **`Gaussian.span_gcd`** — the greatest common divisor generates the ideal of the operands.
* **`Gaussian.norm_gcd`** — a square root of minus one modulo `m` gives a number of norm `m`.
* **`Gaussian.onePlusIPow_eq_pow`**, `Gaussian.norm_onePlusIPow` — the powers of `1 + i`, and their
  norms.
-/

namespace HiddenOrder

/-! ## Rounded quotients -/

/-- **A rounded quotient is off by at most one half.** -/
theorem roundDiv_near {d : ℤ} (hd : 0 < d) (n : ℤ) :
    -d ≤ 2 * (n - d * roundDiv n d) ∧ 2 * (n - d * roundDiv n d) ≤ d := by
  have hdiv := Int.mul_ediv_add_emod (n.natAbs : ℤ) d
  have hlow : 0 ≤ (n.natAbs : ℤ) % d := Int.emod_nonneg _ hd.ne'
  have hhigh : (n.natAbs : ℤ) % d < d := Int.emod_lt_of_pos _ hd
  simp only [roundDiv, Int.fdiv_eq_ediv_of_nonneg _ hd.le, Int.fmod_eq_emod_of_nonneg _ hd.le]
  generalize (n.natAbs : ℤ) / d = q at hdiv ⊢
  generalize (n.natAbs : ℤ) % d = r at hdiv hlow hhigh ⊢
  rcases le_total 0 n with hn | hn
  · rw [if_pos hn]
    have habs : (n.natAbs : ℤ) = n := Int.natAbs_of_nonneg hn
    split_ifs with hround
    · constructor <;> linarith
    · constructor <;> linarith
  · have habs : (n.natAbs : ℤ) = -n := Int.ofNat_natAbs_of_nonpos hn
    split_ifs with hround hzero
    · constructor <;> nlinarith
    · constructor <;> linarith
    · constructor <;> nlinarith
    · constructor <;> linarith

namespace Gaussian

/-! ## The ring -/

section Coordinates

variable (a b : Gaussian)

@[simp] lemma zero_re : (0 : Gaussian).re = 0 := rfl
@[simp] lemma zero_im : (0 : Gaussian).im = 0 := rfl
@[simp] lemma one_re : (1 : Gaussian).re = 1 := rfl
@[simp] lemma one_im : (1 : Gaussian).im = 0 := rfl
@[simp] lemma neg_re : (-a).re = -a.re := rfl
@[simp] lemma neg_im : (-a).im = -a.im := rfl
@[simp] lemma add_re : (a + b).re = a.re + b.re := rfl
@[simp] lemma add_im : (a + b).im = a.im + b.im := rfl
@[simp] lemma sub_re : (a - b).re = a.re - b.re := rfl
@[simp] lemma sub_im : (a - b).im = a.im - b.im := rfl
@[simp] lemma mul_re : (a * b).re = a.re * b.re - a.im * b.im := rfl
@[simp] lemma mul_im : (a * b).im = a.re * b.im + a.im * b.re := rfl
@[simp] lemma conj_re : a.conj.re = a.re := rfl
@[simp] lemma conj_im : a.conj.im = -a.im := rfl

end Coordinates

instance : NatCast Gaussian := ⟨fun n => ⟨n, 0⟩⟩

instance : IntCast Gaussian := ⟨fun n => ⟨n, 0⟩⟩

@[simp] lemma natCast_re (n : ℕ) : (n : Gaussian).re = n := rfl
@[simp] lemma natCast_im (n : ℕ) : (n : Gaussian).im = 0 := rfl
@[simp] lemma intCast_re (n : ℤ) : (n : Gaussian).re = n := rfl
@[simp] lemma intCast_im (n : ℤ) : (n : Gaussian).im = 0 := rfl

instance : CommRing Gaussian where
  add_assoc a b c := by ext <;> simp <;> ring
  zero_add a := by ext <;> simp
  add_zero a := by ext <;> simp
  add_comm a b := by ext <;> simp <;> ring
  neg_add_cancel a := by ext <;> simp
  sub_eq_add_neg a b := by ext <;> simp <;> ring
  mul_assoc a b c := by ext <;> simp <;> ring
  mul_comm a b := by ext <;> simp <;> ring
  one_mul a := by ext <;> simp
  mul_one a := by ext <;> simp
  zero_mul a := by ext <;> simp
  mul_zero a := by ext <;> simp
  left_distrib a b c := by ext <;> simp <;> ring
  right_distrib a b c := by ext <;> simp <;> ring
  nsmul := nsmulRec
  zsmul := zsmulRec
  natCast_zero := rfl
  natCast_succ n := by ext <;> simp
  intCast_ofNat n := rfl
  intCast_negSucc n := by
    ext
    · simp [Int.negSucc_eq]
    · simp

instance : StarRing Gaussian where
  star := conj
  star_involutive a := by
    ext
    · rfl
    · simp
  star_mul a b := by ext <;> simp <;> ring
  star_add a b := by
    ext
    · rfl
    · simp [add_comm]

@[simp] lemma star_re (a : Gaussian) : (star a).re = a.re := rfl
@[simp] lemma star_im (a : Gaussian) : (star a).im = -a.im := rfl

@[simp] lemma zsmul_re (k : ℤ) (a : Gaussian) : (k • a).re = k * a.re := by
  rw [zsmul_eq_mul]
  simp

@[simp] lemma zsmul_im (k : ℤ) (a : Gaussian) : (k • a).im = k * a.im := by
  rw [zsmul_eq_mul]
  simp

/-! ## The norm -/

lemma norm_integral : Euclid.IntegralNorm norm where
  mul_star a := by
    ext
    · simp [norm]
    · simp [norm, mul_comm]
  nonneg a :=
    add_nonneg (mul_self_nonneg a.re) (mul_self_nonneg a.im)
  dvd_of_zsmul {m n z} h := ⟨z.re, by simpa using congrArg re h⟩

@[simp]
lemma norm_mul (a b : Gaussian) : (a * b).norm = a.norm * b.norm := norm_integral.map_mul a b

lemma norm_eq_zero {a : Gaussian} : a.norm = 0 ↔ a = 0 := by
  constructor
  · intro h
    rw [norm] at h
    ext
    · simp only [zero_re]
      nlinarith
    · simp only [zero_im]
      nlinarith
  · rintro rfl
    rfl

lemma norm_pos {a : Gaussian} (ha : a ≠ 0) : 0 < a.norm :=
  lt_of_le_of_ne (norm_integral.nonneg a) (Ne.symm (mt norm_eq_zero.mp ha))

instance : NoZeroDivisors Gaussian where
  eq_zero_or_eq_zero_of_mul_eq_zero {a b} h := by
    have hnorm := norm_eq_zero.mpr h
    rwa [norm_mul, mul_eq_zero, norm_eq_zero, norm_eq_zero] at hnorm

lemma isZero_eq_true {a : Gaussian} : a.isZero = true ↔ a = 0 := by
  simp [isZero, Gaussian.ext_iff]

lemma isZero_eq_false {a : Gaussian} : a.isZero = false ↔ a ≠ 0 := by
  rw [← Bool.not_eq_true, isZero_eq_true]

/-! ## Division -/

/-- **A division at least halves the norm.** -/
theorem two_mul_norm_divMod_le (a : Gaussian) {b : Gaussian} (hb : b ≠ 0) :
    2 * (divMod a b).2.norm ≤ b.norm := by
  have hd := norm_pos hb
  have hre := roundDiv_near hd (a * b.conj).re
  have him := roundDiv_near hd (a * b.conj).im
  -- times the norm of `b`, the norm of the remainder is that of the two rounding errors
  have hscaled : (divMod a b).2.norm * b.norm
      = ((a * b.conj).re - b.norm * roundDiv (a * b.conj).re b.norm) ^ 2
        + ((a * b.conj).im - b.norm * roundDiv (a * b.conj).im b.norm) ^ 2 := by
    simp only [divMod, norm, sub_re, sub_im, mul_re, mul_im, conj_re, conj_im]
    ring
  have hre' := sq_le_sq' hre.1 hre.2
  have him' := sq_le_sq' him.1 him.2
  nlinarith

lemma halving : Euclid.Halving (fun a b => (divMod a b).2) fun b => b.norm.toNat where
  rem_eq a b _ := ⟨(divMod a b).1, by rw [mul_comm]; rfl⟩
  halves a b hb := by
    have := two_mul_norm_divMod_le a hb
    omega
  pos hb := Int.pos_iff_toNat_pos.mp (norm_pos hb)

/-- **The greatest common divisor generates the ideal of the operands.** -/
theorem span_gcd (a b : Gaussian) : Ideal.span {gcd a b} = Ideal.span {a, b} := by
  refine Euclid.span_run halving gcdSteps ?_ ?_ Nat.lt_log2_self
  · intro n a
    rw [gcdSteps, if_pos (isZero_eq_true.mpr rfl)]
  · intro n a b hb
    rw [gcdSteps, if_neg (mt isZero_eq_true.mp hb)]

/-- Only zero is refused as a divisor. -/
lemma divModChecked_ok [DigitLimit] (a : Gaussian) {b : Gaussian} (hb : b ≠ 0) :
    divModChecked a b = .ok (divMod a b) := by
  rw [divModChecked, if_neg (mt norm_eq_zero.mp hb)]

lemma divModChecked_of_isZero [DigitLimit] (a b : Gaussian) (hb : b.isZero = false) :
    ∃ q, divModChecked a b = .ok (q, (divMod a b).2) :=
  ⟨(divMod a b).1, divModChecked_ok a (isZero_eq_false.mp hb)⟩

/-- **No division on the way to a greatest common divisor is refused.** -/
theorem checkedRun_gcd [DigitLimit] (a b : Gaussian) :
    Euclid.checkedRun divModChecked isZero (b.norm.toNat.log2 + 2) a b = .ok (gcd a b) :=
  Euclid.checkedRun_eq divModChecked_of_isZero gcdSteps (fun _ _ => rfl) (fun _ _ _ => rfl) _ a b

/-- **A square root of minus one modulo `m` gives a number of norm `m`.** -/
theorem norm_gcd {s m : ℤ} (hm : 0 < m) (hroot : m ∣ s * s + 1) :
    (gcd ⟨s, 1⟩ ⟨m, 0⟩).norm = m := by
  refine Euclid.norm_generator norm_integral hm (span_gcd ⟨s, 1⟩ ⟨m, 0⟩) hroot ?_
  intro k hk _ hfactor
  obtain ⟨x, hx⟩ := hfactor
  have hone : 1 = k * x.im := by simpa using congrArg im hx
  exact Int.eq_one_of_mul_eq_one_right hk.le hone.symm

/-! ## Powers of `1 + i` -/

lemma iPow_eq_pow (k : ℕ) : iPow k = ⟨0, 1⟩ ^ k := by
  have hfour : (⟨0, 1⟩ : Gaussian) ^ 4 = 1 := by decide
  rw [iPow, pow_eq_pow_mod k hfour]
  have hrest : k % 4 = 0 ∨ k % 4 = 1 ∨ k % 4 = 2 ∨ k % 4 = 3 := by omega
  rcases hrest with h | h | h | h
  all_goals
    rw [h]
    decide

lemma natCast_mul (n : ℕ) (a : Gaussian) : (n : Gaussian) * a = ⟨a.re * n, a.im * n⟩ := by
  ext
  · simp [mul_comm]
  · simp [mul_comm]

/-- **The closed form is the product** of so many factors `1 + i`. -/
theorem onePlusIPow_eq_pow (e : ℕ) : onePlusIPow e = ⟨1, 1⟩ ^ e := by
  have hsq : (⟨1, 1⟩ : Gaussian) ^ 2 = (2 : ℕ) * ⟨0, 1⟩ := by decide
  -- a square of `1 + i` is the factor two and a turn by `i`
  have heven : (⟨(iPow (e / 2)).re * (Nat.pow 2 (e / 2) : ℕ),
      (iPow (e / 2)).im * (Nat.pow 2 (e / 2) : ℕ)⟩ : Gaussian) = ⟨1, 1⟩ ^ (2 * (e / 2)) := by
    rw [← natCast_mul, iPow_eq_pow, Nat.pow_eq, Nat.cast_pow, ← mul_pow, ← hsq, pow_mul]
  rw [onePlusIPow]
  by_cases he : e % 2 = 0
  · rw [if_pos he, heven, show 2 * (e / 2) = e by omega]
  · rw [if_neg he, heven, ← pow_succ, show 2 * (e / 2) + 1 = e by omega]

theorem norm_onePlusIPow (e : ℕ) : (onePlusIPow e).norm = 2 ^ e := by
  rw [onePlusIPow_eq_pow]
  induction e with
  | zero => rfl
  | succ e ih =>
      rw [pow_succ, norm_mul, ih, pow_succ]
      rfl

end Gaussian

end HiddenOrder
