import HiddenOrder.Proofs.Gaussian
import HiddenOrder.Ring.Hurwitz
import Mathlib.Algebra.Quaternion

/-!
# Hurwitz quaternions as a ring

The ring laws are those of the quaternions over the rational numbers, where the doubled coordinates
are halved again.

* `Hurwitz.toQuaternion` — the quaternion that a Hurwitz integer stands for.
* **`Hurwitz.norm_mul`** — the norm multiplies.
* **`Hurwitz.isUnit_iff_norm`** — the units are the quaternions of norm one.
* **`Hurwitz.halving`** — a division halves the norm: of the two candidates for the quotient, one
  is near enough.
* **`Hurwitz.span_gcrd`** — the greatest common right divisor generates the left ideal of the
  operands.
* **`Hurwitz.checkedRun_gcrd`** — no division on the way to it is refused.
* **`Hurwitz.norm_gcrd`** — with an integer `m` that divides the norm of a primitive quaternion, it
  has norm `m`.
* **`Hurwitz.toLipschitz_eq`**, **`Hurwitz.value_ok`** — an associate with integer coordinates is
  always found, and they are the roots of the norm.
* **`Hurwitz.integral_up_to_unit`** — both of a quaternion.
-/

namespace HiddenOrder

namespace Hurwitz

/-! ## Coordinates -/

section Coordinates

variable (a b : Hurwitz)

@[simp] lemma zero_r : (0 : Hurwitz).r = 0 := rfl
@[simp] lemma zero_i : (0 : Hurwitz).i = 0 := rfl
@[simp] lemma zero_j : (0 : Hurwitz).j = 0 := rfl
@[simp] lemma zero_k : (0 : Hurwitz).k = 0 := rfl
@[simp] lemma neg_r : (-a).r = -a.r := rfl
@[simp] lemma neg_i : (-a).i = -a.i := rfl
@[simp] lemma neg_j : (-a).j = -a.j := rfl
@[simp] lemma neg_k : (-a).k = -a.k := rfl
@[simp] lemma add_r : (a + b).r = a.r + b.r := rfl
@[simp] lemma add_i : (a + b).i = a.i + b.i := rfl
@[simp] lemma add_j : (a + b).j = a.j + b.j := rfl
@[simp] lemma add_k : (a + b).k = a.k + b.k := rfl
@[simp] lemma sub_r : (a - b).r = a.r - b.r := rfl
@[simp] lemma sub_i : (a - b).i = a.i - b.i := rfl
@[simp] lemma sub_j : (a - b).j = a.j - b.j := rfl
@[simp] lemma sub_k : (a - b).k = a.k - b.k := rfl

@[simp] lemma conj_r : a.conj.r = a.r := rfl
@[simp] lemma conj_i : a.conj.i = -a.i := rfl
@[simp] lemma conj_j : a.conj.j = -a.j := rfl
@[simp] lemma conj_k : a.conj.k = -a.k := rfl

lemma two_mul_mul : 2 * (a * b).r = mulR a b ∧ 2 * (a * b).i = mulI a b ∧
    2 * (a * b).j = mulJ a b ∧ 2 * (a * b).k = mulK a b := by
  obtain ⟨s, t, u, v, w, hr, hi, hj, hk⟩ := mul_halves a b
  exact ⟨Int.mul_ediv_cancel' ⟨_, hr⟩, Int.mul_ediv_cancel' ⟨_, hi⟩,
    Int.mul_ediv_cancel' ⟨_, hj⟩, Int.mul_ediv_cancel' ⟨_, hk⟩⟩

end Coordinates

instance : NatCast Hurwitz := ⟨fun n => ofInts n 0 0 0⟩

instance : IntCast Hurwitz := ⟨fun n => ofInts n 0 0 0⟩

@[simp] lemma natCast_r (n : ℕ) : (n : Hurwitz).r = 2 * n := rfl
@[simp] lemma natCast_i (n : ℕ) : (n : Hurwitz).i = 0 := rfl
@[simp] lemma natCast_j (n : ℕ) : (n : Hurwitz).j = 0 := rfl
@[simp] lemma natCast_k (n : ℕ) : (n : Hurwitz).k = 0 := rfl
@[simp] lemma intCast_r (n : ℤ) : (n : Hurwitz).r = 2 * n := rfl
@[simp] lemma intCast_i (n : ℤ) : (n : Hurwitz).i = 0 := rfl
@[simp] lemma intCast_j (n : ℤ) : (n : Hurwitz).j = 0 := rfl
@[simp] lemma intCast_k (n : ℤ) : (n : Hurwitz).k = 0 := rfl

/-! ## The ring -/

/-- A Hurwitz integer as a quaternion over the rational numbers. -/
def toQuaternion (a : Hurwitz) : Quaternion ℚ := ⟨a.r / 2, a.i / 2, a.j / 2, a.k / 2⟩

section Quaternions

variable (a b : Hurwitz)

@[simp] lemma toQuaternion_re : (toQuaternion a).re = a.r / 2 := rfl
@[simp] lemma toQuaternion_imI : (toQuaternion a).imI = a.i / 2 := rfl
@[simp] lemma toQuaternion_imJ : (toQuaternion a).imJ = a.j / 2 := rfl
@[simp] lemma toQuaternion_imK : (toQuaternion a).imK = a.k / 2 := rfl

lemma toQuaternion_injective : Function.Injective toQuaternion := by
  intro a b h
  rw [Quaternion.ext_iff] at h
  simp only [toQuaternion_re, toQuaternion_imI, toQuaternion_imJ, toQuaternion_imK,
    div_left_inj' (two_ne_zero' ℚ), Int.cast_inj] at h
  exact Hurwitz.ext h.1 h.2.1 h.2.2.1 h.2.2.2

@[simp] lemma toQuaternion_natCast (n : ℕ) : toQuaternion n = n := by
  ext <;> simp

@[simp] lemma toQuaternion_intCast (n : ℤ) : toQuaternion n = n := by
  ext <;> simp

@[simp] lemma toQuaternion_zero : toQuaternion 0 = 0 := by
  have hzero := toQuaternion_natCast 0
  rwa [Nat.cast_zero] at hzero

@[simp] lemma toQuaternion_one : toQuaternion 1 = 1 := by
  have hone := toQuaternion_natCast 1
  rwa [Nat.cast_one] at hone

@[simp] lemma toQuaternion_neg : toQuaternion (-a) = -toQuaternion a := by
  ext <;> simp [neg_div]

@[simp] lemma toQuaternion_add : toQuaternion (a + b) = toQuaternion a + toQuaternion b := by
  ext <;> simp [add_div]

@[simp] lemma toQuaternion_sub : toQuaternion (a - b) = toQuaternion a - toQuaternion b := by
  ext <;> simp [sub_div]

@[simp] lemma toQuaternion_mul : toQuaternion (a * b) = toQuaternion a * toQuaternion b := by
  have hproduct : ((2 * (a * b).r : ℤ) : ℚ) = mulR a b ∧ ((2 * (a * b).i : ℤ) : ℚ) = mulI a b ∧
      ((2 * (a * b).j : ℤ) : ℚ) = mulJ a b ∧ ((2 * (a * b).k : ℤ) : ℚ) = mulK a b := by
    simpa only [Int.cast_inj] using two_mul_mul a b
  simp only [mulR, mulI, mulJ, mulK] at hproduct
  push_cast at hproduct
  obtain ⟨hr, hi, hj, hk⟩ := hproduct
  ext
  · simp only [toQuaternion_re, Quaternion.re_mul, toQuaternion_imI, toQuaternion_imJ,
      toQuaternion_imK]
    linarith
  · simp only [toQuaternion_re, Quaternion.imI_mul, toQuaternion_imI, toQuaternion_imJ,
      toQuaternion_imK]
    linarith
  · simp only [toQuaternion_re, Quaternion.imJ_mul, toQuaternion_imI, toQuaternion_imJ,
      toQuaternion_imK]
    linarith
  · simp only [toQuaternion_re, Quaternion.imK_mul, toQuaternion_imI, toQuaternion_imJ,
      toQuaternion_imK]
    linarith

end Quaternions

instance : Ring Hurwitz where
  add_assoc a b c := toQuaternion_injective (by simp [add_assoc])
  zero_add a := toQuaternion_injective (by simp)
  add_zero a := toQuaternion_injective (by simp)
  add_comm a b := toQuaternion_injective (by simp [add_comm])
  neg_add_cancel a := toQuaternion_injective (by simp)
  sub_eq_add_neg a b := toQuaternion_injective (by simp [sub_eq_add_neg])
  mul_assoc a b c := toQuaternion_injective (by simp [mul_assoc])
  one_mul a := toQuaternion_injective (by simp)
  mul_one a := toQuaternion_injective (by simp)
  zero_mul a := toQuaternion_injective (by simp)
  mul_zero a := toQuaternion_injective (by simp)
  left_distrib a b c := toQuaternion_injective (by simp [mul_add])
  right_distrib a b c := toQuaternion_injective (by simp [add_mul])
  nsmul := nsmulRec
  zsmul := zsmulRec
  natCast_zero := toQuaternion_injective (by simp)
  natCast_succ n := toQuaternion_injective (by simp)
  intCast_ofNat n := toQuaternion_injective (by simp)
  intCast_negSucc n := toQuaternion_injective (by simp)

instance : NoZeroDivisors Hurwitz :=
  toQuaternion_injective.noZeroDivisors toQuaternion toQuaternion_zero toQuaternion_mul

lemma toQuaternion_conj (a : Hurwitz) : toQuaternion a.conj = star (toQuaternion a) := by
  ext <;> simp [neg_div]

instance : StarRing Hurwitz where
  star := conj
  star_involutive a := toQuaternion_injective (by simp [toQuaternion_conj])
  star_mul a b := toQuaternion_injective (by simp [toQuaternion_conj])
  star_add a b := toQuaternion_injective (by simp [toQuaternion_conj])

/-- A multiple by an integer has the multiples of the coordinates. -/
lemma zsmul_coordinates (n : ℤ) (a : Hurwitz) : (n • a).r = n * a.r ∧ (n • a).i = n * a.i ∧
    (n • a).j = n * a.j ∧ (n • a).k = n * a.k := by
  have hproduct := two_mul_mul (n : Hurwitz) a
  simp only [mulR, mulI, mulJ, mulK, intCast_r, intCast_i, intCast_j, intCast_k, ← zsmul_eq_mul,
    mul_assoc, zero_mul, sub_zero, add_zero] at hproduct
  exact ⟨by linarith, by linarith, by linarith, by linarith⟩

/-! ## The norm -/

lemma four_mul_norm (a : Hurwitz) :
    4 * a.norm = a.r * a.r + a.i * a.i + a.j * a.j + a.k * a.k := by
  obtain ⟨e, x₁, x₂, x₃, x₄, h₁, h₂, h₃, h₄⟩ := a.coordinates
  refine Int.mul_ediv_cancel' ⟨e * e + e * (x₁ + x₂ + x₃ + x₄)
    + (x₁ * x₁ + x₂ * x₂ + x₃ * x₃ + x₄ * x₄), ?_⟩
  rw [h₁, h₂, h₃, h₄]
  ring

lemma norm_ofInts (a b c d : ℤ) : (ofInts a b c d).norm = a * a + b * b + c * c + d * d := by
  have hnorm := (ofInts a b c d).four_mul_norm
  simp only [ofInts] at hnorm ⊢
  linarith

lemma norm_integral : Euclid.IntegralNorm norm where
  mul_star a := by
    have hproduct := two_mul_mul a a.conj
    have hnorm := a.four_mul_norm
    simp only [mulR, mulI, mulJ, mulK, conj_r, conj_i, conj_j, conj_k] at hproduct
    obtain ⟨hr, hi, hj, hk⟩ := hproduct
    ext
    · show (a * a.conj).r = 2 * a.norm
      linarith
    · show (a * a.conj).i = 0
      linarith
    · show (a * a.conj).j = 0
      linarith
    · show (a * a.conj).k = 0
      linarith
  nonneg a := by
    have hnorm := a.four_mul_norm
    nlinarith [mul_self_nonneg a.r, mul_self_nonneg a.i, mul_self_nonneg a.j,
      mul_self_nonneg a.k]
  dvd_of_zsmul {m n z} h := by
    obtain ⟨hr, hi, -, -⟩ := zsmul_coordinates m z
    rw [← h, intCast_r] at hr
    rw [← h, intCast_i] at hi
    -- the imaginary coordinates of `z` vanish, so its real one is even
    rcases mul_eq_zero.mp hi.symm with rfl | hz
    · exact ⟨0, by linarith⟩
    · have hparity := z.parity
      exact ⟨z.r / 2, by
        have : z.r = 2 * (z.r / 2) := by omega
        rw [this] at hr
        linarith⟩

@[simp]
lemma norm_mul (a b : Hurwitz) : (a * b).norm = a.norm * b.norm := norm_integral.map_mul a b

lemma norm_eq_zero {a : Hurwitz} : a.norm = 0 ↔ a = 0 := by
  have hnorm := a.four_mul_norm
  constructor
  · intro h
    rw [h] at hnorm
    have hr := mul_self_nonneg a.r
    have hi := mul_self_nonneg a.i
    have hj := mul_self_nonneg a.j
    have hk := mul_self_nonneg a.k
    ext
    · exact mul_self_eq_zero.mp (by linarith)
    · exact mul_self_eq_zero.mp (by linarith)
    · exact mul_self_eq_zero.mp (by linarith)
    · exact mul_self_eq_zero.mp (by linarith)
  · rintro rfl
    rfl

lemma norm_pos {a : Hurwitz} (ha : a ≠ 0) : 0 < a.norm :=
  lt_of_le_of_ne (norm_integral.nonneg a) (Ne.symm (mt norm_eq_zero.mp ha))

lemma norm_star (a : Hurwitz) : (star a).norm = a.norm := by
  show a.conj.norm = a.norm
  simp [norm]

/-- **The units are the quaternions of norm one.** -/
theorem isUnit_iff_norm {u : Hurwitz} : IsUnit u ↔ u.norm = 1 := by
  constructor
  · rintro ⟨⟨u, v, huv, -⟩, rfl⟩
    have hone : u.norm * v.norm = 1 := by
      rw [← norm_mul, huv]
      rfl
    exact Int.eq_one_of_mul_eq_one_right (norm_integral.nonneg u) hone
  · intro hu
    have hright : u * star u = 1 := by rw [norm_integral.mul_star, hu, Int.cast_one]
    have hleft : star u * u = 1 := by
      have hstar := norm_integral.mul_star (star u)
      rwa [star_star, norm_star, hu, Int.cast_one] at hstar
    exact ⟨⟨u, star u, hright, hleft⟩, rfl⟩

lemma isZero_eq_true {a : Hurwitz} : a.isZero = true ↔ a = 0 := by
  simp [isZero, Hurwitz.ext_iff, and_assoc]

lemma isZero_eq_false {a : Hurwitz} : a.isZero = false ↔ a ≠ 0 := by
  rw [← Bool.not_eq_true, isZero_eq_true]

/-! ## Division -/

/-- The two rounding errors of a coordinate, to the nearest integer and to the nearest half: as one
of them grows the other shrinks. -/
lemma sq_error_add_sq_error_le {d : ℤ} (hd : 0 < d) (c : ℤ) :
    (c - 2 * roundDiv c (2 * d) * d) ^ 2 + (c - (2 * (c / (2 * d)) + 1) * d) ^ 2 ≤ d ^ 2 := by
  have h2d : 0 < 2 * d := by linarith
  obtain ⟨hlow, hhigh⟩ := roundDiv_near h2d c
  have hdiv := Int.mul_ediv_add_emod c (2 * d)
  have hrem := Int.emod_nonneg c h2d.ne'
  have hrem' := Int.emod_lt_of_pos c h2d
  generalize c % (2 * d) = m at hdiv hrem hrem'
  generalize c / (2 * d) = f at hdiv ⊢
  generalize roundDiv c (2 * d) = q at hlow hhigh ⊢
  have hq : q = f ∨ q = f + 1 := by
    have : -1 < q - f := by
      by_contra hneg
      nlinarith
    have : q - f < 2 := by
      by_contra hneg
      nlinarith
    omega
  subst hdiv
  rcases hq with rfl | rfl
  · have hm : m ≤ d := by linarith
    nlinarith [mul_nonneg hrem (sub_nonneg.mpr hm)]
  · have hm : d ≤ m := by linarith
    nlinarith [mul_nonneg (sub_nonneg.mpr hrem'.le) (sub_nonneg.mpr hm)]

/-- Times the norm of the divisor, the norm of a remainder is that of the rounding errors. -/
lemma four_mul_norm_sub_mul (a b q : Hurwitz) :
    4 * ((a - q * b).norm * b.norm)
      = ((a * b.conj).r - q.r * b.norm) ^ 2 + ((a * b.conj).i - q.i * b.norm) ^ 2
        + ((a * b.conj).j - q.j * b.norm) ^ 2 + ((a * b.conj).k - q.k * b.norm) ^ 2 := by
  have hconj : b.conj.norm = b.norm := norm_star b
  have hproduct : (a - q * b) * b.conj = a * b.conj - b.norm • q := by
    rw [sub_mul, mul_assoc, show b * b.conj = (b.norm : Hurwitz) from norm_integral.mul_star b,
      zsmul_eq_mul, Int.cast_comm]
  obtain ⟨hr, hi, hj, hk⟩ := zsmul_coordinates b.norm q
  have hnorm := four_mul_norm ((a - q * b) * b.conj)
  rw [norm_mul, hconj, hproduct, sub_r, sub_i, sub_j, sub_k, hr, hi, hj, hk] at hnorm
  linarith

/-- The integral candidate for a quotient. -/
def integralQuotient (a b : Hurwitz) : Hurwitz :=
  ofInts (roundDiv (a * b.conj).r (2 * b.norm)) (roundDiv (a * b.conj).i (2 * b.norm))
    (roundDiv (a * b.conj).j (2 * b.norm)) (roundDiv (a * b.conj).k (2 * b.norm))

/-- The half-integral candidate for a quotient. -/
def halfQuotient (a b : Hurwitz) : Hurwitz :=
  ofHalves ((a * b.conj).r / (2 * b.norm)) ((a * b.conj).i / (2 * b.norm))
    ((a * b.conj).j / (2 * b.norm)) ((a * b.conj).k / (2 * b.norm))

lemma divMod_eq (a b : Hurwitz) :
    divMod a b = if (a - halfQuotient a b * b).norm < (a - integralQuotient a b * b).norm
      then (halfQuotient a b, a - halfQuotient a b * b)
      else (integralQuotient a b, a - integralQuotient a b * b) := rfl

lemma snd_divMod (a b : Hurwitz) : (divMod a b).2 = a - (divMod a b).1 * b := by
  rw [divMod_eq]
  split_ifs
  · rfl
  · rfl

/-- The remainders of the two candidates together are no longer than the divisor. -/
lemma norm_add_norm_le (a : Hurwitz) {b : Hurwitz} (hd : 0 < b.norm) :
    (a - integralQuotient a b * b).norm + (a - halfQuotient a b * b).norm ≤ b.norm := by
  have hint := four_mul_norm_sub_mul a b (integralQuotient a b)
  have hhalf := four_mul_norm_sub_mul a b (halfQuotient a b)
  have hr := sq_error_add_sq_error_le hd (a * b.conj).r
  have hi := sq_error_add_sq_error_le hd (a * b.conj).i
  have hj := sq_error_add_sq_error_le hd (a * b.conj).j
  have hk := sq_error_add_sq_error_le hd (a * b.conj).k
  refine le_of_mul_le_mul_right ?_ hd
  rw [add_mul]
  simp only [integralQuotient, ofInts] at hint ⊢
  simp only [halfQuotient, ofHalves] at hhalf ⊢
  linarith

/-- **A division at least halves the norm.** -/
theorem two_mul_norm_divMod_le (a : Hurwitz) {b : Hurwitz} (hb : b ≠ 0) :
    2 * (divMod a b).2.norm ≤ b.norm := by
  have hsum := norm_add_norm_le a (norm_pos hb)
  rw [divMod_eq]
  split_ifs with hless
  · show 2 * (a - halfQuotient a b * b).norm ≤ b.norm
    linarith
  · show 2 * (a - integralQuotient a b * b).norm ≤ b.norm
    linarith

lemma halving : Euclid.Halving (fun a b => (divMod a b).2) fun b => b.norm.toNat where
  rem_eq a b _ := ⟨(divMod a b).1, snd_divMod a b⟩
  halves a b hb := by
    have := two_mul_norm_divMod_le a hb
    omega
  pos hb := Int.pos_iff_toNat_pos.mp (norm_pos hb)

/-- **The greatest common right divisor generates the left ideal of the operands.** -/
theorem span_gcrd (a b : Hurwitz) : Ideal.span {gcrd a b} = Ideal.span {a, b} := by
  refine Euclid.span_run halving gcrdSteps ?_ ?_ Nat.lt_log2_self
  · intro n a
    rw [gcrdSteps, if_pos (isZero_eq_true.mpr rfl)]
  · intro n a b hb
    rw [gcrdSteps, if_neg (mt isZero_eq_true.mp hb)]

/-- Only zero is refused as a divisor. -/
lemma divModChecked_ok [DigitLimit] (a : Hurwitz) {b : Hurwitz} (hb : b ≠ 0) :
    divModChecked a b = .ok (divMod a b) := by
  rw [divModChecked, if_neg (mt norm_eq_zero.mp hb)]

lemma divModChecked_of_isZero [DigitLimit] (a b : Hurwitz) (hb : b.isZero = false) :
    ∃ q, divModChecked a b = .ok (q, (divMod a b).2) :=
  ⟨(divMod a b).1, divModChecked_ok a (isZero_eq_false.mp hb)⟩

/-- **No division on the way to a greatest common right divisor is refused.** -/
theorem checkedRun_gcrd [DigitLimit] (a b : Hurwitz) :
    Euclid.checkedRun divModChecked isZero (b.norm.toNat.log2 + 2) a b = .ok (gcrd a b) :=
  Euclid.checkedRun_eq divModChecked_of_isZero gcrdSteps (fun _ _ => rfl) (fun _ _ _ => rfl) _ a b

/-- **A quaternion whose norm `m` divides gives one of norm `m`**, when no factor of `m` divides it
as an integer. -/
theorem norm_gcrd {h : Hurwitz} {m : ℤ} (hm : 0 < m) (hdvd : m ∣ h.norm)
    (hprim : ∀ k : ℤ, 0 < k → k ∣ m → (∃ x, h = k • x) → k = 1) :
    (gcrd h (ofInts m 0 0 0)).norm = m :=
  Euclid.norm_generator norm_integral hm (span_gcrd h (ofInts m 0 0 0)) hdvd hprim

/-! ## Integer coordinates -/

/-- A quaternion with integer coordinates, by these coordinates. -/
lemma exists_ofInts {a : Hurwitz} (ha : a.isLipschitz = true) :
    ∃ r i j k, a = ofInts r i j k := by
  simp only [isLipschitz, beq_iff_eq] at ha
  have hparity := a.parity
  refine ⟨a.r / 2, a.i / 2, a.j / 2, a.k / 2, ?_⟩
  ext
  · show a.r = 2 * (a.r / 2)
    omega
  · show a.i = 2 * (a.i / 2)
    omega
  · show a.j = 2 * (a.j / 2)
    omega
  · show a.k = 2 * (a.k / 2)
    omega

/-- One with halves, by the integers below its coordinates. -/
lemma exists_ofHalves {a : Hurwitz} (ha : a.isLipschitz = false) :
    ∃ r i j k, a = ofHalves r i j k := by
  simp only [isLipschitz, beq_eq_false_iff_ne] at ha
  have hparity := a.parity
  refine ⟨a.r / 2, a.i / 2, a.j / 2, a.k / 2, ?_⟩
  ext
  · show a.r = 2 * (a.r / 2) + 1
    omega
  · show a.i = 2 * (a.i / 2) + 1
    omega
  · show a.j = 2 * (a.j / 2) + 1
    omega
  · show a.k = 2 * (a.k / 2) + 1
    omega

lemma norm_of_mem_halfUnits : ∀ u ∈ halfUnits, u.norm = 1 := by
  decide

lemma mem_halfUnits {r i j k : ℤ} (hr : r = 0 ∨ r = -1) (hi : i = 0 ∨ i = -1)
    (hj : j = 0 ∨ j = -1) (hk : k = 0 ∨ k = -1) : ofHalves r i j k ∈ halfUnits := by
  simp only [halfUnits, List.mem_flatMap, List.mem_map, List.mem_cons, List.not_mem_nil, or_false]
  exact ⟨r, hr, i, hi, j, hj, k, hk, rfl⟩

/-- An odd number is one or minus one modulo four. -/
lemma exists_sign {x : ℤ} (hx : x % 2 = 1) :
    ∃ s m, (s = 0 ∨ s = -1) ∧ x = (2 * s + 1) + 4 * m ∧ s * s = -s := by
  rcases (by omega : x % 4 = 1 ∨ x % 4 = 3) with h | h
  · exact ⟨0, x / 4, by omega, by omega, by omega⟩
  · exact ⟨-1, x / 4 + 1, by omega, by omega, by omega⟩

/-- **Some unit clears the halves**: the conjugate of the one whose coordinates agree with those of
`a` modulo four. -/
theorem exists_halfUnit {a : Hurwitz} (ha : a.isLipschitz = false) :
    ∃ u ∈ halfUnits, (a * u).isLipschitz = true := by
  have hodd : a.r % 2 = 1 := by
    simp only [isLipschitz, beq_eq_false_iff_ne] at ha
    omega
  have hparity := a.parity
  obtain ⟨s, m, hs, hr, hss⟩ := exists_sign hodd
  obtain ⟨t, n, ht, hi, htt⟩ := exists_sign (by omega : a.i % 2 = 1)
  obtain ⟨u, o, hu, hj, huu⟩ := exists_sign (by omega : a.j % 2 = 1)
  obtain ⟨v, p, hv, hk, hvv⟩ := exists_sign (by omega : a.k % 2 = 1)
  refine ⟨ofHalves s (-1 - t) (-1 - u) (-1 - v),
    mem_halfUnits hs (by omega) (by omega) (by omega), ?_⟩
  have hproduct := (two_mul_mul a (ofHalves s (-1 - t) (-1 - u) (-1 - v))).1
  simp only [mulR, ofHalves, hr, hi, hj, hk] at hproduct
  simp only [isLipschitz, beq_iff_eq, ofHalves]
  refine Int.emod_eq_zero_of_dvd ⟨1 + m * (2 * s + 1) + n * (2 * t + 1) + o * (2 * u + 1)
    + p * (2 * v + 1), ?_⟩
  linarith

/-- The units by which a quaternion may be multiplied. -/
lemma isUnit_of_mem {u : Hurwitz} (hu : u ∈ 1 :: halfUnits) : IsUnit u := by
  rcases List.mem_cons.mp hu with rfl | hu
  · exact isUnit_one
  · exact isUnit_iff_norm.mpr (norm_of_mem_halfUnits u hu)

/-- **What is handed out has integer coordinates**, and is the quaternion times one, or times one of
the sixteen units on the right. -/
theorem toLipschitz_eq [DigitLimit] (a : Hurwitz) :
    ∃ u ∈ 1 :: halfUnits, a.toLipschitz = .ok (a * u) ∧ (a * u).isLipschitz = true := by
  rw [toLipschitz]
  by_cases ha : a.isLipschitz = true
  · rw [if_pos ha]
    exact ⟨1, List.mem_cons_self, by rw [mul_one], by rwa [mul_one]⟩
  · rw [if_neg ha]
    obtain ⟨u, hu, hlipschitz⟩ := exists_halfUnit (Bool.not_eq_true _ ▸ ha)
    have hsome : ((halfUnits.map (a * ·)).find? isLipschitz).isSome :=
      List.find?_isSome.mpr ⟨a * u, List.mem_map_of_mem hu, hlipschitz⟩
    obtain ⟨b, hb⟩ := Option.isSome_iff_exists.mp hsome
    rw [hb]
    obtain ⟨v, hv, rfl⟩ := List.mem_map.mp (List.mem_of_find?_eq_some hb)
    exact ⟨v, List.mem_cons_of_mem 1 hv, rfl, List.find?_some hb⟩

lemma toLipschitz_associate [DigitLimit] (a : Hurwitz) :
    ∃ u, IsUnit u ∧ a.toLipschitz = .ok (a * u) ∧ (a * u).isLipschitz = true := by
  obtain ⟨u, hu, hrun, hlipschitz⟩ := a.toLipschitz_eq
  exact ⟨u, isUnit_of_mem hu, hrun, hlipschitz⟩

lemma norm_mul_of_isUnit (a : Hurwitz) {u : Hurwitz} (hu : IsUnit u) : (a * u).norm = a.norm := by
  rw [norm_mul, isUnit_iff_norm.mp hu, mul_one]

/-- **Every quaternion has an associate with integer coordinates**, of the same norm. -/
theorem toLipschitz_ok [DigitLimit] (a : Hurwitz) :
    ∃ b, a.toLipschitz = .ok b ∧ b.isLipschitz = true ∧ b.norm = a.norm := by
  obtain ⟨u, hu, hrun, hlipschitz⟩ := a.toLipschitz_associate
  exact ⟨a * u, hrun, hlipschitz, a.norm_mul_of_isUnit hu⟩

/-- The true coordinates are those of the associate that is handed out. -/
lemma value_of_toLipschitz [DigitLimit] {a : Hurwitz} {r i j k : ℤ}
    (h : a.toLipschitz = .ok (ofInts r i j k)) : a.value = .ok [r, i, j, k] := by
  rw [value, h]
  simp [Except.map, doubled, ofInts]

/-- **The true coordinates are four integers** whose squares add up to the norm. -/
theorem value_ok [DigitLimit] (a : Hurwitz) :
    ∃ r i j k, a.value = .ok [r, i, j, k] ∧ r * r + i * i + j * j + k * k = a.norm := by
  obtain ⟨b, hb, hlipschitz, hnorm⟩ := a.toLipschitz_ok
  obtain ⟨r, i, j, k, rfl⟩ := exists_ofInts hlipschitz
  exact ⟨r, i, j, k, value_of_toLipschitz hb, by rw [← hnorm, norm_ofInts]⟩

/-- **Every quaternion has integer coordinates up to a unit.**  The search for an associate never
comes out empty: it returns the quaternion times a unit on the right, which is one or half of
`±1 ± i ± j ± k`, with integer coordinates and the same norm.  These coordinates are what is handed
out as the value, and their squares add up to the norm. -/
theorem integral_up_to_unit [DigitLimit] (a : Hurwitz) :
    ∃ u ∈ 1 :: halfUnits, ∃ r i j k : ℤ, IsUnit u ∧ a.toLipschitz = .ok (a * u) ∧
      a * u = ofInts r i j k ∧ (a * u).norm = a.norm ∧
      a.value = .ok [r, i, j, k] ∧ r * r + i * i + j * j + k * k = a.norm := by
  obtain ⟨u, hu, hrun, hlipschitz⟩ := a.toLipschitz_eq
  have hunit := isUnit_of_mem hu
  have hnorm := a.norm_mul_of_isUnit hunit
  obtain ⟨r, i, j, k, hcoordinates⟩ := exists_ofInts hlipschitz
  refine ⟨u, hu, r, i, j, k, hunit, hrun, hcoordinates, hnorm, ?_, ?_⟩
  · exact value_of_toLipschitz (hcoordinates ▸ hrun)
  · rw [← hnorm, hcoordinates, norm_ofInts]

lemma norm_ofGaussian (g : Gaussian) : (ofGaussian g).norm = g.norm := by
  rw [ofGaussian, norm_ofInts, Gaussian.norm]
  ring

end Hurwitz

end HiddenOrder
