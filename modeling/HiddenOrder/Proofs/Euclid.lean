import Mathlib.Algebra.Star.Basic
import Mathlib.RingTheory.Ideal.Span
import Mathlib.Tactic.Abel
import Mathlib.Tactic.Linarith

/-!
# Euclid's algorithm in a ring with a norm

Gaussian integers and quaternions share the argument that turns a multiple of a number into the
number itself.  The algorithm ends because every division halves the norm, and what it ends with
generates the left ideal of its operands.  A generator of the left ideal of `h` and a positive
integer `m`, where `m` divides the norm of `h`, has a norm that is a multiple of `m`; what is more
than `m` in it is an integer factor of `h`, and when `h` has none the norm is `m`.

* **`Euclid.Halving`** — a remainder, and a norm that a division halves.
* **`Euclid.span_run`** — Euclid's algorithm finds a generator, given as many steps as its second
  operand has binary digits.
* **`Euclid.checkedRun_eq`** — none of its divisions is refused.
* **`Euclid.IntegralNorm`** — the product of an element and its conjugate is an integer.
* **`Euclid.norm_generator`** — the norm of a generator.
-/

namespace HiddenOrder

namespace Euclid

section Algorithm

variable {R : Type} [Ring R] {rem : R → R → R} {size : R → ℕ}

/-- A remainder, and a measure that a division by anything but zero halves. -/
structure Halving (rem : R → R → R) (size : R → ℕ) : Prop where
  rem_eq : ∀ a {b}, b ≠ 0 → ∃ q, rem a b = a - q * b
  halves : ∀ a {b}, b ≠ 0 → 2 * size (rem a b) ≤ size b
  pos : ∀ {b}, b ≠ 0 → 0 < size b

lemma span_sub_mul (a b q : R) : Ideal.span {b, a - q * b} = Ideal.span {a, b} := by
  apply le_antisymm
  · rw [Ideal.span_le]
    rintro x (rfl | rfl)
    · exact Ideal.mem_span_pair.mpr ⟨0, 1, by simp⟩
    · exact Ideal.mem_span_pair.mpr ⟨1, -q, by rw [one_mul, neg_mul, ← sub_eq_add_neg]⟩
  · rw [Ideal.span_le]
    rintro x (rfl | rfl)
    · exact Ideal.mem_span_pair.mpr ⟨q, 1, by rw [one_mul, add_sub_cancel]⟩
    · exact Ideal.mem_span_pair.mpr ⟨1, 0, by simp⟩

/-- **Euclid's algorithm finds a generator** of the left ideal of its operands.  The number of
binary digits of the second one bounds the divisions, because each of them takes one away. -/
theorem span_run (h : Halving rem size) (run : ℕ → R → R → R)
    (hzero : ∀ n a, run (n + 1) a 0 = a)
    (hstep : ∀ n a b, b ≠ 0 → run (n + 1) a b = run n b (rem a b)) {n : ℕ} {a b : R}
    (hsize : size b < 2 ^ n) : Ideal.span {run (n + 1) a b} = Ideal.span {a, b} := by
  induction n generalizing a b with
  | zero =>
      have hb : b = 0 := by
        by_contra hb
        have := h.pos hb
        omega
      rw [hb, hzero, Ideal.span_pair_comm, Ideal.span_insert_zero]
  | succ n ih =>
      by_cases hb : b = 0
      · rw [hb, hzero, Ideal.span_pair_comm, Ideal.span_insert_zero]
      · have hhalf := h.halves a hb
        rw [pow_succ] at hsize
        obtain ⟨q, hq⟩ := h.rem_eq a hb
        rw [hstep _ _ _ hb, ih (by omega), hq, span_sub_mul]

end Algorithm

section Checked

variable {R ε : Type} {rem : R → R → R}

/-- The algorithm with a division that refuses some divisors. -/
def checkedRun (divide : R → R → Except ε (R × R)) (isZero : R → Bool) :
    ℕ → R → R → Except ε R
  | 0, a, _ => pure a
  | n + 1, a, b =>
    if isZero b then pure a
    else do
      let qr ← divide a b
      checkedRun divide isZero n b qr.2

/-- **None of its divisions is refused**, when zero is the only divisor that is. -/
theorem checkedRun_eq {divide : R → R → Except ε (R × R)} {isZero : R → Bool}
    (hdivide : ∀ a b, isZero b = false → ∃ q, divide a b = .ok (q, rem a b))
    (run : ℕ → R → R → R) (hnone : ∀ a b, run 0 a b = a)
    (hstep : ∀ n a b, run (n + 1) a b = if isZero b then a else run n b (rem a b)) (n : ℕ) :
    ∀ a b, checkedRun divide isZero n a b = .ok (run n a b) := by
  induction n with
  | zero =>
      intro a b
      rw [checkedRun, hnone]
      rfl
  | succ n ih =>
      intro a b
      rw [checkedRun, hstep]
      cases hb : isZero b with
      | true => rfl
      | false =>
          obtain ⟨q, hq⟩ := hdivide a b hb
          rw [hq]
          exact ih b (rem a b)

end Checked

section Norm

variable {R : Type} [Ring R] [StarRing R] {N : R → ℤ}

/-- The product of an element and its conjugate is an integer that is not negative, and what
divides an integer in the ring divides it among the integers. -/
structure IntegralNorm (N : R → ℤ) : Prop where
  mul_star : ∀ a, a * star a = N a
  nonneg : ∀ a, 0 ≤ N a
  dvd_of_zsmul : ∀ {m n : ℤ} {z : R}, (n : R) = m • z → m ∣ n

namespace IntegralNorm

lemma cast_inj (h : IntegralNorm N) {m n : ℤ} (hmn : (m : R) = n) : m = n := by
  have hzero : ((m - n : ℤ) : R) = (0 : ℤ) • (0 : R) := by simp [hmn]
  have := zero_dvd_iff.mp (h.dvd_of_zsmul hzero)
  omega

lemma map_mul (h : IntegralNorm N) (a b : R) : N (a * b) = N a * N b := by
  apply h.cast_inj
  rw [← h.mul_star, star_mul, mul_assoc, ← mul_assoc b, h.mul_star, Int.cast_comm, ← mul_assoc,
    h.mul_star, Int.cast_mul]

lemma map_intCast (h : IntegralNorm N) (m : ℤ) : N (m : R) = m * m := by
  apply h.cast_inj
  rw [← h.mul_star, star_intCast, Int.cast_mul]

/-- Every multiple of `h` and `m` together has a norm that `m` divides, when `m` divides that of
`h`. -/
lemma dvd_norm_of_mem (h : IntegralNorm N) {a d : R} {m : ℤ} (hdvd : m ∣ N a)
    (hd : d ∈ Ideal.span {a, (m : R)}) : m ∣ N d := by
  obtain ⟨x, y, rfl⟩ := Ideal.mem_span_pair.mp hd
  obtain ⟨c, hc⟩ := hdvd
  refine h.dvd_of_zsmul (z := c • (x * star x) + x * a * star y + y * (star a * star x)
    + m • (y * star y)) ?_
  have hy : y * (m : R) = m • y := by rw [← Int.cast_comm, zsmul_eq_mul]
  have hstar : star (m • y) = m • star y := by
    rw [zsmul_eq_mul, star_mul, star_intCast, ← Int.cast_comm, zsmul_eq_mul]
  have hax : x * a * (star a * star x) = (m * c) • (x * star x) := by
    rw [mul_assoc, ← mul_assoc a, h.mul_star, hc, Int.cast_comm, ← mul_assoc, ← zsmul_eq_mul']
  rw [← h.mul_star, hy, star_add, star_mul, hstar, mul_add, add_mul, add_mul, hax]
  simp only [mul_smul_comm, smul_mul_assoc, smul_add, mul_smul]
  abel

end IntegralNorm

/-- **The norm of a generator** of the left ideal of `h` and `m`: it is `m`, when `m` divides the
norm of `h` and no integer factor of `m` divides `h` itself. -/
theorem norm_generator [NoZeroDivisors R] (h : IntegralNorm N) {a d : R} {m : ℤ} (hm : 0 < m)
    (hspan : Ideal.span {d} = Ideal.span {a, (m : R)}) (hdvd : m ∣ N a)
    (hprim : ∀ k : ℤ, 0 < k → k ∣ m → (∃ x, a = k • x) → k = 1) : N d = m := by
  have hmem : d ∈ Ideal.span {a, (m : R)} := hspan ▸ Ideal.mem_span_singleton_self d
  obtain ⟨k, hk⟩ := h.dvd_norm_of_mem hdvd hmem
  obtain ⟨v, hv⟩ : ∃ v, v * d = a := by
    rw [← Ideal.mem_span_singleton', hspan]
    exact Ideal.subset_span (by simp)
  obtain ⟨u, hu⟩ : ∃ u, u * d = m := by
    rw [← Ideal.mem_span_singleton', hspan]
    exact Ideal.subset_span (by simp)
  -- the norms of the two factors of `m`: that of the generator has `k` to spare
  have hfactor : N u * k = m := by
    have hnorms : N u * N d = m * m := by rw [← h.map_mul, hu, h.map_intCast]
    rw [hk] at hnorms
    have : m * (N u * k) = m * m := by linarith
    exact mul_left_cancel₀ hm.ne' this
  have hkpos : 0 < k := by
    have hnonneg := h.nonneg u
    by_contra hneg
    nlinarith
  have hune : u ≠ 0 := by
    rintro rfl
    rw [zero_mul, eq_comm, ← Int.cast_zero] at hu
    have := h.cast_inj hu
    omega
  -- so the generator is `k` times the conjugate of the other factor, and `k` divides `a`
  have hgen : d = k • star u := by
    apply mul_left_cancel₀ hune
    rw [hu, mul_smul_comm, h.mul_star, ← hfactor, Int.cast_mul, zsmul_eq_mul, Int.cast_comm]
  have hone : k = 1 := by
    refine hprim k hkpos ⟨N u, by linarith⟩ ⟨v * star u, ?_⟩
    rw [← hv, hgen, mul_smul_comm]
  rw [hk, hone, mul_one]

end Norm

end Euclid

end HiddenOrder
