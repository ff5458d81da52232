import HiddenOrder.Proofs.Hurwitz

/-!
# Greatest common right divisors

Multiplication of quaternions has sides, so divisors have them too.  The division `a = q · b + r`
keeps the quotient on the left; what divides both operands on the right therefore divides the
remainder on the right, and the algorithm keeps the left ideal of its operands.  A generator of that
ideal is a common right divisor that every other one divides, and in a ring without zero divisors
there is no choice in it beyond a unit on the left.  Gaussian integers have no sides, and the same
argument gives them greatest common divisors.

* **`Euclid.Loop`** — the course of the algorithm, one refusable division after the other.
* `Euclid.loop_run` — the algorithm for a bounded number of steps goes the whole course.
* **`Euclid.RightDivides`**, **`Euclid.IsGcrd`** — right divisors, and the greatest among the common
  ones.
* `Euclid.isGcrd_iff_unit` — they are the multiples of one of them by units on the left.
* **`Gaussian.gcd_greatest`** — the divisor of two Gaussian integers, and the division it rests on.
* **`Hurwitz.gcrd_greatest`** — all of this for the quaternions of the searches.
-/

namespace HiddenOrder

namespace Euclid

/-! ## The course of the algorithm -/

section Course

variable {R ε : Type}

/-- The course of Euclid's algorithm: as long as the second operand is not zero, the operands give
way to the second one and the remainder.  There is no course with a division that is refused, and
none that goes on for ever. -/
inductive Loop (divide : R → R → Except ε (R × R)) (isZero : R → Bool) : R → R → R → Prop where
  /-- The second operand is zero, and the first one the result. -/
  | done {a b : R} (hb : isZero b = true) : Loop divide isZero a b a
  /-- One division, and the course from its divisor and its remainder. -/
  | step {a b q r d : R} (hb : isZero b = false) (hdivide : divide a b = .ok (q, r))
      (rest : Loop divide isZero b r d) : Loop divide isZero a b d

variable {divide : R → R → Except ε (R × R)} {isZero : R → Bool}

/-- A course has one end. -/
lemma Loop.unique {a b d e : R} (hd : Loop divide isZero a b d) (he : Loop divide isZero a b e) :
    d = e := by
  induction hd generalizing e with
  | done hb =>
      cases he with
      | done => rfl
      | step hb' => simp [hb] at hb'
  | step hb hdivide _ ih =>
      cases he with
      | done hb' => simp [hb] at hb'
      | step _ hdivide' rest' =>
          rw [hdivide] at hdivide'
          cases hdivide'
          exact ih rest'

/-- **The bounded algorithm goes the whole course**, when its steps are as many as the second
operand has binary digits and only zero is refused as a divisor. -/
theorem loop_run [Ring R] {rem : R → R → R} {size : R → ℕ} (h : Halving rem size)
    (hisZero : ∀ b, isZero b = true ↔ b = 0)
    (hdivide : ∀ a b, isZero b = false → ∃ q, divide a b = .ok (q, rem a b))
    (run : ℕ → R → R → R)
    (hrun : ∀ n a b, run (n + 1) a b = if isZero b then a else run n b (rem a b))
    {n : ℕ} {a b : R} (hsize : size b < 2 ^ n) : Loop divide isZero a b (run (n + 1) a b) := by
  induction n generalizing a b with
  | zero =>
      have hb : isZero b = true := by
        by_contra hb
        have := h.pos (mt (hisZero b).mpr hb)
        omega
      rw [hrun, if_pos hb]
      exact .done hb
  | succ n ih =>
      rw [hrun]
      cases hb : isZero b with
      | true => exact .done hb
      | false =>
          have hne : b ≠ 0 := by
            rw [Ne, ← hisZero, hb]
            exact Bool.false_ne_true
          have hhalf := h.halves a hne
          rw [pow_succ] at hsize
          obtain ⟨q, hq⟩ := hdivide a b hb
          exact .step hb hq (ih (by omega))

end Course

/-! ## Right divisors -/

section Divisors

variable {R : Type} [Ring R] {a b c d e : R}

/-- `c` is a right divisor of `a`. -/
def RightDivides (c a : R) : Prop := ∃ x, a = x * c

/-- `d` is a common right divisor of `a` and `b`, and every common right divisor is one of `d`. -/
structure IsGcrd (a b d : R) : Prop where
  left : RightDivides d a
  right : RightDivides d b
  greatest : ∀ c, RightDivides c a → RightDivides c b → RightDivides c d

lemma rightDivides_iff : RightDivides c a ↔ a ∈ Ideal.span {c} := by
  simp only [RightDivides, Ideal.mem_span_singleton', eq_comm]

lemma exists_combination (h : Ideal.span {d} = Ideal.span {a, b}) : ∃ u v, d = u * a + v * b := by
  have hmem : d ∈ Ideal.span {a, b} := h ▸ Ideal.mem_span_singleton_self d
  obtain ⟨u, v, huv⟩ := Ideal.mem_span_pair.mp hmem
  exact ⟨u, v, huv.symm⟩

/-- **A generator of the left ideal** of two elements is a greatest common right divisor. -/
lemma isGcrd_of_span (h : Ideal.span {d} = Ideal.span {a, b}) : IsGcrd a b d where
  left := by
    rw [rightDivides_iff, h]
    exact Ideal.subset_span (by simp)
  right := by
    rw [rightDivides_iff, h]
    exact Ideal.subset_span (by simp)
  greatest c ha hb := by
    obtain ⟨u, v, rfl⟩ := exists_combination h
    obtain ⟨x, rfl⟩ := ha
    obtain ⟨y, rfl⟩ := hb
    exact ⟨u * x + v * y, by rw [add_mul, mul_assoc, mul_assoc]⟩

/-- It is zero only when both elements are. -/
lemma IsGcrd.ne_zero (h : IsGcrd a b d) (hab : a ≠ 0 ∨ b ≠ 0) : d ≠ 0 := by
  rintro rfl
  obtain ⟨x, hx⟩ := h.left
  obtain ⟨y, hy⟩ := h.right
  rw [mul_zero] at hx hy
  rcases hab with ha | hb
  · exact ha hx
  · exact hb hy

/-- **Greatest common right divisors differ by a unit on the left**, and a unit on the left does not
keep one from being greatest. -/
theorem isGcrd_iff_unit [NoZeroDivisors R] (h : IsGcrd a b d) (hd : d ≠ 0) :
    IsGcrd a b e ↔ ∃ u, IsUnit u ∧ e = u * d := by
  constructor
  · intro he
    obtain ⟨x, hx⟩ := h.greatest e he.left he.right
    obtain ⟨y, hy⟩ := he.greatest d h.left h.right
    have hene : e ≠ 0 := by
      rintro rfl
      exact hd (by rw [hx, mul_zero])
    -- each of the two is the other one times a factor, and the two factors cancel
    have hxy : x * y = 1 := mul_right_cancel₀ hd (by rw [mul_assoc, ← hy, ← hx, one_mul])
    have hyx : y * x = 1 := mul_right_cancel₀ hene (by rw [mul_assoc, ← hx, ← hy, one_mul])
    exact ⟨y, ⟨⟨y, x, hyx, hxy⟩, rfl⟩, hy⟩
  · rintro ⟨u, ⟨u, rfl⟩, rfl⟩
    obtain ⟨x, hx⟩ := h.left
    obtain ⟨y, hy⟩ := h.right
    refine ⟨⟨x * ↑u⁻¹, ?_⟩, ⟨y * ↑u⁻¹, ?_⟩, fun c ha hb => ?_⟩
    · rw [mul_assoc, Units.inv_mul_cancel_left, hx]
    · rw [mul_assoc, Units.inv_mul_cancel_left, hy]
    · obtain ⟨z, hz⟩ := h.greatest c ha hb
      exact ⟨u * z, by rw [hz, mul_assoc]⟩

end Divisors

/-- In a commutative ring right divisors are divisors. -/
lemma rightDivides_iff_dvd {R : Type} [CommRing R] {a c : R} : RightDivides c a ↔ c ∣ a :=
  dvd_iff_exists_eq_mul_left.symm

end Euclid

namespace Gaussian

/-- The course from any two Gaussian integers ends. -/
lemma loop_gcd [DigitLimit] (a b : Gaussian) : Euclid.Loop divModChecked isZero a b (gcd a b) :=
  Euclid.loop_run halving (fun _ => isZero_eq_true) divModChecked_of_isZero gcdSteps
    (fun _ _ _ => rfl) Nat.lt_log2_self

/-- **A greatest common divisor is found.**  From any two Gaussian integers, zero included, the
algorithm ends without a refused division, and what it ends with divides both, is a sum of multiples
of the two, and is divided by all that divide both.  Each step is a division that leaves at most
half the norm of the divisor, which anything but zero may be. -/
theorem gcd_greatest [DigitLimit] (a b : Gaussian) :
    (∀ g, Euclid.Loop divModChecked isZero a b g ↔ g = gcd a b) ∧
      gcd a b ∣ a ∧ gcd a b ∣ b ∧ (∃ u v, gcd a b = u * a + v * b) ∧
      (∀ c, c ∣ a → c ∣ b → c ∣ gcd a b) ∧
      ∀ x y, y ≠ 0 → ∃ q r, divModChecked x y = .ok (q, r) ∧ x = y * q + r ∧
        2 * r.norm ≤ y.norm := by
  have hgreatest := Euclid.isGcrd_of_span (span_gcd a b)
  refine ⟨fun g => ⟨fun hg => hg.unique (loop_gcd a b), ?_⟩,
    Euclid.rightDivides_iff_dvd.mp hgreatest.left, Euclid.rightDivides_iff_dvd.mp hgreatest.right,
    Euclid.exists_combination (span_gcd a b), fun c ha hb => ?_, fun x y hy => ?_⟩
  · rintro rfl
    exact loop_gcd a b
  · have hc := hgreatest.greatest c (Euclid.rightDivides_iff_dvd.mpr ha)
      (Euclid.rightDivides_iff_dvd.mpr hb)
    exact Euclid.rightDivides_iff_dvd.mp hc
  · refine ⟨(divMod x y).1, (divMod x y).2, divModChecked_ok x hy, ?_, two_mul_norm_divMod_le x hy⟩
    show x = y * (divMod x y).1 + (x - y * (divMod x y).1)
    rw [add_sub_cancel]

open Unlimited in
/-- Norms of 130 and 65, and a divisor of norm five; on the way to it `(1 + 8i) / (2 - 4i)` lies
half-way between two quotients, and the real part goes away from zero. -/
theorem gcd_greatest_five :
    gcd ⟨11, 3⟩ ⟨1, 8⟩ = ⟨1, -2⟩ ∧ (∃ u v, gcd ⟨11, 3⟩ ⟨1, 8⟩ = u * ⟨11, 3⟩ + v * ⟨1, 8⟩) ∧
      (⟨2, -4⟩ : Gaussian) ≠ 0 ∧ divMod ⟨1, 8⟩ ⟨2, -4⟩ = (⟨-2, 1⟩, ⟨1, -2⟩) ∧
      ∃ q r : Gaussian, divModChecked ⟨1, 8⟩ ⟨2, -4⟩ = .ok (q, r) ∧
        (⟨1, 8⟩ : Gaussian) = ⟨2, -4⟩ * q + r ∧ 2 * r.norm ≤ (⟨2, -4⟩ : Gaussian).norm := by
  obtain ⟨-, -, -, hcombination, -, hdivision⟩ := gcd_greatest ⟨11, 3⟩ ⟨1, 8⟩
  exact ⟨by decide, hcombination, by decide, by decide, hdivision ⟨1, 8⟩ ⟨2, -4⟩ (by decide)⟩

end Gaussian

namespace Hurwitz

/-- The course from any two quaternions ends. -/
lemma loop_gcrd [DigitLimit] (a b : Hurwitz) : Euclid.Loop divModChecked isZero a b (gcrd a b) :=
  Euclid.loop_run halving (fun _ => isZero_eq_true) divModChecked_of_isZero gcrdSteps
    (fun _ _ _ => rfl) Nat.lt_log2_self

/-- **A greatest common right divisor is found.**  From any two quaternions, those with halves
included, the algorithm ends without a refused division, and what it ends with divides both on the
right, is divided on the right by all that do, and is a sum of left multiples of the two.  When they
are not both zero, it is not zero either, and only the multiples of it by a unit on the left are
like it. -/
theorem gcrd_greatest [DigitLimit] (a b : Hurwitz) :
    (∀ d, Euclid.Loop divModChecked isZero a b d ↔ d = gcrd a b) ∧
      Euclid.IsGcrd a b (gcrd a b) ∧ (∃ u v, gcrd a b = u * a + v * b) ∧
      (a ≠ 0 ∨ b ≠ 0 → gcrd a b ≠ 0 ∧
        ∀ d, Euclid.IsGcrd a b d ↔ ∃ u, IsUnit u ∧ d = u * gcrd a b) := by
  have hgreatest := Euclid.isGcrd_of_span (span_gcrd a b)
  refine ⟨fun d => ⟨fun hd => hd.unique (loop_gcrd a b), ?_⟩, hgreatest,
    Euclid.exists_combination (span_gcrd a b), fun hab => ?_⟩
  · rintro rfl
    exact loop_gcrd a b
  · have hne := hgreatest.ne_zero hab
    exact ⟨hne, fun d => Euclid.isGcrd_iff_unit hgreatest hne⟩

open Unlimited in
/-- Two quaternions with halves, of norms fifteen and nine, and a divisor of norm three. -/
theorem gcrd_greatest_halves :
    gcrd (ofHalves 2 2 0 1) (ofHalves 1 1 1 1) = ofHalves (-1) (-1) 0 1 ∧
      (ofHalves 2 2 0 1 ≠ 0 ∨ ofHalves 1 1 1 1 ≠ 0) ∧
      ∀ d, Euclid.IsGcrd (ofHalves 2 2 0 1) (ofHalves 1 1 1 1) d ↔
        ∃ u, IsUnit u ∧ d = u * gcrd (ofHalves 2 2 0 1) (ofHalves 1 1 1 1) :=
  ⟨by decide, .inl (by decide),
    ((gcrd_greatest (ofHalves 2 2 0 1) (ofHalves 1 1 1 1)).2.2.2 (.inl (by decide))).2⟩

end Hurwitz

end HiddenOrder
