import HiddenOrder.Proofs.Hurwitz

/-!
# The nearest quotient

A division of quaternions rounds the exact quotient twice, to the nearest point with integer
coordinates and to the nearest one with halves, and keeps the point that leaves the shorter
remainder.  Every quaternion is of one of the two kinds, and among those of its kind the rounded one
is nearest in each coordinate: a rounding error is at most half the distance of two neighbours, and
no other point of the same kind is nearer than that.  So the remainder is the shortest that any
quotient leaves, and not only short enough for Euclid's algorithm to end.

* `sq_error_le` — an error of at most half a step is the smallest.
* `sq_error_roundDiv_le`, `sq_error_floor_le` — the two ways to round a coordinate.
* `Hurwitz.norm_integralQuotient_le`, `Hurwitz.norm_halfQuotient_le` — the two candidates, each
  among the quotients of its kind.
* **`Hurwitz.divMod_nearest`** — the division.
-/

namespace HiddenOrder

/-! ## One coordinate -/

/-- **An error of at most half a step is the smallest**: moving by whole steps makes it no
smaller. -/
lemma sq_error_le {step e : ℤ} (hstep : 0 < step) (hlow : -step ≤ 2 * e) (hhigh : 2 * e ≤ step)
    (k : ℤ) : e ^ 2 ≤ (e + step * k) ^ 2 := by
  -- the difference of the squares is `k` times what has the sign of `k`
  have hdiff : (e + step * k) ^ 2 - e ^ 2 = step * (k * (2 * e + step * k)) := by ring
  have hsign : 0 ≤ k * (2 * e + step * k) := by
    rcases lt_trichotomy k 0 with hk | rfl | hk
    · have hstepk : step * k ≤ -step := by nlinarith
      exact mul_nonneg_of_nonpos_of_nonpos hk.le (by linarith)
    · simp
    · have hstepk : step ≤ step * k := by nlinarith
      exact mul_nonneg hk.le (by linarith)
  have := mul_nonneg hstep.le hsign
  linarith

variable {d : ℤ}

/-- No even multiple of `d` is nearer to `c` than the rounded one. -/
lemma sq_error_roundDiv_le (hd : 0 < d) (c x : ℤ) :
    (c - 2 * roundDiv c (2 * d) * d) ^ 2 ≤ (c - 2 * x * d) ^ 2 := by
  obtain ⟨hlow, hhigh⟩ := roundDiv_near (by linarith : 0 < 2 * d) c
  have hleast := sq_error_le (by linarith : 0 < 2 * d) hlow hhigh (roundDiv c (2 * d) - x)
  calc (c - 2 * roundDiv c (2 * d) * d) ^ 2
      = (c - 2 * d * roundDiv c (2 * d)) ^ 2 := by ring
    _ ≤ (c - 2 * d * roundDiv c (2 * d) + 2 * d * (roundDiv c (2 * d) - x)) ^ 2 := hleast
    _ = (c - 2 * x * d) ^ 2 := by ring

/-- No odd multiple of `d` is nearer to `c` than the one in the middle of the even ones around
`c`. -/
lemma sq_error_floor_le (hd : 0 < d) (c x : ℤ) :
    (c - (2 * (c / (2 * d)) + 1) * d) ^ 2 ≤ (c - (2 * x + 1) * d) ^ 2 := by
  have hdiv := Int.mul_ediv_add_emod c (2 * d)
  have hrem := Int.emod_nonneg c (by linarith : 2 * d ≠ 0)
  have hrem' := Int.emod_lt_of_pos c (by linarith : 0 < 2 * d)
  have herror : c - (2 * (c / (2 * d)) + 1) * d = c % (2 * d) - d := by linarith
  have hleast := sq_error_le (by linarith : 0 < 2 * d)
    (by linarith : -(2 * d) ≤ 2 * (c % (2 * d) - d)) (by linarith) (c / (2 * d) - x)
  calc (c - (2 * (c / (2 * d)) + 1) * d) ^ 2
      = (c % (2 * d) - d) ^ 2 := by rw [herror]
    _ ≤ (c % (2 * d) - d + 2 * d * (c / (2 * d) - x)) ^ 2 := hleast
    _ = (c - (2 * x + 1) * d) ^ 2 := by
        rw [← herror]
        ring

namespace Hurwitz

/-! ## Four coordinates -/

variable (a : Hurwitz) {b : Hurwitz}

/-- A quotient that is nearer in each coordinate leaves the shorter remainder. -/
lemma norm_sub_mul_le (hd : 0 < b.norm) {q q' : Hurwitz}
    (hr : ((a * b.conj).r - q.r * b.norm) ^ 2 ≤ ((a * b.conj).r - q'.r * b.norm) ^ 2)
    (hi : ((a * b.conj).i - q.i * b.norm) ^ 2 ≤ ((a * b.conj).i - q'.i * b.norm) ^ 2)
    (hj : ((a * b.conj).j - q.j * b.norm) ^ 2 ≤ ((a * b.conj).j - q'.j * b.norm) ^ 2)
    (hk : ((a * b.conj).k - q.k * b.norm) ^ 2 ≤ ((a * b.conj).k - q'.k * b.norm) ^ 2) :
    (a - q * b).norm ≤ (a - q' * b).norm := by
  have hq := four_mul_norm_sub_mul a b q
  have hq' := four_mul_norm_sub_mul a b q'
  refine le_of_mul_le_mul_right ?_ hd
  linarith

/-- **The integral candidate is nearest** among the quotients with integer coordinates. -/
lemma norm_integralQuotient_le (hd : 0 < b.norm) (r i j k : ℤ) :
    (a - integralQuotient a b * b).norm ≤ (a - ofInts r i j k * b).norm :=
  norm_sub_mul_le a hd (sq_error_roundDiv_le hd _ r) (sq_error_roundDiv_le hd _ i)
    (sq_error_roundDiv_le hd _ j) (sq_error_roundDiv_le hd _ k)

/-- **The half-integral candidate is nearest** among the quotients with halves. -/
lemma norm_halfQuotient_le (hd : 0 < b.norm) (r i j k : ℤ) :
    (a - halfQuotient a b * b).norm ≤ (a - ofHalves r i j k * b).norm :=
  norm_sub_mul_le a hd (sq_error_floor_le hd _ r) (sq_error_floor_le hd _ i)
    (sq_error_floor_le hd _ j) (sq_error_floor_le hd _ k)

/-- The candidate that is kept leaves no longer remainder than either of the two. -/
lemma norm_divMod_le (b : Hurwitz) :
    (divMod a b).2.norm ≤ (a - integralQuotient a b * b).norm ∧
      (divMod a b).2.norm ≤ (a - halfQuotient a b * b).norm := by
  rw [divMod_eq]
  split_ifs with hless
  · exact ⟨hless.le, le_rfl⟩
  · exact ⟨le_rfl, not_lt.mp hless⟩

/-- **The quotient of a division is nearest.**  By anything but zero a quaternion can be divided;
what is left over has at most half the norm of the divisor, and no quotient at all, with halves or
without, leaves less. -/
theorem divMod_nearest [DigitLimit] (hb : b ≠ 0) :
    ∃ q r, divModChecked a b = .ok (q, r) ∧ a = q * b + r ∧ 2 * r.norm ≤ b.norm ∧
      ∀ q', r.norm ≤ (a - q' * b).norm := by
  have hd := norm_pos hb
  obtain ⟨hintegral, hhalf⟩ := norm_divMod_le a b
  refine ⟨(divMod a b).1, (divMod a b).2, divModChecked_ok a hb, ?_, two_mul_norm_divMod_le a hb,
    fun q' => ?_⟩
  · rw [snd_divMod, add_sub_cancel]
  · cases hq' : q'.isLipschitz with
    | true =>
        obtain ⟨r, i, j, k, rfl⟩ := exists_ofInts hq'
        exact hintegral.trans (norm_integralQuotient_le a hd r i j k)
    | false =>
        obtain ⟨r, i, j, k, rfl⟩ := exists_ofHalves hq'
        exact hhalf.trans (norm_halfQuotient_le a hd r i j k)

open Unlimited in
/-- One plus `i` over two is as far from the integral points as from those with halves, and the norm
of the remainder is half that of the divisor: no quotient leaves less. -/
theorem divMod_nearest_deepHole :
    ofInts 2 0 0 0 ≠ 0 ∧
      divModChecked (ofInts 1 1 0 0) (ofInts 2 0 0 0)
        = .ok (ofInts 1 1 0 0, ofInts (-1) (-1) 0 0) ∧
      ∀ q', (ofInts 2 0 0 0).norm ≤ 2 * (ofInts 1 1 0 0 - q' * ofInts 2 0 0 0).norm := by
  have hrun : divModChecked (ofInts 1 1 0 0) (ofInts 2 0 0 0)
      = .ok (ofInts 1 1 0 0, ofInts (-1) (-1) 0 0) := by
    rw [divModChecked_ok _ (by decide)]
    exact congrArg Except.ok (by decide)
  refine ⟨by decide, hrun, fun q' => ?_⟩
  obtain ⟨q, r, hqr, -, -, hleast⟩ := divMod_nearest (ofInts 1 1 0 0) (b := ofInts 2 0 0 0)
    (by decide)
  rw [hrun] at hqr
  cases hqr
  have hnorm : (ofInts (-1) (-1) 0 0).norm = 2 := by decide
  have hdivisor : (ofInts 2 0 0 0).norm = 4 := by decide
  have := hleast q'
  linarith

end Hurwitz

end HiddenOrder
