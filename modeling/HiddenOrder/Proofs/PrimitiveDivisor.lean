import HiddenOrder.Proofs.CommonDivisor
import HiddenOrder.Proofs.History
import HiddenOrder.Proofs.Trials

/-!
# Divisors of primitive quaternions

The step that all searches for four squares share takes a quaternion whose norm is a multiple of an
odd number `m`, and hands out one whose norm is `m`.  It is a greatest common right divisor with
`m`, of which only the norm is checked.  The check always passes when no prime factor of `m` divides
all four coordinates, and nothing else is asked of `m`: it may be composite or a power of a prime,
and the quaternion may have factors that `m` does not have.  In the ring modulo `m` the argument
would have to go through the prime powers one by one.  The left ideal avoids that, because whatever
the norm has beyond `m` divides the quaternion as an integer.

* `Hurwitz.eq_one_of_primitive` — no common prime factor with `m`, no common factor.
* **`divisorOfNorm_primitive`** — a quaternion of norm `m` is handed out.
-/

namespace HiddenOrder

namespace Hurwitz

variable {a b c d : ℤ} {m : ℕ}

/-- The coordinates of a quaternion have no prime factor of `m` in common. -/
def PrimitiveAt (m : ℕ) (a b c d : ℤ) : Prop :=
  ∀ q : ℕ, q.Prime → q ∣ m → ¬((q : ℤ) ∣ a ∧ (q : ℤ) ∣ b ∧ (q : ℤ) ∣ c ∧ (q : ℤ) ∣ d)

/-- **Without a common prime factor** there is no common factor at all. -/
lemma eq_one_of_primitive (hm : m % 2 = 1) (hprimitive : PrimitiveAt m a b c d) {k : ℤ}
    (hk : 0 < k) (hdvd : k ∣ m) (hfactor : ∃ x, ofInts a b c d = k • x) : k = 1 := by
  by_contra hne
  obtain ⟨q, hq, hqk⟩ := Nat.exists_prime_and_dvd (show k.toNat ≠ 1 by omega)
  have hqk' : (q : ℤ) ∣ k := by
    rw [← Int.toNat_of_nonneg hk.le]
    exact Int.natCast_dvd_natCast.mpr hqk
  have hqm : q ∣ m := Int.natCast_dvd_natCast.mp (hqk'.trans hdvd)
  obtain ⟨ha, hb, hc, hd⟩ := dvd_coordinates (isCoprime_two (by omega) hdvd) hfactor
  exact hprimitive q hq hqm ⟨hqk'.trans ha, hqk'.trans hb, hqk'.trans hc, hqk'.trans hd⟩

/-- The divisor with `m` has the norm `m`. -/
lemma norm_gcrd_of_primitive (hm : m % 2 = 1) (hdvd : (m : ℤ) ∣ (ofInts a b c d).norm)
    (hprimitive : PrimitiveAt m a b c d) :
    (gcrd (ofInts a b c d) (ofInts m 0 0 0)).norm = m :=
  norm_gcrd (by omega) hdvd fun _ hk hkm => eq_one_of_primitive hm hprimitive hk hkm

end Hurwitz

open Hurwitz (ofInts gcrd)

/-- **From a primitive quaternion a quaternion of norm `m` is handed out.**  Let `m` be odd, and let
it divide the norm of a quaternion with integer coordinates that have no prime factor of `m` in
common.  Then the Euclidean algorithm with `m` ends in a divisor of norm exactly `m`, and an
associate of it with integer coordinates is handed out, whose squares have the sum `m`.  No draw is
made, and of the caches only the pool of quaternions is used.  All that is asked of the pool is that
its idle slots were made; they are after any history of the caches. -/
theorem divisorOfNorm_primitive [DigitLimit] {a b c d : ℤ} {m : ℕ} (hm : m % 2 = 1)
    (hdvd : (m : ℤ) ∣ (ofInts a b c d).norm) (hprimitive : Hurwitz.PrimitiveAt m a b c d)
    {s : SearchState} (hs : s.cache.quaternions.Stocked) :
    Euclid.Loop Hurwitz.divModChecked Hurwitz.isZero (ofInts a b c d) (ofInts m 0 0 0)
        (gcrd (ofInts a b c d) (ofInts m 0 0 0)) ∧
      (gcrd (ofInts a b c d) (ofInts m 0 0 0)).norm = m ∧
      (∃ (u : Hurwitz) (w x y z : ℤ) (pool : ScratchPool Hurwitz),
        IsUnit u ∧ ofInts w x y z = gcrd (ofInts a b c d) (ofInts m 0 0 0) * u ∧
        w * w + x * x + y * y + z * z = m ∧
        divisorOfNorm (ofInts a b c d) m s
          = .ok (some (ofInts w x y z)) ⟨s.draws, { s.cache with quaternions := pool }⟩) ∧
      ∀ primeLimit squareLimit history,
        ((SearchCache.ofLimits primeLimit squareLimit).after history).quaternions.Stocked := by
  have hnorm := Hurwitz.norm_gcrd_of_primitive hm hdvd hprimitive
  obtain ⟨u, hu, hlipschitz, hrun⟩ := divisorOfNorm_of_norm hs hnorm
  obtain ⟨w, x, y, z, hcoordinates⟩ := Hurwitz.exists_ofInts hlipschitz
  refine ⟨Hurwitz.loop_gcrd _ _, hnorm, ⟨u, w, x, y, z,
    (scratchGcrd (ofInts a b c d) m s.cache.quaternions).2, hu, hcoordinates.symm, ?_, ?_⟩, ?_⟩
  · rw [← Hurwitz.norm_ofInts, ← hcoordinates, Hurwitz.norm_mul, hnorm,
      Hurwitz.isUnit_iff_norm.mp hu, mul_one]
  · rw [hrun, hcoordinates]
  · intro primeLimit squareLimit history
    exact (SearchCache.sound_after primeLimit squareLimit history).quaternions.stocked

open Unlimited in
/-- The quaternion `4 + 4i + 2j` has the norm 36, and its factor two is none of nine, the square of
a prime. -/
theorem divisorOfNorm_primitive_nine :
    9 % 2 = 1 ∧ ((9 : ℕ) : ℤ) ∣ (ofInts 4 4 2 0).norm ∧ Hurwitz.PrimitiveAt 9 4 4 2 0 ∧
      SearchCache.standard.quaternions.Stocked ∧
      (gcrd (ofInts 4 4 2 0) (ofInts (9 : ℕ) 0 0 0)).norm = (9 : ℕ) ∧
      ∃ (w x y z : ℤ) (pool : ScratchPool Hurwitz), w * w + x * x + y * y + z * z = (9 : ℕ) ∧
        divisorOfNorm (ofInts 4 4 2 0) 9 ⟨0, .standard⟩
          = .ok (some (ofInts w x y z)) ⟨0, { SearchCache.standard with quaternions := pool }⟩ := by
  have hdvd : ((9 : ℕ) : ℤ) ∣ (ofInts 4 4 2 0).norm := by decide
  have hprimitive : Hurwitz.PrimitiveAt 9 4 4 2 0 := by
    rintro q hq hnine ⟨-, -, htwo, -⟩
    have hone : q ∣ Nat.gcd 9 2 := Nat.dvd_gcd hnine (Int.natCast_dvd_natCast.mp htwo)
    exact hq.one_lt.ne' (Nat.dvd_one.mp hone)
  have hstocked : SearchCache.standard.quaternions.Stocked := by
    rintro slot ⟨⟩
  obtain ⟨-, hnorm, ⟨u, w, x, y, z, pool, -, -, hsum, hrun⟩, -⟩ :=
    divisorOfNorm_primitive (s := ⟨0, .standard⟩) rfl hdvd hprimitive hstocked
  exact ⟨rfl, hdvd, hprimitive, hstocked, hnorm, w, x, y, z, pool, hsum, hrun⟩

end HiddenOrder
