import HiddenOrder.Proofs.Membership
import Mathlib.RingTheory.Coprime.Lemmas

/-!
# What a false membership proof gives away

An accepted proof for a number that shares no factor with the accumulated ones would be a root of
the base, which is what nobody is believed to be able to compute in a group of unknown order.  The
two powers that are known of the base, its product-th power `acc` and the number-th power of the
proof that equals it, are joined by Bézout coefficients.

Nothing is assumed of the proof.  That it is a unit, and so may be raised to a negative coefficient,
follows from its acceptance: a power of it is the accumulator, and the accumulator is a unit.

* **`root_of_bezout`** — the joined powers, in any commutative group.
* **`unit_of_accepted`** — an accepted proof is a unit.
* **`multiPow_root`** — the root is computed, and is one.
* **`nonmember_proof_gives_root`** — for every accepted proof and all coefficients.
-/

namespace HiddenOrder

variable {base N e w budget a b : ℤ} {reps : List ℤ}

/-- **Two powers joined by Bézout coefficients** make a root. -/
theorem root_of_bezout {M : Type} [CommGroup M] {v g : M} {e k a b : ℤ} (h : v ^ e = g ^ k)
    (hab : a * k + b * e = 1) : (v ^ a * g ^ b) ^ e = g := by
  calc (v ^ a * g ^ b) ^ e = (v ^ e) ^ a * g ^ (b * e) := by
        rw [mul_zpow, ← zpow_mul, ← zpow_mul, ← zpow_mul, mul_comm a e]
    _ = g ^ (a * k + b * e) := by rw [h, ← zpow_mul, mul_comm k a, zpow_add]
    _ = g := by rw [hab, zpow_one]

/-- **An accepted proof is a unit** when the accumulator is a power of one, and its power among the
units is this one. -/
theorem unit_of_accepted [DigitLimit] (hN : 2 ≤ N) {g : (Residue N)ˣ} (hg : (base : Residue N) = g)
    (hreps : ∀ e ∈ reps, 0 < e)
    (haccepted : verifyMembership (accumulator base N reps) e w N = .ok true) :
    ∃ v : (Residue N)ˣ, (w : Residue N) = v ∧ v ^ e = g ^ reps.prod := by
  obtain ⟨⟨-, he, -⟩, hpower⟩ := (verifyMembership_decides _ e w N).eq_true_iff.mp haccepted
  rw [accumulator, canonical_inj hN, hg] at hpower
  have hunit : IsUnit (w : Residue N) := by
    rw [← isUnit_pow_iff (show e.toNat ≠ 0 by omega), hpower]
    exact g.isUnit.pow _
  obtain ⟨v, hv⟩ := hunit
  refine ⟨v, hv.symm, Units.ext ?_⟩
  rw [val_zpow_of_nonneg v he.le, val_zpow_of_nonneg g (prod_pos hreps).le, hv, hpower]

/-- **The root is computed**, whatever the signs of the coefficients, and is one. -/
theorem multiPow_root [DigitLimit] (hN : 2 ≤ N) (hbase : 0 < base ∧ base < N) {v g : (Residue N)ˣ}
    (hw : (w : Residue N) = v) (hg : (base : Residue N) = g) {k : ℤ} (h : v ^ e = g ^ k)
    (hab : a * k + b * e = 1) :
    ∃ y, Modular.multiPow [w, base] [a, b] N = .ok y ∧ (0 < y ∧ y < N) ∧
      Modular.pow y e N = .ok base := by
  refine ⟨_, Modular.multiPow_pair hN hw hg a b,
    ⟨canonical_pos hN (Units.isUnit _), canonical_lt hN _⟩, ?_⟩
  rw [Modular.pow_of_unit hN (cast_canonical hN _), root_of_bezout h hab, ← hg,
    canonical_cast_of_lt hN hbase.1.le hbase.2]

/-- **An accepted proof for a non-member gives a root of the base.**  Whatever the proof is, if it
is accepted for a number without a common factor with the product of the accumulated ones, then all
Bézout coefficients of the two, which there are, make a root of the base out of it. -/
theorem nonmember_proof_gives_root [DigitLimit] (hN : 2 ≤ N) (hbase : 0 < base ∧ base < N)
    (hunit : Int.gcd base N = 1) (hreps : ∀ e ∈ reps, 0 < e) (hbudget : 0 ≤ budget)
    (hcoprime : Int.gcd e reps.prod = 1) :
    ∃ acc, accumulate base reps N budget = .ok acc ∧
      ∀ w, verifyMembership acc e w N = .ok true →
        (∀ a b, a * reps.prod + b * e = 1 →
          ∃ y, Modular.multiPow [w, base] [a, b] N = .ok y ∧ Modular.pow y e N = .ok base) ∧
        ∃ y, (0 < y ∧ y < N) ∧ Modular.pow y e N = .ok base := by
  refine ⟨_, accumulate_ok hN hbase hreps hbudget, ?_⟩
  intro w haccepted
  obtain ⟨g, hg⟩ := (isUnit_cast_iff hN base).mpr hunit
  obtain ⟨v, hv, hpower⟩ := unit_of_accepted hN hg.symm hreps haccepted
  refine ⟨?_, ?_⟩
  · intro a b hab
    obtain ⟨y, hy, -, hroot⟩ := multiPow_root hN hbase hv hg.symm hpower hab
    exact ⟨y, hy, hroot⟩
  · obtain ⟨b, a, hab⟩ := Int.isCoprime_iff_gcd_eq_one.mpr hcoprime
    obtain ⟨y, -, hrange, hroot⟩ := multiPow_root hN hbase hv hg.symm hpower
      (show a * reps.prod + b * e = 1 by rw [add_comm, hab])
    exact ⟨y, hrange, hroot⟩

open Unlimited in
/-- Nine is accumulated over two modulo thirty-five, and somebody who knows the order of two gives
the proof twenty-two for five. -/
theorem nonmember_proof_gives_root_five :
    ((2 : ℤ) ≤ 35 ∧ ((0 : ℤ) < 2 ∧ (2 : ℤ) < 35) ∧ Int.gcd 2 35 = 1 ∧
      (∀ e ∈ ([3, 3] : List ℤ), 0 < e) ∧ Int.gcd 5 ([3, 3] : List ℤ).prod = 1) ∧
    accumulate 2 [3, 3] 35 0 = .ok 22 ∧ verifyMembership 22 5 22 35 = .ok true ∧
    ∃ y, Modular.multiPow [22, 2] [-1, 2] 35 = .ok y ∧ Modular.pow y 5 35 = .ok 2 := by
  obtain ⟨acc, hacc, hroot⟩ := @nonmember_proof_gives_root 2 35 5 0 [3, 3] _ (by decide) (by decide)
    (by decide) (by decide) (by decide) (by decide)
  have hvalue : accumulate 2 [3, 3] 35 0 = .ok 22 := toOption_eq_some.mp (by decide +kernel)
  have haccepted : verifyMembership 22 5 22 35 = .ok true := toOption_eq_some.mp (by decide +kernel)
  rw [hvalue] at hacc
  cases hacc
  exact ⟨by decide, hvalue, haccepted, (hroot 22 haccepted).1 (-1) 2 (by decide)⟩

end HiddenOrder
