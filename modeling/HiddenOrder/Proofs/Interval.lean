import HiddenOrder.Proofs.NonNegative
import HiddenOrder.Protocol.Interval

/-!
# Interval proofs are complete

The verifier of an interval derives two commitments from the one it is given.  Both are the
commitments that the two parts of the proof were made for, as integers and not only as residues, so
each part meets the very challenge that it was made with.  The laws of commitments, which are those
of powers among the units, hold of the integers as well.

* **`Interval.commitments_ok`** — the derived commitments.
* **`commitments_add_up`** — the laws of commitments, as integers.
* **`range_proofs_complete`** — what either prover returns is accepted.
-/

namespace HiddenOrder

namespace Interval

variable {o : Oracles} {cfg : Settings} {pp : GroupParameters} {x r a b : Int} {proof : Proof}
  {s s' : SearchState}

/-- **The derived commitments** are those to `x - a` and to `b - x`. -/
theorem commitments_ok [DigitLimit] (pp : GroupParameters) (x r a b : Int) :
    commitments pp (canonical (pp.commitment x r : Residue pp.N)) a b
      = .ok (canonical (pp.commitment (x - a) r : Residue pp.N),
          canonical (pp.commitment (b - x) (-r) : Residue pp.N)) := by
  have hN := pp.two_le_N
  have hlower : pp.commitment x r * pp.g ^ (-a) = pp.commitment (x - a) r := by
    rw [← pp.commitment_zero_right, ← pp.commitment_add, add_zero, sub_eq_add_neg]
  have hupper : pp.g ^ b * pp.commitment x r ^ (-1 : Int) = pp.commitment (b - x) (-r) := by
    rw [← pp.commitment_zero_right, ← pp.commitment_zpow, ← pp.commitment_add, zero_add,
      neg_one_mul, neg_one_mul, sub_eq_add_neg]
  rw [commitments, Modular.pow_of_unit hN pp.cast_G, ok_bind, Modular.mul_ok hN, ok_bind,
    Modular.pow_of_unit hN pp.cast_G, ok_bind, Modular.pow_of_unit hN (cast_canonical hN _),
    ok_bind, Modular.mul_ok hN, ok_bind, cast_canonical hN, cast_canonical hN, cast_canonical hN,
    cast_canonical hN, ← Units.val_mul, ← Units.val_mul, hlower, hupper, pure_eq_ok]

/-- **Interval proofs are complete.** -/
theorem verify_of_prove [DigitLimit] (h : prove o cfg pp x r a b s = .ok proof s') :
    verify o cfg pp (canonical (pp.commitment x r : Residue pp.N)) a b proof = .ok true := by
  rw [prove] at h
  by_cases hx : a ≤ x ∧ x ≤ b
  · rw [if_neg (not_not.mpr hx)] at h
    obtain ⟨lower, _, hlower, h⟩ := bind_run_eq_ok.mp h
    obtain ⟨upper, _, hupper, h⟩ := bind_run_eq_ok.mp h
    cases h
    have hlow := NonNegative.verify_of_prove hlower
    have hupp := NonNegative.verify_of_prove hupper
    rw [NonNegative.verify] at hlow hupp
    rw [verify, check, if_neg (by omega), commitments_ok]
    simp only [Proof.received, hlow, hupp, ok_bind, if_true]
  · rw [if_pos hx] at h
    cases h

end Interval

/-- **Commitments add up**, as the integers they are written down as.  A commitment is always made,
whatever the signs of the value and of the randomness, and it is a unit below the modulus.  The
product of two commitments is the commitment to the sums, the inverse of one is the commitment to the
negatives, and the two commitments that an interval needs are those to `x - a` and to `b - x`. -/
theorem commitments_add_up [DigitLimit] (pp : GroupParameters) :
    ∃ value : Int → Int → Int,
      (∀ x r, commit pp x r = .ok (value x r) ∧ (0 < value x r ∧ value x r < pp.N) ∧
        Int.gcd (value x r) pp.N = 1) ∧
      (∀ x r x' r', value x r * value x' r' % pp.N = value (x + x') (r + r')) ∧
      (∀ x r, value x r * value (-x) (-r) % pp.N = 1 ∧
        Modular.inverse (value x r) pp.N = .ok (value (-x) (-r))) ∧
      ∀ x r a b, Interval.commitments pp (value x r) a b
        = .ok (value (x - a) r, value (b - x) (-r)) := by
  have hN := pp.two_le_N
  refine ⟨fun x r => canonical (pp.commitment x r : Residue pp.N), ?_, ?_, ?_,
    Interval.commitments_ok pp⟩
  · intro x r
    have hunit := (pp.commitment x r).isUnit
    rw [← cast_canonical hN (pp.commitment x r : Residue pp.N)] at hunit
    exact ⟨commit_ok pp x r, ⟨canonical_pos hN (Units.isUnit _), canonical_lt hN _⟩,
      (isUnit_cast_iff hN _).mp hunit⟩
  · intro x r x' r'
    rw [canonical_mul hN, ← Units.val_mul, ← pp.commitment_add]
  · intro x r
    have hinverse := Modular.inverse_of_unit hN (cast_canonical hN (pp.commitment x r))
    rw [← pp.commitment_neg] at hinverse
    refine ⟨?_, hinverse⟩
    rw [canonical_mul hN, ← Units.val_mul, pp.commitment_neg, mul_inv_cancel, Units.val_one,
      canonical_one hN]

/-- **Range proofs are complete.**  What the prover of non-negativity returns is accepted for the
commitment to the value, and what the prover of an interval returns is accepted for the commitment
to the value and this interval, for all oracles, settings and caches. -/
theorem range_proofs_complete [DigitLimit] (o : Oracles) (cfg : Settings) (pp : GroupParameters)
    (x r : Int) (s : SearchState) :
    (∀ proof s', NonNegative.prove o cfg pp x r s = .ok proof s' →
      ∃ C, commit pp x r = .ok C ∧ NonNegative.verify o cfg pp C proof = .ok true) ∧
    (∀ a b proof s', Interval.prove o cfg pp x r a b s = .ok proof s' →
      ∃ C, commit pp x r = .ok C ∧ Interval.verify o cfg pp C a b proof = .ok true) := by
  refine ⟨?_, ?_⟩
  · intro proof s' h
    exact ⟨_, commit_ok pp x r, NonNegative.verify_of_prove h⟩
  · intro a b proof s' h
    exact ⟨_, commit_ok pp x r, Interval.verify_of_prove h⟩

/-- Settings with the least security parameter. -/
def leastSettings : Settings := { securityParam := 1 }

/-- Where a search starts when next to nothing is remembered. -/
def freshSearch : SearchState := ⟨0, .ofLimits 1 1⟩

open Unlimited in
/-- Both proofs for a commitment to five, the interval being that from two to nine. -/
theorem range_proofs_complete_smallGroup :
    (∃ proof s',
      NonNegative.prove constantOracles leastSettings smallGroup 5 (-3) freshSearch
        = .ok proof s' ∧
      ∃ C, commit smallGroup 5 (-3) = .ok C ∧
        NonNegative.verify constantOracles leastSettings smallGroup C proof = .ok true) ∧
    (∃ proof s',
      Interval.prove constantOracles leastSettings smallGroup 5 (-3) 2 9 freshSearch
        = .ok proof s' ∧
      ∃ C, commit smallGroup 5 (-3) = .ok C ∧
        Interval.verify constantOracles leastSettings smallGroup C 2 9 proof = .ok true) := by
  obtain ⟨hnonneg, hinterval⟩ :=
    range_proofs_complete constantOracles leastSettings smallGroup 5 (-3) freshSearch
  refine ⟨?_, ?_⟩
  · have hreturned : ((NonNegative.prove constantOracles leastSettings smallGroup 5 (-3)).run'
        freshSearch).isSome := by
      decide +kernel
    obtain ⟨proof, hproof⟩ := Option.isSome_iff_exists.mp hreturned
    obtain ⟨s', hproof⟩ := run'_eq_some.mp hproof
    exact ⟨proof, s', hproof, hnonneg proof s' hproof⟩
  · have hreturned : ((Interval.prove constantOracles leastSettings smallGroup 5 (-3) 2 9).run'
        freshSearch).isSome := by
      decide +kernel
    obtain ⟨proof, hproof⟩ := Option.isSome_iff_exists.mp hreturned
    obtain ⟨s', hproof⟩ := run'_eq_some.mp hproof
    exact ⟨proof, s', hproof, hinterval 2 9 proof s' hproof⟩

end HiddenOrder
