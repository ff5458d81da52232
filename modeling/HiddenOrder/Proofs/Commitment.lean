import HiddenOrder.Commitment
import HiddenOrder.Proofs.Residue

/-!
# Commitments, in the group of units

Both generators are units modulo `N`, so a commitment is a product of two integer powers in the
group of units, whatever the signs of the value and of the randomness.  It never fails, and it adds
up.

* `GroupParameters.g`, `GroupParameters.h` — the generators as units.
* `GroupParameters.commitment` — the commitment as a unit.
* **`commit_ok`** — a commitment is always made, and is this unit.
* **`GroupParameters.commitment_add`**, **`GroupParameters.commitment_zpow`**,
  `GroupParameters.commitment_neg` — what a product of commitments, a power and the inverse of one
  are commitments to.
-/

namespace HiddenOrder

namespace GroupParameters

lemma two_le_N (pp : GroupParameters) : 2 ≤ pp.N := by
  have := pp.three_le_N
  omega

/-- The generator that carries the committed value, as a unit. -/
noncomputable def g (pp : GroupParameters) : (Residue pp.N)ˣ :=
  ((isUnit_cast_iff pp.two_le_N pp.G).mpr pp.gcd_G).unit

/-- The generator that carries the randomness, as a unit. -/
noncomputable def h (pp : GroupParameters) : (Residue pp.N)ˣ :=
  ((isUnit_cast_iff pp.two_le_N pp.H).mpr pp.gcd_H).unit

lemma cast_G (pp : GroupParameters) : (pp.G : Residue pp.N) = pp.g := rfl

lemma cast_H (pp : GroupParameters) : (pp.H : Residue pp.N) = pp.h := rfl

/-- The commitment to `x` with randomness `r`, as a unit. -/
noncomputable def commitment (pp : GroupParameters) (x r : Int) : (Residue pp.N)ˣ :=
  pp.g ^ x * pp.h ^ r

variable (pp : GroupParameters)

/-- **The product of two commitments** is a commitment to the sum. -/
theorem commitment_add (x y r s : Int) :
    pp.commitment (x + y) (r + s) = pp.commitment x r * pp.commitment y s := by
  rw [commitment, commitment, commitment, zpow_add, zpow_add]
  exact mul_mul_mul_comm _ _ _ _

/-- **A power of a commitment** is a commitment to the multiple. -/
theorem commitment_zpow (e x r : Int) :
    pp.commitment (e * x) (e * r) = pp.commitment x r ^ e := by
  rw [commitment, commitment, mul_zpow, mul_comm e x, mul_comm e r, zpow_mul, zpow_mul]

/-- The inverse of a commitment is a commitment to the negatives. -/
lemma commitment_neg (x r : Int) : pp.commitment (-x) (-r) = (pp.commitment x r)⁻¹ := by
  rw [← neg_one_mul x, ← neg_one_mul r, pp.commitment_zpow, zpow_neg_one]

lemma commitment_zero_right (x : Int) : pp.commitment x 0 = pp.g ^ x := by
  rw [commitment, zpow_zero, mul_one]

lemma commitment_zero_left (r : Int) : pp.commitment 0 r = pp.h ^ r := by
  rw [commitment, zpow_zero, one_mul]

end GroupParameters

variable (pp : GroupParameters)

/-- **A commitment is always made**, and is the product of the two powers among the units. -/
theorem commit_ok [DigitLimit] (x r : Int) :
    commit pp x r = .ok (canonical (pp.commitment x r : Residue pp.N)) :=
  Modular.multiPow_pair pp.two_le_N pp.cast_G pp.cast_H x r

/-- Parameters small enough to follow, with the modulus `23 · 47`. -/
def smallGroup : GroupParameters where
  N := 1081
  G := 4
  H := 9
  three_le_N := by decide
  one_lt_G := by decide
  G_lt_N := by decide
  gcd_G := by decide
  one_lt_H := by decide
  H_lt_N := by decide
  gcd_H := by decide

end HiddenOrder
