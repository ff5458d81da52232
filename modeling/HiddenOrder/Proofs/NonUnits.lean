import HiddenOrder.Proofs.Verifier

/-!
# Proofs that carry non-units

A prover only ever hands over units, but nobody asks a proof whether it does: the verifiers of the
exponentiation protocols take no inverse, so an element with a factor of `N`, or zero, meets no
check but the equations.  An equation does notice a non-unit that stands on one side only.  It does
not notice two that face each other, and in the zero-knowledge proof the prover chooses both sides.

* `ZKPoKE.Balanced` — in each equation, non-units on both sides or on none.
* **`PoE.unit_of_equation`**, **`PoKEStar.unit_of_equation`**, **`ZKPoKE.balanced_of_equations`** —
  what the equations ask of units.
* **`ZKPoKE.verify_zero`** — the proof in which everything is zero is accepted for every statement.
* **`nonUnits_rejected_iff`** — when exactly a proof that carries a non-unit is rejected.
-/

namespace HiddenOrder

/-! ## Units in an equation -/

section Units

variable {R : Type} [CommRing R] {q b : R} {l e : ℕ}

/-- Powers of a unit do not matter to whether a product is a unit. -/
lemma isUnit_pow_mul_iff (hl : l ≠ 0) (hb : IsUnit b) : IsUnit (q ^ l * b ^ e) ↔ IsUnit q := by
  rw [IsUnit.mul_iff, isUnit_pow_iff hl]
  exact and_iff_left (hb.pow e)

/-- A power is one of a unit, unless the exponent is zero. -/
lemma isUnit_mul_pow_iff : IsUnit (q * b ^ e) ↔ IsUnit q ∧ (e = 0 ∨ IsUnit b) := by
  rcases eq_or_ne e 0 with he | he
  · simp [he]
  · simp [IsUnit.mul_iff, isUnit_pow_iff he, he]

end Units

/-! ## Proofs of exponentiation -/

namespace PoE

variable {o : Oracles} {base mod C x Q : Int} {l : ℕ}

/-- **Over a unit, the equation makes a unit of `Q` exactly when `C` is one.** -/
theorem unit_of_equation (hmod : 2 ≤ mod) (hl : 2 ≤ l) (hbase : Int.gcd base mod = 1)
    (h : Equation base mod C x l Q) : Int.gcd Q mod = 1 ↔ Int.gcd C mod = 1 := by
  rw [← isUnit_cast_iff hmod] at hbase
  rw [← isUnit_cast_iff hmod, ← isUnit_cast_iff hmod, ← h]
  exact (isUnit_pow_mul_iff (by omega) hbase).symm

end PoE

/-! ## Proofs of knowledge of an exponent -/

namespace PoKEStar

variable {o : Oracles} {G N C Q r : Int} {l : ℕ}

/-- **Over a unit, the equation makes a unit of `Q` exactly when `C` is one.** -/
theorem unit_of_equation (hN : 2 ≤ N) (hl : 2 ≤ l) (hG : Int.gcd G N = 1)
    (h : Equation G N C l Q r) : Int.gcd Q N = 1 ↔ Int.gcd C N = 1 := by
  rw [← isUnit_cast_iff hN] at hG
  rw [← isUnit_cast_iff hN, ← isUnit_cast_iff hN, ← h]
  exact (isUnit_pow_mul_iff (by omega) hG).symm

end PoKEStar

/-! ## Zero-knowledge proofs -/

namespace ZKPoKE

variable {o : Oracles} {pp : GroupParameters} {u w : Int} {proof : Proof} {c l : ℕ}

/-- Some group element of the proof is no unit. -/
def CarriesNonUnit (pp : GroupParameters) (proof : Proof) : Prop :=
  ∃ a ∈ [proof.z, proof.Ag, proof.Au, proof.Qg, proof.Qu], Int.gcd a pp.N ≠ 1

/-- In each of the equations the left side is a unit exactly when the right side is. -/
def Balanced (pp : GroupParameters) (w : Int) (c : ℕ) (proof : Proof) : Prop :=
  (Int.gcd proof.Qg pp.N = 1 ↔
      Int.gcd proof.Ag pp.N = 1 ∧ (c = 0 ∨ Int.gcd proof.z pp.N = 1)) ∧
    (Int.gcd proof.Qu pp.N = 1 ↔ Int.gcd proof.Au pp.N = 1 ∧ (c = 0 ∨ Int.gcd w pp.N = 1))

/-- **Over a unit, the equations hold only between sides that are both units or both not.** -/
theorem balanced_of_equations (hl : 2 ≤ l) (hu : Int.gcd u pp.N = 1)
    (h : Equations pp u w c l proof) : Balanced pp w c proof := by
  have hN := pp.two_le_N
  have hl₀ : l ≠ 0 := by omega
  have hG := (isUnit_cast_iff hN pp.G).mpr pp.gcd_G
  have hH := (isUnit_cast_iff hN pp.H).mpr pp.gcd_H
  simp only [Balanced, ← isUnit_cast_iff hN] at hu ⊢
  refine ⟨?_, ?_⟩
  · rw [← isUnit_mul_pow_iff, ← h.committed, IsUnit.mul_iff, isUnit_pow_mul_iff hl₀ hG]
    exact (and_iff_left (hH.pow _)).symm
  · rw [← isUnit_mul_pow_iff, ← h.stated, isUnit_pow_mul_iff hl₀ hu]

/-- The proof in which everything is zero. -/
def zero : Proof := ⟨0, 0, 0, 0, 0, 0, 0⟩

lemma carriesNonUnit_zero (pp : GroupParameters) : CarriesNonUnit pp zero := by
  refine ⟨0, by simp [zero], ?_⟩
  have := pp.three_le_N
  rw [Int.gcd_zero_left]
  omega

/-- Both equations of the zero proof read `0 = 0`. -/
lemma equations_zero (hl : 2 ≤ l) : Equations pp u w c l zero := by
  have hl₀ : l ≠ 0 := by omega
  exact ⟨by simp [zero, hl₀], by simp [zero, hl₀]⟩

/-- **The zero proof is accepted for every statement**, under all parameters and whatever the
challenges are. -/
theorem verify_zero [DigitLimit]
    (hl : Challenge.zkpoke o pp.G pp.H pp.N u w (0 : Int) (0 : Int) (0 : Int) = .ok (c, l)) :
    verify o pp u w zero = .ok true := by
  have htwo := Challenge.two_le_zkpoke hl
  have hrange : InRange l zero := by
    simp only [InRange, zero]
    omega
  exact (verify_decides zero hl).eq_true_iff.mpr ⟨hrange, equations_zero htwo⟩

end ZKPoKE

/-! ## When non-units are rejected -/

/-- **When exactly a proof that carries a non-unit is rejected**, the base of its statement being a
unit.  A proof of exponentiation and one of knowledge are rejected whenever the element `C` of the
statement is a unit, and otherwise as their equation decides.  A zero-knowledge proof is rejected
when an equation is left unbalanced, and otherwise as the equations decide; the zero proof passes
them for every statement. -/
theorem nonUnits_rejected_iff [DigitLimit] (o : Oracles) :
    (∀ {base mod C x Q : Int} {l : ℕ}, Int.gcd base mod = 1 → Int.gcd Q mod ≠ 1 →
      Challenge.poe o base mod C x = .ok l →
        (Int.gcd C mod = 1 → PoE.verify o base mod C x ⟨Q⟩ = .ok false) ∧
        (PoE.verify o base mod C x ⟨Q⟩ = .ok false ↔
          ¬((0 ≤ x ∧ 2 ≤ mod) ∧ PoE.Equation base mod C x l Q))) ∧
    (∀ {G N C Q r : Int} {l : ℕ}, Int.gcd G N = 1 → Int.gcd Q N ≠ 1 →
      Challenge.pokeStar o G N C = .ok l →
        (Int.gcd C N = 1 → PoKEStar.verify o G N C ⟨Q, r⟩ = .ok false) ∧
        (PoKEStar.verify o G N C ⟨Q, r⟩ = .ok false ↔
          ¬((2 ≤ N ∧ 0 ≤ r ∧ r < l) ∧ PoKEStar.Equation G N C l Q r))) ∧
    (∀ {pp : GroupParameters} {u w : Int} {proof : ZKPoKE.Proof} {c l : ℕ},
      Int.gcd u pp.N = 1 → ZKPoKE.CarriesNonUnit pp proof →
      Challenge.zkpoke o pp.G pp.H pp.N u w proof.z proof.Ag proof.Au = .ok (c, l) →
        (¬ZKPoKE.Balanced pp w c proof → ZKPoKE.verify o pp u w proof = .ok false) ∧
        (ZKPoKE.verify o pp u w proof = .ok false ↔
          ¬(ZKPoKE.InRange l proof ∧ ZKPoKE.Equations pp u w c l proof))) ∧
    (∀ {pp : GroupParameters} {u w : Int} {c l : ℕ},
      Challenge.zkpoke o pp.G pp.H pp.N u w (0 : Int) (0 : Int) (0 : Int) = .ok (c, l) →
        ZKPoKE.CarriesNonUnit pp ZKPoKE.zero ∧
        ZKPoKE.verify o pp u w ZKPoKE.zero = .ok true) := by
  refine ⟨?_, ?_, ?_, ?_⟩
  · intro base mod C x Q l hbase hQ hl
    have hverdict := (PoE.verify_decides Q hl).eq_false_iff
    refine ⟨fun hC => hverdict.mpr ?_, hverdict⟩
    rintro ⟨⟨-, hmod⟩, heq⟩
    exact hQ ((PoE.unit_of_equation hmod (Challenge.two_le_poe hl) hbase heq).mpr hC)
  · intro G N C Q r l hG hQ hl
    have hverdict := (PoKEStar.verify_decides Q r hl).eq_false_iff
    refine ⟨fun hC => hverdict.mpr ?_, hverdict⟩
    rintro ⟨⟨hN, -⟩, heq⟩
    exact hQ ((PoKEStar.unit_of_equation hN (Challenge.two_le_pokeStar hl) hG heq).mpr hC)
  · intro pp u w proof c l hu _ hl
    have hverdict := (ZKPoKE.verify_decides proof hl).eq_false_iff
    refine ⟨fun hbalanced => hverdict.mpr ?_, hverdict⟩
    rintro ⟨-, heq⟩
    exact hbalanced (ZKPoKE.balanced_of_equations (Challenge.two_le_zkpoke hl) hu heq)
  · intro pp u w c l hl
    exact ⟨ZKPoKE.carriesNonUnit_zero pp, ZKPoKE.verify_zero hl⟩

open Unlimited in
/-- Each kind of proof, with a non-unit on one side of an equation only, and the zero proof. -/
theorem nonUnits_rejected_iff_smallGroup :
    PoE.verify parityOracles 4 1081 2 6 ⟨23⟩ = .ok false ∧
      PoKEStar.verify parityOracles 4 1081 2 ⟨23, 1⟩ = .ok false ∧
      ZKPoKE.verify parityOracles smallGroup 9 737 ⟨1, 1, 1, 23, 1, 0, 0⟩ = .ok false ∧
      ZKPoKE.verify parityOracles smallGroup 9 737 ZKPoKE.zero = .ok true := by
  obtain ⟨hpoe, hpoke, hzkpoke, hzero⟩ := nonUnits_rejected_iff parityOracles
  have hl : Challenge.poe parityOracles 4 1081 2 6 = .ok 5 := rfl
  have hl' : Challenge.pokeStar parityOracles 4 1081 2 = .ok 5 := rfl
  have hl₃ : Challenge.zkpoke parityOracles smallGroup.G smallGroup.H smallGroup.N 9 737
      (1 : Int) (1 : Int) (1 : Int) = .ok (3, 5) := rfl
  have hl₄ : Challenge.zkpoke parityOracles smallGroup.G smallGroup.H smallGroup.N 9 737
      (0 : Int) (0 : Int) (0 : Int) = .ok (3, 5) := rfl
  have hbalanced : ¬ZKPoKE.Balanced smallGroup 737 3 ⟨1, 1, 1, 23, 1, 0, 0⟩ := by
    rintro ⟨hcommitted, -⟩
    exact absurd (hcommitted.mpr (by decide)) (by decide)
  have hcarries : ZKPoKE.CarriesNonUnit smallGroup ⟨1, 1, 1, 23, 1, 0, 0⟩ :=
    ⟨23, by simp, by decide⟩
  exact ⟨(hpoe (by decide) (by decide) hl).1 (by decide),
    (hpoke (by decide) (by decide) hl').1 (by decide),
    (@hzkpoke smallGroup 9 737 ⟨1, 1, 1, 23, 1, 0, 0⟩ 3 5 (by decide) hcarries hl₃).1 hbalanced,
    (hzero hl₄).2⟩

open Unlimited in
/-- **A forgery that is accepted**: nothing in it is a unit, and the base of the statement is
one. -/
theorem zero_proof_accepted :
    Int.gcd 9 smallGroup.N = 1 ∧ Int.gcd 0 smallGroup.N ≠ 1 ∧
      ZKPoKE.verify parityOracles smallGroup 9 737 ⟨0, 0, 0, 0, 0, 0, 0⟩ = .ok true := by
  have hl : Challenge.zkpoke parityOracles smallGroup.G smallGroup.H smallGroup.N 9 737
      (0 : Int) (0 : Int) (0 : Int) = .ok (3, 5) := rfl
  exact ⟨by decide, by decide, ZKPoKE.verify_zero hl⟩

end HiddenOrder
