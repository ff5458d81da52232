import HiddenOrder.Proofs.Challenge
import HiddenOrder.Proofs.Commitment
import HiddenOrder.Protocol.PoE
import HiddenOrder.Protocol.PoKEStar
import HiddenOrder.Protocol.ZKPoKE

/-!
# What the verifiers of the exponentiation protocols decide

Once its challenges are known, each of the three verifiers decides equations between residues, and
nothing else: every exponent that it uses is a natural number, so no inverse is ever taken and no
element that a proof carries is refused for being no unit.

* `PoE.Equation`, `PoKEStar.Equation`, `ZKPoKE.Equations` — the equations, among residues.
* **`PoE.verify_decides`**, **`PoKEStar.verify_decides`**, **`ZKPoKE.verify_decides`** — the verdict
  is whether they hold.
-/

namespace HiddenOrder

/-! ## Verdicts -/

/-- A verdict that was reached stands. -/
@[simp]
lemma refuted_ok (verdict : Bool) : refuted (.ok verdict) = .ok verdict := rfl

/-- Two residues are compared as canonical integers. -/
lemma canonical_eq_emod {N : Int} (hN : 2 ≤ N) (a : Residue N) (b : Int) :
    decide (canonical a = b % N) = true ↔ a = (b : Residue N) := by
  rw [decide_eq_true_eq, ← canonical_cast hN, canonical_inj hN]

/-! ## Proofs of exponentiation -/

variable [DigitLimit]

namespace PoE

/-- The equation of a proof of exponentiation: `Q ^ l · base ^ (x mod l) = C`. -/
def Equation (base mod C x : Int) (l : Nat) (Q : Int) : Prop :=
  (Q : Residue mod) ^ l * (base : Residue mod) ^ (x % l).toNat = (C : Residue mod)

variable {o : Oracles} {base mod C x : Int} {l : Nat}

/-- **The verdict on a proof of exponentiation** is whether the statement is in range and the
equation holds. -/
theorem verify_decides (Q : Int) (hl : Challenge.poe o base mod C x = .ok l) :
    Decides (verify o base mod C x ⟨Q⟩) ((0 ≤ x ∧ 2 ≤ mod) ∧ Equation base mod C x l Q) := by
  by_cases hshape : 0 ≤ x ∧ 2 ≤ mod
  · obtain ⟨hx, hmod⟩ := hshape
    have hrem : 0 ≤ x % (l : Int) :=
      Int.emod_nonneg _ (by have := Challenge.two_le_poe hl; omega)
    refine ⟨_, ?_, (canonical_eq_emod hmod _ C).trans (and_iff_right ⟨hx, hmod⟩).symm⟩
    rw [verify, check, if_neg (by omega), hl, ok_bind, Proof.received, presentInt_some_int,
      ok_bind, Modular.pow_of_nonneg hmod Q (Int.natCast_nonneg l), ok_bind,
      Modular.pow_of_nonneg hmod base hrem, ok_bind, Modular.mul_ok hmod, ok_bind,
      cast_canonical hmod, cast_canonical hmod, Int.toNat_natCast]
    rfl
  · refine ⟨false, ?_, by simp [hshape]⟩
    rw [verify, check, if_pos (by omega), pure_eq_ok]

end PoE

/-! ## Proofs of knowledge of an exponent -/

namespace PoKEStar

/-- The equation of a proof of knowledge: `Q ^ l · G ^ r = C`. -/
def Equation (G N C : Int) (l : Nat) (Q r : Int) : Prop :=
  (Q : Residue N) ^ l * (G : Residue N) ^ r.toNat = (C : Residue N)

variable {o : Oracles} {G N C : Int} {l : Nat}

/-- **The verdict on a proof of knowledge** is whether its remainder is in range and its equation
holds. -/
theorem verify_decides (Q r : Int) (hl : Challenge.pokeStar o G N C = .ok l) :
    Decides (verify o G N C ⟨Q, r⟩) ((2 ≤ N ∧ 0 ≤ r ∧ r < l) ∧ Equation G N C l Q r) := by
  by_cases hN : 2 ≤ N
  · by_cases hr : 0 ≤ r ∧ r < l
    · refine ⟨_, ?_, (canonical_eq_emod hN _ C).trans (and_iff_right ⟨hN, hr⟩).symm⟩
      rw [verify, check, if_neg (by omega), hl, ok_bind, Proof.received, presentInt_some_int,
        ok_bind, if_neg (not_not.mpr hr), equation, presentInt_some_int, ok_bind,
        Modular.pow_of_nonneg hN Q (Int.natCast_nonneg l), ok_bind,
        Modular.pow_of_nonneg hN G hr.1, ok_bind, Modular.mul_ok hN, ok_bind,
        cast_canonical hN, cast_canonical hN, Int.toNat_natCast]
      rfl
    · refine ⟨false, ?_, by simp [hr]⟩
      rw [verify, check, if_neg (by omega), hl, ok_bind, Proof.received, presentInt_some_int,
        ok_bind, if_pos hr, pure_eq_ok]
  · refine ⟨false, ?_, by simp [hN]⟩
    rw [verify, check, if_pos (by omega), pure_eq_ok]

end PoKEStar

/-! ## Zero-knowledge proofs -/

namespace ZKPoKE

/-- The two equations of the zero-knowledge proof, for the challenges `c` and `l`. -/
structure Equations (pp : GroupParameters) (u w : Int) (c l : Nat) (proof : Proof) : Prop where
  /-- `Qg ^ l · G ^ rx · H ^ rrho = Ag · z ^ c` -/
  committed : (proof.Qg : Residue pp.N) ^ l * (pp.G : Residue pp.N) ^ proof.rx.toNat
      * (pp.H : Residue pp.N) ^ proof.rrho.toNat
    = (proof.Ag : Residue pp.N) * (proof.z : Residue pp.N) ^ c
  /-- `Qu ^ l · u ^ rx = Au · w ^ c` -/
  stated : (proof.Qu : Residue pp.N) ^ l * (u : Residue pp.N) ^ proof.rx.toNat
    = (proof.Au : Residue pp.N) * (w : Residue pp.N) ^ c

/-- Both remainders are remainders modulo the prime challenge. -/
def InRange (l : Nat) (proof : Proof) : Prop :=
  (0 ≤ proof.rx ∧ proof.rx < l) ∧ 0 ≤ proof.rrho ∧ proof.rrho < l

variable {o : Oracles} {pp : GroupParameters} {u w : Int} {proof : Proof} {c l : Nat}

lemma multiPow_committed (h : InRange l proof) :
    Modular.multiPow [proof.Qg, pp.G, pp.H] [(l : Int), proof.rx, proof.rrho] pp.N
      = .ok (canonical ((proof.Qg : Residue pp.N) ^ l * (pp.G : Residue pp.N) ^ proof.rx.toNat
          * (pp.H : Residue pp.N) ^ proof.rrho.toNat)) := by
  have hN := pp.two_le_N
  have hpowers : List.Forall₂
      (fun pair v => Modular.pow pair.1 pair.2 pp.N = .ok (canonical (v : Residue pp.N)))
      ([proof.Qg, pp.G, pp.H].zip [(l : Int), proof.rx, proof.rrho])
      [(proof.Qg : Residue pp.N) ^ (l : Int).toNat, (pp.G : Residue pp.N) ^ proof.rx.toNat,
        (pp.H : Residue pp.N) ^ proof.rrho.toNat] :=
    .cons (Modular.pow_of_nonneg hN proof.Qg (Int.natCast_nonneg l))
      (.cons (Modular.pow_of_nonneg hN pp.G h.1.1)
        (.cons (Modular.pow_of_nonneg hN pp.H h.2.1) .nil))
  have hproduct := Modular.multiPow_ok hN (by rfl) hpowers
  rwa [List.prod_cons, List.prod_cons, List.prod_singleton, ← mul_assoc,
    Int.toNat_natCast] at hproduct

/-- In range, nothing that the equations are made of is refused. -/
lemma equations_decides (pp : GroupParameters) (u w : Int) (c : Nat) (h : InRange l proof) :
    Decides (equations pp u w c l proof.rx proof.rrho proof.received)
      (Equations pp u w c l proof) := by
  have hN := pp.two_le_N
  have hz := Modular.pow_of_nonneg hN proof.z (Int.natCast_nonneg c)
  have hQu := Modular.pow_of_nonneg hN proof.Qu (Int.natCast_nonneg l)
  have hu := Modular.pow_of_nonneg hN u h.1.1
  have hw := Modular.pow_of_nonneg hN w (Int.natCast_nonneg c)
  refine ⟨decide (canonical ((proof.Qg : Residue pp.N) ^ l * (pp.G : Residue pp.N) ^ proof.rx.toNat
        * (pp.H : Residue pp.N) ^ proof.rrho.toNat)
      = canonical ((proof.Ag : Residue pp.N) * (proof.z : Residue pp.N) ^ c))
    && decide (canonical ((proof.Qu : Residue pp.N) ^ l * (u : Residue pp.N) ^ proof.rx.toNat)
      = canonical ((proof.Au : Residue pp.N) * (w : Residue pp.N) ^ c)), ?_, ?_⟩
  · simp only [equations, Proof.received, presentInt_some_int, ok_bind, multiPow_committed h, hz,
      hQu, hu, hw, Modular.mul_ok hN, cast_canonical hN, Int.toNat_natCast]
    rw [pure_eq_ok]
  · rw [Bool.and_eq_true, decide_eq_true_eq, decide_eq_true_eq, canonical_inj hN,
      canonical_inj hN]
    exact ⟨fun heq => ⟨heq.1, heq.2⟩, fun heq => ⟨heq.committed, heq.stated⟩⟩

/-- **The verdict on a zero-knowledge proof** is whether its remainders are in range and both
equations hold. -/
theorem verify_decides (proof : Proof)
    (hl : Challenge.zkpoke o pp.G pp.H pp.N u w proof.z proof.Ag proof.Au = .ok (c, l)) :
    Decides (verify o pp u w proof) (InRange l proof ∧ Equations pp u w c l proof) := by
  have hchallenges : challenges o pp u w proof.received = .ok (c, l) := hl
  have hrx : presentInt proof.received.rx = .ok proof.rx := rfl
  have hrrho : presentInt proof.received.rrho = .ok proof.rrho := rfl
  rw [verify, check, hchallenges, ok_bind]
  dsimp only
  rw [hrx, ok_bind]
  by_cases hx : 0 ≤ proof.rx ∧ proof.rx < l
  · rw [if_neg (not_not.mpr hx), hrrho, ok_bind]
    by_cases hrho : 0 ≤ proof.rrho ∧ proof.rrho < l
    · obtain ⟨verdict, hverdict, hiff⟩ :=
        equations_decides pp u w c (show InRange l proof from ⟨hx, hrho⟩)
      refine ⟨verdict, ?_, hiff.trans (and_iff_right ⟨hx, hrho⟩).symm⟩
      rw [if_neg (not_not.mpr hrho), hverdict, refuted_ok]
    · refine ⟨false, ?_, by simp [InRange, hrho]⟩
      rw [if_pos hrho, pure_eq_ok]
  · refine ⟨false, ?_, by simp [InRange, hx]⟩
    rw [if_pos hx, pure_eq_ok]

end ZKPoKE

end HiddenOrder
