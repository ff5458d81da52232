import HiddenOrder.Proofs.Draws
import HiddenOrder.Proofs.Verifier

/-!
# Zero-knowledge proofs are complete

The prover divides the masked exponent `k + c · x` by the prime challenge and hands over the powers
by the quotient together with the remainder; the verifier puts both together again.  Over a unit the
exponents may have either sign.  Over anything else a negative exponent is refused, so a proof that
did come out was made of natural exponents throughout, and the same equation holds.

* `ZKPoKE.committed_of_division`, `ZKPoKE.stated_of_division` — the two equations.
* **`ZKPoKE.verify_of_respond`** — an answer to the challenges is accepted.
* `ZKPoKE.answerChallenges_asks` — there are challenges for a statement that can be written.
* **`ZKPoKE.respond_outcome`** — over a unit there is an answer, unless there are no challenges.
* **`zkpoke_complete`** — a proof that is returned is accepted, and of a true statement over a unit
  one is returned.
-/

namespace HiddenOrder

namespace ZKPoKE

/-! ## The equations of an honest proof -/

/-- The first equation: a commitment to the quotients and one to the remainders make one to the
masked exponents. -/
lemma committed_of_division (pp : GroupParameters) (c l : ℕ) (x k rhoX rhoK : Int) :
    pp.commitment ((k + c * x) / l) ((rhoK + c * rhoX) / l) ^ l
        * pp.commitment ((k + c * x) % l) ((rhoK + c * rhoX) % l)
      = pp.commitment k rhoK * pp.commitment x rhoX ^ c := by
  rw [← zpow_natCast, ← zpow_natCast, ← pp.commitment_zpow, ← pp.commitment_zpow,
    ← pp.commitment_add, ← pp.commitment_add, Int.mul_ediv_add_emod, Int.mul_ediv_add_emod]

/-- The second equation over a unit, where every exponent is allowed. -/
lemma zpow_of_division {M : Type} [Group M] (v : M) (c l : ℕ) (x k : Int) :
    (v ^ ((k + c * x) / l)) ^ l * v ^ ((k + c * x) % l) = v ^ k * (v ^ x) ^ c := by
  rw [← zpow_natCast, ← zpow_natCast, ← zpow_mul, ← zpow_mul, ← zpow_add, ← zpow_add,
    mul_comm ((k + c * x) / l), mul_comm x, Int.mul_ediv_add_emod]

/-- The second equation for natural exponents, which asks nothing of the base. -/
lemma pow_of_division {M : Type} [CommMonoid M] (v : M) (c l x k : ℕ) :
    (v ^ ((k + c * x) / l)) ^ l * v ^ ((k + c * x) % l) = v ^ k * (v ^ x) ^ c := by
  rw [← pow_mul, ← pow_mul, ← pow_add, ← pow_add, mul_comm ((k + c * x) / l), mul_comm x,
    Nat.div_add_mod]

variable {N u w x k Au Qu : Int} {c l : ℕ}

/-- **The second equation**, for powers that were computed: of a unit, or of anything else. -/
theorem stated_of_division [DigitLimit] (hN : 2 ≤ N) (hl : l ≠ 0)
    (hx : Modular.pow u x N = .ok (w % N)) (hk : Modular.pow u k N = .ok Au)
    (hq : Modular.pow u ((k + c * x) / l) N = .ok Qu) :
    (Qu : Residue N) ^ l * (u : Residue N) ^ ((k + c * x) % l).toNat
      = (Au : Residue N) * (w : Residue N) ^ c := by
  have hrem : 0 ≤ (k + c * x) % (l : Int) := Int.emod_nonneg _ (by omega)
  by_cases hu : IsUnit (u : Residue N)
  · obtain ⟨v, hv⟩ := hu
    have hw := Modular.cast_of_pow_unit hN hv.symm hx
    rw [cast_emod hN] at hw
    rw [Modular.cast_of_pow_unit hN hv.symm hq, Modular.cast_of_pow_unit hN hv.symm hk, hw, ← hv,
      ← val_zpow_of_nonneg v hrem]
    exact_mod_cast congrArg Units.val (zpow_of_division v c l x k)
  · obtain ⟨hx₀, hw⟩ := Modular.cast_of_pow_not_isUnit hN hu hx
    obtain ⟨hk₀, hAu⟩ := Modular.cast_of_pow_not_isUnit hN hu hk
    obtain ⟨-, hQu⟩ := Modular.cast_of_pow_not_isUnit hN hu hq
    -- the sign of both exponents is known, so all of the division is one of natural numbers
    obtain ⟨x, rfl⟩ := Int.eq_ofNat_of_zero_le hx₀
    obtain ⟨k, rfl⟩ := Int.eq_ofNat_of_zero_le hk₀
    rw [cast_emod hN] at hw
    rw [hQu, hAu, hw]
    have hdiv : ((k : Int) + c * x) / l = ((k + c * x) / l : ℕ) := by push_cast; rfl
    have hmod : ((k : Int) + c * x) % l = ((k + c * x) % l : ℕ) := by push_cast; rfl
    rw [hdiv, hmod, Int.toNat_natCast, Int.toNat_natCast, Int.toNat_natCast, Int.toNat_natCast]
    exact pow_of_division (u : Residue N) c l x k

/-! ## Answers to the challenges -/

section Respond

variable {o : Oracles} {pp : GroupParameters} {u w x k rhoX rhoK Au : Int}

/-- The answer that belongs to given challenges, apart from the power of the base. -/
noncomputable def answer (pp : GroupParameters) (x k rhoX rhoK Au Qu : Int) (c l : ℕ) : Proof where
  z := canonical (pp.commitment x rhoX : Residue pp.N)
  Ag := canonical (pp.commitment k rhoK : Residue pp.N)
  Au := Au
  Qg := canonical (pp.commitment ((k + c * x) / l) ((rhoK + c * rhoX) / l) : Residue pp.N)
  Qu := Qu
  rx := (k + c * x) % l
  rrho := (rhoK + c * rhoX) % l

/-- The challenges of the answer, which the first message decides. -/
noncomputable def answerChallenges [DigitLimit] (o : Oracles) (pp : GroupParameters)
    (u w x k rhoX rhoK Au : Int) : Except Error (ℕ × ℕ) :=
  Challenge.zkpoke o pp.G pp.H pp.N u w (canonical (pp.commitment x rhoX : Residue pp.N))
    (canonical (pp.commitment k rhoK : Residue pp.N)) Au

/-- Once the powers of the base are known, the answer depends on the challenges only. -/
lemma respond_of_pow [DigitLimit] (hk : Modular.pow u k pp.N = .ok Au) :
    respond o pp u w x k rhoX rhoK
      = (answerChallenges o pp u w x k rhoX rhoK Au >>= fun (c, l) =>
          Modular.pow u ((k + c * x) / l) pp.N >>= fun Qu =>
            .ok (answer pp x k rhoX rhoK Au Qu c l)) := by
  rw [respond, firstMessage, commit_ok, ok_bind, commit_ok, ok_bind, hk, ok_bind, pure_eq_ok,
    ok_bind]
  dsimp only
  refine congrArg _ (funext ?_)
  rintro ⟨c, l⟩
  dsimp only
  rw [commit_ok, ok_bind]
  rfl

/-- **An answer to the challenges is accepted**, when the statement is true. -/
theorem verify_of_respond [DigitLimit] {proof : Proof} (hx : Modular.pow u x pp.N = .ok (w % pp.N))
    (h : respond o pp u w x k rhoX rhoK = .ok proof) : verify o pp u w proof = .ok true := by
  have hN := pp.two_le_N
  obtain ⟨Au, hAu⟩ : ∃ Au, Modular.pow u k pp.N = .ok Au := by
    rw [respond, firstMessage, commit_ok, ok_bind, commit_ok, ok_bind] at h
    obtain ⟨_, hfirst, -⟩ := bind_eq_ok.mp h
    obtain ⟨Au, hAu, -⟩ := bind_eq_ok.mp hfirst
    exact ⟨Au, hAu⟩
  rw [respond_of_pow hAu] at h
  obtain ⟨⟨c, l⟩, hchallenges, h⟩ := bind_eq_ok.mp h
  obtain ⟨Qu, hQu, h⟩ := bind_eq_ok.mp h
  cases h
  have hl := Challenge.two_le_zkpoke hchallenges
  have hrx₀ : 0 ≤ (k + c * x) % (l : Int) := Int.emod_nonneg _ (by omega)
  have hrrho₀ : 0 ≤ (rhoK + c * rhoX) % (l : Int) := Int.emod_nonneg _ (by omega)
  have hrange : InRange l (answer pp x k rhoX rhoK Au Qu c l) :=
    ⟨⟨hrx₀, Int.emod_lt_of_pos _ (by omega)⟩, hrrho₀, Int.emod_lt_of_pos _ (by omega)⟩
  have hequations : Equations pp u w c l (answer pp x k rhoX rhoK Au Qu c l) := by
    refine ⟨?_, stated_of_division hN (by omega) hx hAu hQu⟩
    have hunits := congrArg Units.val (committed_of_division pp c l x k rhoX rhoK)
    simp only [answer, cast_canonical hN, pp.cast_G, pp.cast_H, ← val_zpow_of_nonneg _ hrx₀,
      ← val_zpow_of_nonneg _ hrrho₀]
    rw [mul_assoc]
    exact_mod_cast hunits
  have hverdict := verify_decides (answer pp x k rhoX rhoK Au Qu c l) hchallenges
  exact hverdict.eq_true_iff.mpr ⟨hrange, hequations⟩

/-- **The challenges of an answer can be asked for when the statement can be written**: everything
else that they are about is a residue. -/
theorem answerChallenges_asks [DigitLimit] (o : Oracles) (pp : GroupParameters)
    (u w x k rhoX rhoK : Int) (a : Residue pp.N) :
    AsksAbout [pp.N, u, w] (answerChallenges o pp u w x k rhoX rhoK (canonical a)) := by
  have hG := pp.one_lt_G
  have hH := pp.one_lt_H
  have hresidue (hN : Writable pp.N) (b : Residue pp.N) : Writable (canonical b) :=
    hN.of_lt (Int.natCast_nonneg _) (canonical_lt pp.two_le_N b)
  refine (Challenge.zkpoke_asks o pp.G pp.H pp.N u w _ _ _).congr ?_
  simp only [List.forall_mem_cons, List.not_mem_nil, false_imp_iff, implies_true, and_true]
  constructor
  · rintro ⟨-, -, hN, hu, hw, -⟩
    exact ⟨hN, hu, hw⟩
  · rintro ⟨hN, hu, hw⟩
    exact ⟨hN.of_lt (by omega) pp.G_lt_N, hN.of_lt (by omega) pp.H_lt_N, hN, hu, hw, hresidue hN _,
      hresidue hN _, hresidue hN _⟩

/-- **Over a unit there is an answer**, unless the walk to one of the challenges runs out of
steps; all this for a statement that can be written. -/
theorem respond_outcome [DigitLimit] {v : (Residue pp.N)ˣ} (hu : (u : Residue pp.N) = v)
    (o : Oracles) (w x k rhoX rhoK : Int) (hwritable : ∀ n ∈ [pp.N, u, w], Writable n) :
    (∃ proof, respond o pp u w x k rhoX rhoK = .ok proof) ∨
      (respond o pp u w x k rhoX rhoK = .error .outOfSteps ∧
        ∃ z Ag Au : Int, Challenge.zkpoke o pp.G pp.H pp.N u w z Ag Au = .error .outOfSteps) := by
  have hN := pp.two_le_N
  rw [respond_of_pow (Modular.pow_of_unit hN hu k)]
  obtain ⟨⟨c, l⟩, hchallenges⟩ | hchallenges :=
    (answerChallenges_asks o pp u w x k rhoX rhoK _).ends hwritable
  · left
    rw [hchallenges, ok_bind]
    dsimp only
    rw [Modular.pow_of_unit hN hu, ok_bind]
    exact ⟨_, rfl⟩
  · right
    rw [hchallenges, error_bind]
    exact ⟨rfl, _, _, _, hchallenges⟩

lemma respond_of_not_writable [DigitLimit] {v : (Residue pp.N)ˣ} (hu : (u : Residue pp.N) = v)
    (o : Oracles) (w x k rhoX rhoK : Int) (hlong : ¬∀ n ∈ [pp.N, u, w], Writable n) :
    respond o pp u w x k rhoX rhoK = .error (.fault .longNumeral) := by
  rw [respond_of_pow (Modular.pow_of_unit pp.two_le_N hu k),
    (answerChallenges_asks o pp u w x k rhoX rhoK _).tooLong hlong, error_bind]

end Respond

/-! ## The prover -/

section Prove

variable {o : Oracles} {pp : GroupParameters} {u w x : Int} {securityParam : Option Int}
  {proof : Proof} {n n' : ℕ}

/-- What is returned is an answer for some masks, and the statement is true. -/
lemma prove_eq_ok [DigitLimit] (h : prove o pp u w x securityParam n = .ok proof n') :
    Modular.pow u x pp.N = .ok (w % pp.N) ∧
      ∃ k rhoX rhoK, respond o pp u w x k rhoX rhoK = .ok proof := by
  rw [prove] at h
  obtain ⟨power, n₀, hpower, h⟩ := bind_run_eq_ok.mp h
  obtain ⟨hvalue, rfl⟩ := Draw.ofExcept_run_eq_ok.mp hpower
  by_cases hstatement : power = w % pp.N
  · rw [if_neg (not_not.mpr hstatement)] at h
    obtain ⟨_, _, -, h⟩ := bind_run_eq_ok.mp h
    obtain ⟨k, _, -, h⟩ := bind_run_eq_ok.mp h
    obtain ⟨rhoX, _, -, h⟩ := bind_run_eq_ok.mp h
    obtain ⟨rhoK, _, -, h⟩ := bind_run_eq_ok.mp h
    obtain ⟨hrespond, -⟩ := Draw.ofExcept_run_eq_ok.mp h
    exact ⟨hstatement ▸ hvalue, k, rhoX, rhoK, hrespond⟩
  · rw [if_pos hstatement] at h
    cases h

/-- The bound of the masks exists for a positive security parameter, and is not negative. -/
lemma blindingBound_ok (pp : GroupParameters) (h : ∀ lam, securityParam = some lam → 1 ≤ lam) :
    ∃ B, 0 ≤ B ∧ blindingBound pp securityParam = .ok B := by
  have hN := pp.two_le_N
  obtain ⟨lam, hlam, hbound⟩ : ∃ lam : Int, 1 ≤ lam ∧
      blindingBound pp securityParam = shiftLeft pp.N (2 * lam - 2) := by
    cases securityParam with
    | none => exact ⟨128, by decide, rfl⟩
    | some lam =>
        have hlam := h lam rfl
        refine ⟨lam, hlam, ?_⟩
        simp only [blindingBound, Option.getD_some]
        rw [if_neg (by omega)]
  refine ⟨pp.N * (Nat.pow 2 (2 * lam - 2).toNat : ℕ), ?_, ?_⟩
  · exact mul_nonneg (by omega) (Int.natCast_nonneg _)
  · rw [hbound, shiftLeft, if_neg (by omega)]

/-- With an answer to each draw, the prover of a true statement makes three draws and answers the
challenges. -/
lemma prove_run [DigitLimit] (hx : Modular.pow u x pp.N = .ok (w % pp.N))
    (hsource : o.source.Answers) (hparam : ∀ lam, securityParam = some lam → 1 ≤ lam) (n : ℕ) :
    ∃ k rhoX rhoK, prove o pp u w x securityParam n
      = Draw.ofExcept (respond o pp u w x k rhoX rhoK) (n + 3) := by
  obtain ⟨B, hB, hbound⟩ := blindingBound_ok pp hparam
  obtain ⟨k, -, hk⟩ := Entropy.range_run (i := n) hsource (show -B ≤ B by omega)
  obtain ⟨rhoX, -, hrhoX⟩ := Entropy.range_run (i := n + 1) hsource (show -B ≤ B by omega)
  obtain ⟨rhoK, -, hrhoK⟩ := Entropy.range_run (i := n + 2) hsource (show -B ≤ B by omega)
  refine ⟨k, rhoX, rhoK, ?_⟩
  rw [prove, bind_run_of_ok (Draw.ofExcept_run_eq_ok.mpr ⟨hx, rfl⟩), if_neg (not_not.mpr rfl),
    bind_run_of_ok (Draw.ofExcept_run_eq_ok.mpr ⟨hbound, rfl⟩), bind_run_of_ok hk,
    bind_run_of_ok hrhoX, bind_run_of_ok hrhoK]

end Prove

end ZKPoKE

/-- **Zero-knowledge proofs are complete.**  A proof that the prover returns is accepted, for every
base and every sign of the exponent.  When the base is a unit `v`, the statement `v ^ x = w` is true
and the source answers, the prover does return one: the only thing that can keep it from that is a
challenge that is not found within the given steps.  Under a limit on numerals a statement beyond it
cannot be put to the challenges, and fails with the fault for that. -/
theorem zkpoke_complete [DigitLimit] (o : Oracles) (pp : GroupParameters) (u w x : Int)
    (securityParam : Option Int) (n : ℕ) :
    (∀ proof n', ZKPoKE.prove o pp u w x securityParam n = .ok proof n' →
      ZKPoKE.verify o pp u w proof = .ok true) ∧
    (∀ v : (Residue pp.N)ˣ, (u : Residue pp.N) = v →
      (w : Residue pp.N) = (v ^ x : (Residue pp.N)ˣ) → o.source.Answers →
      (∀ lam, securityParam = some lam → 1 ≤ lam) →
        ((∀ m ∈ [pp.N, u, w], Writable m) →
          (∃ proof, ZKPoKE.prove o pp u w x securityParam n = .ok proof (n + 3)) ∨
          (ZKPoKE.prove o pp u w x securityParam n = .error .outOfSteps (n + 3) ∧
            ∃ z Ag Au : Int,
              Challenge.zkpoke o pp.G pp.H pp.N u w z Ag Au = .error .outOfSteps)) ∧
        ((¬∀ m ∈ [pp.N, u, w], Writable m) →
          ZKPoKE.prove o pp u w x securityParam n = .error (.fault .longNumeral) (n + 3))) := by
  refine ⟨?_, ?_⟩
  · intro proof n' h
    obtain ⟨hx, k, rhoX, rhoK, hrespond⟩ := ZKPoKE.prove_eq_ok h
    exact ZKPoKE.verify_of_respond hx hrespond
  · intro v hu hw hsource hparam
    have hN := pp.two_le_N
    have hx : Modular.pow u x pp.N = .ok (w % pp.N) := by
      rw [Modular.pow_of_unit hN hu, ← hw, canonical_cast hN]
    obtain ⟨k, rhoX, rhoK, hrun⟩ := ZKPoKE.prove_run hx hsource hparam n
    rw [hrun]
    refine ⟨fun hwritable => ?_, fun hlong => ?_⟩
    · rcases ZKPoKE.respond_outcome hu o w x k rhoX rhoK hwritable with
        ⟨proof, hproof⟩ | ⟨herror, hsteps⟩
      · exact Or.inl ⟨proof, Draw.ofExcept_run_eq_ok.mpr ⟨hproof, rfl⟩⟩
      · exact Or.inr ⟨Draw.ofExcept_run_of_error herror, hsteps⟩
    · exact Draw.ofExcept_run_of_error
        (ZKPoKE.respond_of_not_writable hu o w x k rhoX rhoK hlong)

open Unlimited in
/-- A unit to a negative power: a proof is returned, as it has to be, and it is accepted. -/
theorem zkpoke_complete_smallGroup :
    ∃ proof, ZKPoKE.prove parityOracles smallGroup 4 473 (-2) (some 1) 0 = .ok proof 3 ∧
      ZKPoKE.verify parityOracles smallGroup 4 473 proof = .ok true := by
  have hN := smallGroup.two_le_N
  obtain ⟨haccepted, hreturned⟩ :=
    zkpoke_complete parityOracles smallGroup 4 473 (-2) (some 1) 0
  have hrun : (ZKPoKE.prove parityOracles smallGroup 4 473 (-2) (some 1)).run' 0
      = some ⟨1061, 647, 427, 714, 397, 2, 0⟩ := by
    decide +kernel
  obtain ⟨n', hrun⟩ := run'_eq_some.mp hrun
  have hw := Modular.cast_of_pow_unit hN smallGroup.cast_G (ZKPoKE.prove_eq_ok hrun).1
  rw [cast_emod hN] at hw
  have hsource : parityOracles.source.Answers := fun _ _ _ => Option.some_ne_none _
  have hparam : ∀ lam : Int, some (1 : Int) = some lam → 1 ≤ lam := by
    rintro lam ⟨⟩
    exact le_refl _
  rcases (hreturned smallGroup.g smallGroup.cast_G hw hsource hparam).1
    (fun m _ => writable_off m) with
    ⟨proof, hproof⟩ | ⟨hsteps, -⟩
  · exact ⟨proof, hproof, haccepted proof 3 hproof⟩
  · rw [hrun] at hsteps
    cases hsteps

end HiddenOrder
