import HiddenOrder.Accumulator.Batch
import HiddenOrder.Proofs.Challenge
import HiddenOrder.Proofs.Commitment
import HiddenOrder.Proofs.Ends
import HiddenOrder.Proofs.Elements
import HiddenOrder.Proofs.MembershipTree

/-!
# Accumulators over elements are consistent

The accumulator of a batch is made from its first proof, not from the product of all numbers, and a
single proof is made by accumulating all other elements.  All of these come to the same values, since
a proof raised to its own number is the accumulator; and the proofs are accepted because a base
without a common factor with the modulus makes every one of them a unit, so that none is zero.

* `Batch.Consistent` — the accumulator of the numbers, and an accepted proof for each of them.
* **`accumulateOver_ok`** — over a unit such a batch is made.
* **`blindedBase_ends`** — the base of a blinded accumulator is a unit above one.
* **`proveElement_ok`** — the proof for a single element.
* **`accumulators_agree`** — the accumulators over the generator, over a blinded base, and of the
  bound `Accumulator` tell the same story.
-/

namespace HiddenOrder

/-- A batch for some numbers: their accumulator, for every budget, and for each of them a proof that
is accepted. -/
structure Batch.Consistent [DigitLimit] (batch : Batch) (N : ℤ) (reps : List ℤ) : Prop where
  representatives : batch.representatives = reps
  length : batch.proofs.length = reps.length
  acc : ∀ b, 0 ≤ b → accumulate batch.base reps N b = .ok batch.acc
  accepted : ∀ (i : ℕ) (hi : i < reps.length), ∃ w, batch.proofs[i]? = some w ∧
    verifyMembership batch.acc reps[i] w N = .ok true

/-! ## Batches over a unit -/

section Over

variable {o : Oracles} {encoding : Encoding} {elements : List Element} {base N budget : ℤ}
  {reps : List ℤ}

/-- The proofs of some numbers, in order. -/
def membershipProofs (base N : ℤ) (reps : List ℤ) : List ℤ :=
  (List.range reps.length).map (membershipProof base N reps)

lemma getElem?_membershipProofs {i : ℕ} (hi : i < reps.length) :
    (membershipProofs base N reps)[i]? = some (membershipProof base N reps i) := by
  rw [membershipProofs, List.getElem?_map, List.getElem?_range hi, Option.map_some]

/-- The first proof is turned into the accumulator; without numbers it is the base. -/
lemma accumulatorOfProofs_ok [DigitLimit] (hN : 2 ≤ N) (hbase : 0 < base ∧ base < N)
    (hreps : ∀ e ∈ reps, 0 < e) :
    accumulatorOfProofs base N reps (membershipProofs base N reps)
      = .ok (accumulator base N reps) := by
  cases reps with
  | nil =>
      rw [accumulator_nil hN hbase]
      rfl
  | cons e es =>
      have hfirst : Modular.pow (membershipProof base N (e :: es) 0) e N
          = .ok (accumulator base N (e :: es)) := pow_membershipProof hN hreps (by simp)
      rw [membershipProofs, List.length_cons, List.range_succ_eq_map, List.map_cons]
      exact hfirst

/-- The batch of some elements over a base. -/
def batchOver [DigitLimit] (o : Oracles) (encoding : Encoding) (elements : List Element)
    (base N : ℤ) : Batch :=
  let reps := elements.map (numberOf o encoding)
  ⟨accumulator base N reps, reps, membershipProofs base N reps, base⟩

theorem accumulateOver_ok [DigitLimit] (hN : 2 ≤ N) (hbase : 0 < base ∧ base < N)
    (hbudget : 0 ≤ budget) (helements : ∀ e ∈ elements, e.HasNumber o encoding) :
    accumulateOver o elements encoding base N budget
      = .ok (batchOver o encoding elements base N) := by
  have hreps := numbers_pos helements
  rw [accumulateOver, representatives_ok helements, ok_bind,
    proveMembershipForked_ok hN hbase hreps hbudget, ok_bind]
  rw [← membershipProofs, accumulatorOfProofs_ok hN hbase hreps]
  rfl

/-- **Over a unit the batch is consistent.** -/
theorem batchOver_consistent [DigitLimit] (hN : 2 ≤ N) (hbase : 0 < base ∧ base < N)
    (hunit : IsUnit (base : Residue N)) (helements : ∀ e ∈ elements, e.HasNumber o encoding) :
    (batchOver o encoding elements base N).Consistent N (elements.map (numberOf o encoding)) where
  representatives := rfl
  length := by simp [batchOver, membershipProofs]
  acc _ hb := accumulate_ok hN hbase (numbers_pos helements) hb
  accepted i hi :=
    ⟨_, getElem?_membershipProofs hi, verifyMembership_ok hN hunit (numbers_pos helements) hi⟩

end Over

/-! ## The blinded base -/

/-- What a blinded base is: a unit above one and below the modulus. -/
structure BlindedBase (pp : GroupParameters) (base : ℤ) : Prop where
  one_lt : 1 < base
  lt_N : base < pp.N
  gcd_N : Int.gcd base pp.N = 1

lemma one_lt_bitLength (pp : GroupParameters) : 0 < (bitLength pp.N.toNat : ℤ) - 1 := by
  have hN := pp.three_le_N
  have hlog : 1 ≤ pp.N.toNat.log2 := (Nat.le_log2 (by omega)).mpr (by omega)
  rw [bitLength, if_neg (by omega)]
  omega

/-- **The base of a blinded accumulator** is a unit above one; there is none only when the source
fails, or when no power above one comes up within the given steps. -/
theorem blindedBase_ends [DigitLimit] (o : Oracles) (pp : GroupParameters) (steps : ℕ) :
    Ends (fun _ => True) (blindedBase o pp steps) (BlindedBase pp)
      (fun e => e = .randomnessExhausted ∨ e = .outOfSteps) := by
  induction steps with
  | zero => exact .throw (.inr rfl)
  | succ steps ih =>
      rw [blindedBase]
      refine (Entropy.bits_ends o.source (one_lt_bitLength pp) (.inl rfl)).bind fun r _ => ?_
      rw [Modular.pow_of_unit pp.two_le_N pp.cast_G]
      have hunit : IsUnit ((canonical ((pp.g ^ r : (Residue pp.N)ˣ) : Residue pp.N) : ℤ)
          : Residue pp.N) := by
        rw [cast_canonical pp.two_le_N]
        exact Units.isUnit _
      -- the power is a unit, so all that is left to ask is whether it is above one
      show Ends _ (if 1 < canonical _ then pure _ else blindedBase o pp steps) _ _
      split_ifs with hone
      · exact .pure ⟨hone, canonical_lt pp.two_le_N _, (isUnit_cast_iff pp.two_le_N _).mp hunit⟩
      · exact ih

/-! ## Single elements -/

namespace Accumulator

variable {o : Oracles} {a : Accumulator} {elements : List Element}

lemma encode_number [DigitLimit] {e : Element} (he : e.HasNumber o a.encoding) :
    ∃ n : ℕ, a.encode o e = .ok n ∧ (n : ℤ) = numberOf o a.encoding e :=
  encode_numberOf he

lemma base_ok (pp : GroupParameters) : 0 < pp.G ∧ pp.G < pp.N :=
  ⟨by have := pp.one_lt_G; omega, pp.G_lt_N⟩

theorem accumulate_eq [DigitLimit] (hbudget : 0 ≤ a.budget)
    (helements : ∀ e ∈ elements, e.HasNumber o a.encoding) :
    a.accumulate o elements
      = .ok (batchOver o a.encoding elements a.parameters.G a.parameters.N).acc := by
  rw [Accumulator.accumulate, representatives_ok helements, ok_bind,
    accumulate_ok a.parameters.two_le_N (base_ok a.parameters) (numbers_pos helements) hbudget]
  rfl

/-- **The proof for a single element** is the one that the batch has for it. -/
theorem proveElement_ok [DigitLimit] (helements : ∀ e ∈ elements, e.HasNumber o a.encoding) {i : ℕ}
    (hi : i < elements.length) :
    a.proveElement o elements i = .ok (membershipProof a.parameters.G a.parameters.N
      (elements.map (numberOf o a.encoding)) i) := by
  have hothers : ∀ e ∈ elements.eraseIdx i, e.HasNumber o a.encoding :=
    fun e he => helements e (List.mem_of_mem_eraseIdx he)
  rw [proveElement, if_neg (by omega), Int.toNat_natCast, representatives_ok hothers, ok_bind,
    accumulate_ok a.parameters.two_le_N (base_ok a.parameters) (numbers_pos hothers) le_rfl,
    ← List.eraseIdx_map]
  rfl

theorem verify_ok [DigitLimit] {e : Element} (he : e.HasNumber o a.encoding) (acc w : ℤ) :
    a.verify o acc e w = verifyMembership acc (numberOf o a.encoding e) w a.parameters.N := by
  obtain ⟨n, hn, hnumber⟩ := encode_number he
  rw [verify, hn, ok_bind, hnumber]

end Accumulator

/-- What a bound accumulator says of a batch: it computes its accumulator, and makes for each element
the proof that the batch has for it, which it accepts. -/
structure Accumulator.StandsBy [DigitLimit] (a : Accumulator) (o : Oracles) (elements : List Element)
    (batch : Batch) : Prop where
  accumulates : a.accumulate o elements = .ok batch.acc
  proves : ∀ (i : ℕ) (hi : i < elements.length), ∃ w, batch.proofs[i]? = some w ∧
    a.proveElement o elements i = .ok w ∧ a.verify o batch.acc elements[i] w = .ok true

theorem Accumulator.standsBy_batchOver [DigitLimit] {o : Oracles} {a : Accumulator}
    {elements : List Element} (hbudget : 0 ≤ a.budget)
    (helements : ∀ e ∈ elements, e.HasNumber o a.encoding) :
    a.StandsBy o elements
      (batchOver o a.encoding elements a.parameters.G a.parameters.N) where
  accumulates := accumulate_eq hbudget helements
  proves i hi := by
    have hlen : i < (elements.map (numberOf o a.encoding)).length := by rwa [List.length_map]
    refine ⟨_, getElem?_membershipProofs hlen, proveElement_ok helements hi, ?_⟩
    have hunit : IsUnit (a.parameters.G : Residue a.parameters.N) := a.parameters.g.isUnit
    have haccepted := verifyMembership_ok a.parameters.two_le_N hunit (numbers_pos helements) hlen
    rw [List.getElem_map] at haccepted
    rw [verify_ok (helements _ (List.getElem_mem hi))]
    exact haccepted

/-! ## All entry points -/

lemma budgetOr_nonneg (cfg : Settings) {budget : Option ℤ} (h : ∀ b ∈ budget, 0 ≤ b) :
    0 ≤ budgetOr cfg budget := by
  cases budget with
  | none => exact Int.natCast_nonneg _
  | some b => exact h b rfl

lemma accumulateBlinded_run [DigitLimit] {o : Oracles} {cfg : Settings} {pp : GroupParameters}
    {encoding : Encoding} {elements : List Element} {budget : Option ℤ}
    (hbudget : ∀ b ∈ budget, 0 ≤ b) (helements : ∀ e ∈ elements, e.HasNumber o encoding) {base : ℤ}
    {i j : ℕ} (hblinded : BlindedBase pp base) (hrun : blindedBase o pp o.steps i = .ok base j) :
    accumulateBlinded o cfg elements encoding pp budget i
      = .ok (batchOver o encoding elements base pp.N) j := by
  have hbase : 0 < base ∧ base < pp.N := ⟨by have := hblinded.one_lt; omega, hblinded.lt_N⟩
  rw [accumulateBlinded, bind_run_of_ok hrun,
    accumulateOver_ok pp.two_le_N hbase (budgetOr_nonneg cfg hbudget) helements]
  rfl

/-- **All accumulators over elements agree.**  When every element has a number, the batch over the
generator is made and is consistent; so is the batch over every blinded base that is found, which is
a unit above one, and a base is missed only when the source fails or the steps run out.  A bound
accumulator makes the same kind of batch and stands by it. -/
theorem accumulators_agree [DigitLimit] (o : Oracles) (cfg : Settings) (pp : GroupParameters)
    (encoding : Encoding) (elements : List Element)
    (helements : ∀ e ∈ elements, e.HasNumber o encoding) :
    ∃ reps, representatives o encoding elements = .ok reps ∧ reps.length = elements.length ∧
      (∀ budget : Option ℤ, (∀ b ∈ budget, 0 ≤ b) →
        (∃ batch, accumulateAndProve o elements encoding pp budget = .ok batch ∧
          batch.base = pp.G ∧ batch.Consistent pp.N reps) ∧
        ∀ i,
          (∀ base j, blindedBase o pp o.steps i = .ok base j →
            BlindedBase pp base ∧
            ∃ batch, accumulateBlinded o cfg elements encoding pp budget i = .ok batch j ∧
              batch.base = base ∧ batch.Consistent pp.N reps) ∧
          (∀ e j, blindedBase o pp o.steps i = .error e j →
            accumulateBlinded o cfg elements encoding pp budget i = .error e j ∧
              (e = .randomnessExhausted ∨ e = .outOfSteps))) ∧
      ∀ a : Accumulator, a.parameters = pp → a.encoding = encoding → 0 ≤ a.budget →
        ∃ batch, a.prove o elements = .ok batch ∧ batch.base = pp.G ∧
          batch.Consistent pp.N reps ∧ a.StandsBy o elements batch := by
  have hN := pp.two_le_N
  have hG := Accumulator.base_ok pp
  have hconsistent := batchOver_consistent hN hG pp.g.isUnit helements
  refine ⟨elements.map (numberOf o encoding), representatives_ok helements, List.length_map .., ?_,
    ?_⟩
  · intro budget hbudget
    refine ⟨⟨_, accumulateOver_ok hN hG (budgetOr_nonneg .standard hbudget) helements, rfl,
      hconsistent⟩, ?_⟩
    intro i
    refine ⟨?_, ?_⟩
    · intro base j hrun
      have hblinded := ((blindedBase_ends o pp o.steps).of_ok trivial hrun).1
      have hunit := (isUnit_cast_iff hN base).mpr hblinded.gcd_N
      have hbase : 0 < base ∧ base < pp.N := ⟨by have := hblinded.one_lt; omega, hblinded.lt_N⟩
      exact ⟨hblinded, _, accumulateBlinded_run hbudget helements hblinded hrun, rfl,
        batchOver_consistent hN hbase hunit helements⟩
    · intro e j hrun
      have hends := blindedBase_ends o pp o.steps i trivial
      rw [hrun] at hends
      refine ⟨?_, hends.1⟩
      rw [accumulateBlinded, bind_run_of_error hrun]
  · rintro a rfl rfl hbudget
    exact ⟨_, accumulateOver_ok hN hG hbudget helements, rfl, hconsistent,
      Accumulator.standsBy_batchOver hbudget helements⟩

open Unlimited in
/-- Three elements in the small group, the first of them twice, over the base four that a blinding
exponent of one leaves as it is. -/
theorem accumulators_agree_smallGroup :
    (∀ e ∈ [Element.bytes [], .bytes [1], .bytes []], e.HasNumber parityOracles .hashToPrime) ∧
    (∃ j, blindedBase parityOracles smallGroup parityOracles.steps 0 = .ok 4 j ∧
      ∃ batch, accumulateBlinded parityOracles .standard [.bytes [], .bytes [1], .bytes []]
        .hashToPrime smallGroup (some 1) 0 = .ok batch j ∧ batch.base = 4 ∧
        batch.Consistent smallGroup.N [5, 3, 5]) ∧
    ∃ batch, (Accumulator.mk smallGroup .hashToPrime 2).prove parityOracles
        [.bytes [], .bytes [1], .bytes []] = .ok batch ∧
      batch.Consistent smallGroup.N [5, 3, 5] ∧
      (Accumulator.mk smallGroup .hashToPrime 2).StandsBy parityOracles
        [.bytes [], .bytes [1], .bytes []] batch := by
  have helements : ∀ e ∈ [Element.bytes [], .bytes [1], .bytes []],
      e.HasNumber parityOracles .hashToPrime := by
    intro e he
    simp only [List.mem_cons, List.not_mem_nil, or_false] at he
    rcases he with rfl | rfl | rfl <;> exact ⟨_, rfl, 0, by decide, by decide⟩
  have hdrawn : (blindedBase parityOracles smallGroup parityOracles.steps).run' 0 = some 4 := by
    decide +kernel
  obtain ⟨j, hdrawn⟩ := run'_eq_some.mp hdrawn
  obtain ⟨reps, hreps, -, hbatches, haccumulator⟩ := accumulators_agree parityOracles .standard
    smallGroup .hashToPrime [.bytes [], .bytes [1], .bytes []] helements
  have hnumbers : representatives parityOracles .hashToPrime [.bytes [], .bytes [1], .bytes []]
      = .ok [5, 3, 5] := rfl
  rw [hnumbers] at hreps
  cases hreps
  obtain ⟨-, hblinded⟩ := hbatches (some 1) (by rintro b ⟨⟩; decide)
  obtain ⟨-, batch, hbatch, hbase, hconsistent⟩ := (hblinded 0).1 4 j hdrawn
  obtain ⟨bound, hbound, -, hconsistent', hstands⟩ :=
    haccumulator ⟨smallGroup, .hashToPrime, 2⟩ rfl rfl (by decide)
  exact ⟨helements, ⟨j, hdrawn, batch, hbatch, hbase, hconsistent⟩, bound, hbound, hconsistent',
    hstands⟩

end HiddenOrder
