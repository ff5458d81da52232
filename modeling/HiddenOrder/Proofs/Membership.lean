import HiddenOrder.Accumulator
import HiddenOrder.Proofs.Product
import HiddenOrder.Proofs.Residue
import Mathlib.Algebra.BigOperators.Fin

/-!
# What a membership proof is

A proof for the number at position `i` is the base to the power of the product of all *other*
numbers.  This file says so once, as `membershipProof`, and proves it of the strategy that computes
every proof by itself; that the tree strategies compute the same numbers is the subject of
`HiddenOrder.Proofs.MembershipTree`.

* `productOfOthers`, **`membershipProof`** — the exponent and the proof at a position.
* `validate_ok` — which inputs are accepted.
* **`proveNaive_ok`** — one exponentiation for each proof.
* **`accumulate_ok`** — the accumulator is the base to the power of the product of all numbers.
* **`accumulateStepwise_ok`** — one exponentiation for each number comes to the same.
* **`products_and_powers_agree`** — every way to a product, and both ways to an accumulator.
* **`verifyMembership_decides`** — what the verifier decides.
* **`verifyMembership_ok`** — over a unit, every proof is accepted.
-/

namespace HiddenOrder

variable {base N : Int} {reps : List Int}

/-! ## The numbers that are computed -/

/-- The product of all numbers but the one at a position. -/
def productOfOthers (reps : List Int) (i : Nat) : Int := (reps.eraseIdx i).prod

/-- The proof for the number at a position: the base to the power of the product of the others. -/
def membershipProof (base N : Int) (reps : List Int) (i : Nat) : Int :=
  canonical ((base : Residue N) ^ (productOfOthers reps i).toNat)

lemma prod_pos {xs : List Int} (hxs : ∀ x ∈ xs, 0 < x) : 0 < xs.prod := by
  induction xs with
  | nil => rw [List.prod_nil]; exact Int.one_pos
  | cons x xs ih =>
      rw [List.prod_cons]
      exact mul_pos (hxs x List.mem_cons_self) (ih fun y hy => hxs y (List.mem_cons_of_mem x hy))

/-- The product of the others, as a product over the other positions. -/
lemma productOfOthers_eq (hreps : ∀ e ∈ reps, 0 < e) (i : Fin reps.length) :
    productOfOthers reps i = ∏ j ∈ Finset.univ.erase i, reps[j] := by
  have hlist : reps[i] * productOfOthers reps i = reps.prod :=
    List.CommMonoid.mul_prod_eraseIdx i.isLt
  have hfin : reps[i] * ∏ j ∈ Finset.univ.erase i, reps[j] = reps.prod :=
    (Finset.mul_prod_erase Finset.univ (fun j : Fin reps.length => reps[j])
      (Finset.mem_univ i)).trans (Fin.prod_univ_getElem reps)
  have hne : reps[i] ≠ 0 := ne_of_gt (hreps _ (List.getElem_mem i.isLt))
  exact mul_left_cancel₀ hne (hlist.trans hfin.symm)

lemma membershipProof_eq (hN : 2 ≤ N) (i : Nat) :
    membershipProof base N reps i = base ^ (productOfOthers reps i).toNat % N := by
  rw [membershipProof, ← Int.cast_pow, canonical_cast hN]

/-! ## The inputs that are accepted -/

lemma checkRepresentatives_ok [DigitLimit] (hreps : ∀ e ∈ reps, 0 < e) (i : Nat) :
    checkRepresentatives i reps = .ok () := by
  induction reps generalizing i with
  | nil => rfl
  | cons e es ih =>
      rw [checkRepresentatives, if_neg (not_le.mpr (hreps e List.mem_cons_self))]
      exact ih (fun x hx => hreps x (List.mem_cons_of_mem e hx)) (i + 1)

lemma validate_ok [DigitLimit] (hN : 2 ≤ N) (hbase : 0 < base ∧ base < N)
    (hreps : ∀ e ∈ reps, 0 < e) : validate base N reps = .ok () := by
  rw [validate, if_neg (by omega), if_neg (not_not.mpr hbase), checkRepresentatives_ok hreps]

/-! ## One exponentiation for each proof -/

/-- A power by a product of positive numbers. -/
lemma pow_prod [DigitLimit] (hN : 2 ≤ N) (b : Int) {xs : List Int} (hxs : ∀ x ∈ xs, 0 < x) :
    Modular.pow b (treeProduct xs) N = .ok (canonical ((b : Residue N) ^ xs.prod.toNat)) := by
  rw [treeProduct_eq, Modular.pow_of_nonneg hN b (prod_pos hxs).le]

lemma proveAt_ok [DigitLimit] (hN : 2 ≤ N) (hreps : ∀ e ∈ reps, 0 < e) (positions : List Nat) :
    proveAt base N reps positions = .ok (positions.map (membershipProof base N reps)) := by
  induction positions with
  | nil => rfl
  | cons i rest ih =>
      have hothers : ∀ e ∈ reps.eraseIdx i, 0 < e :=
        fun e he => hreps e (List.mem_of_mem_eraseIdx he)
      rw [proveAt, pow_prod hN base hothers, ok_bind, ih]
      rfl

/-- **The naive strategy** computes the proof of every position. -/
theorem proveNaive_ok [DigitLimit] (hN : 2 ≤ N) (hbase : 0 < base ∧ base < N)
    (hreps : ∀ e ∈ reps, 0 < e) :
    proveNaive base N reps = .ok ((List.range reps.length).map (membershipProof base N reps)) := by
  rw [proveNaive, validate_ok hN hbase hreps, ok_bind, proveAt_ok hN hreps]

/-! ## The accumulator -/

/-- The accumulator: the base to the power of the product of all numbers. -/
def accumulator (base N : Int) (reps : List Int) : Int :=
  canonical ((base : Residue N) ^ reps.prod.toNat)

lemma accumulator_nil (hN : 2 ≤ N) (hbase : 0 < base ∧ base < N) :
    accumulator base N [] = base := by
  rw [accumulator, List.prod_nil, Int.toNat_one, pow_one, canonical_cast_of_lt hN hbase.1.le hbase.2]

/-- **The accumulator is computed** for every budget. -/
theorem accumulate_ok [DigitLimit] (hN : 2 ≤ N) (hbase : 0 < base ∧ base < N)
    (hreps : ∀ e ∈ reps, 0 < e) {budget : Int} (hbudget : 0 ≤ budget) :
    accumulate base reps N budget = .ok (accumulator base N reps) := by
  rw [accumulate, validate_ok hN hbase hreps, ok_bind, checkBudget_ok hbudget, ok_bind]
  simp only [splitProduct_eq reps hbudget, treeProduct_eq, pure_eq_ok, ok_bind, ite_self]
  rw [Modular.pow_of_nonneg hN base (prod_pos hreps).le, accumulator]

lemma raiseAll_ok [DigitLimit] (hN : 2 ≤ N) (hreps : ∀ e ∈ reps, 0 < e) (power : Residue N) :
    raiseAll N (canonical power) reps = .ok (canonical (power ^ reps.prod.toNat)) := by
  induction reps generalizing power with
  | nil =>
      rw [raiseAll, List.prod_nil, Int.toNat_one, pow_one]
      rfl
  | cons e es ih =>
      have he : 0 ≤ e := (hreps e List.mem_cons_self).le
      have hes : ∀ x ∈ es, 0 < x := fun x hx => hreps x (List.mem_cons_of_mem e hx)
      rw [raiseAll, Modular.pow_of_nonneg hN _ he, ok_bind, cast_canonical hN, ih hes, ← pow_mul,
        ← Int.toNat_mul he (prod_pos hes).le, List.prod_cons]

/-- **One exponentiation for each number** comes to the accumulator as well. -/
theorem accumulateStepwise_ok [DigitLimit] (hN : 2 ≤ N) (hbase : 0 < base ∧ base < N)
    (hreps : ∀ e ∈ reps, 0 < e) :
    accumulateStepwise base reps N = .ok (accumulator base N reps) := by
  have hraise := raiseAll_ok hN hreps (base : Residue N)
  rw [canonical_cast_of_lt hN hbase.1.le hbase.2] at hraise
  rw [accumulateStepwise, validate_ok hN hbase hreps, ok_bind, hraise, accumulator]

lemma accumulator_eq (hN : 2 ≤ N) :
    accumulator base N reps = base ^ reps.prod.toNat % N := by
  rw [accumulator, ← Int.cast_pow, canonical_cast hN]

/-- **Products and powers agree.**  The tree and the trees over the pieces compute the product of any
list, signs and zeros included, for every budget.  So the accumulator does not depend on how its
exponent is made, nor on whether it is made at all: it is the base to the power of the product,
which one exponentiation after another comes to as well. -/
theorem products_and_powers_agree [DigitLimit] (values : List Int) {budget : Int}
    (hbudget : 0 ≤ budget) :
    (treeProduct values = values.prod ∧ splitProduct values budget = .ok values.prod) ∧
    ∀ {base N : Int} {reps : List Int}, 2 ≤ N → (0 < base ∧ base < N) → (∀ e ∈ reps, 0 < e) →
      accumulate base reps N budget = .ok (base ^ reps.prod.toNat % N) ∧
      accumulateStepwise base reps N = .ok (base ^ reps.prod.toNat % N) := by
  refine ⟨⟨treeProduct_eq values, splitProduct_eq values hbudget⟩, ?_⟩
  intro base N reps hN hbase hreps
  rw [← accumulator_eq hN]
  exact ⟨accumulate_ok hN hbase hreps hbudget, accumulateStepwise_ok hN hbase hreps⟩

open Unlimited in
/-- Five factors of both signs, cut into three pieces although four are allowed. -/
theorem products_and_powers_agree_five :
    ((0 : Int) ≤ 2 ∧ (2 : Int) ≤ 35 ∧ ((0 : Int) < 2 ∧ (2 : Int) < 35) ∧
      ∀ e ∈ ([3, 1, 3, 2, 7] : List Int), 0 < e) ∧
    (treeProduct [4, -3, 7, 1, -5] = 420 ∧ splitProduct [4, -3, 7, 1, -5] 2 = .ok 420) ∧
    accumulate 2 [3, 1, 3, 2, 7] 35 2 = .ok 29 ∧
      accumulateStepwise 2 [3, 1, 3, 2, 7] 35 = .ok 29 := by
  obtain ⟨hproducts, hpowers⟩ :=
    products_and_powers_agree [4, -3, 7, 1, -5] (show (0 : Int) ≤ 2 by decide)
  exact ⟨by decide, hproducts, hpowers (by decide) (by decide) (by decide)⟩

/-- A proof raised to its own number is the accumulator. -/
lemma pow_membershipProof [DigitLimit] (hN : 2 ≤ N) (hreps : ∀ e ∈ reps, 0 < e) {i : Nat}
    (hi : i < reps.length) :
    Modular.pow (membershipProof base N reps i) reps[i] N = .ok (accumulator base N reps) := by
  have hrep : 0 < reps[i] := hreps _ (List.getElem_mem hi)
  have hothers : 0 < productOfOthers reps i :=
    prod_pos fun e he => hreps e (List.mem_of_mem_eraseIdx he)
  have hprod : productOfOthers reps i * reps[i] = reps.prod := by
    rw [mul_comm]
    exact List.CommMonoid.mul_prod_eraseIdx hi
  rw [Modular.pow_of_nonneg hN _ hrep.le, membershipProof, cast_canonical hN, ← pow_mul,
    ← Int.toNat_mul hothers.le hrep.le, hprod, accumulator]

/-- **The verdict on a membership proof** is whether everything is in range and the proof raised to
the number is the accumulator. -/
theorem verifyMembership_decides [DigitLimit] (acc e w N : Int) :
    Decides (verifyMembership acc e w N)
      ((2 ≤ N ∧ 0 < e ∧ 0 < w ∧ w < N) ∧ canonical ((w : Residue N) ^ e.toNat) = acc) := by
  by_cases hrange : 2 ≤ N ∧ 0 < e ∧ 0 < w ∧ w < N
  · obtain ⟨hN, he, hw⟩ := hrange
    refine ⟨decide (canonical ((w : Residue N) ^ e.toNat) = acc), ?_, ?_⟩
    · rw [verifyMembership, if_neg (by omega), Modular.pow_of_nonneg hN w he.le, ok_bind,
        pure_eq_ok]
    · rw [decide_eq_true_eq]
      exact (and_iff_right ⟨hN, he, hw⟩).symm
  · exact .of_false (by rw [verifyMembership, if_pos (by omega)]) fun h => hrange h.1

/-- **Over a unit, every proof is accepted**: it is a unit as well, and so it is not zero. -/
theorem verifyMembership_ok [DigitLimit] (hN : 2 ≤ N) (hunit : IsUnit (base : Residue N))
    (hreps : ∀ e ∈ reps, 0 < e) {i : Nat} (hi : i < reps.length) :
    verifyMembership (accumulator base N reps) reps[i] (membershipProof base N reps i) N
      = .ok true := by
  have hrange : 0 < membershipProof base N reps i ∧ membershipProof base N reps i < N :=
    ⟨canonical_pos hN (hunit.pow _), canonical_lt hN _⟩
  have hrep : 0 < reps[i] := hreps _ (List.getElem_mem hi)
  rw [verifyMembership, if_neg (by omega), pow_membershipProof hN hreps hi, ok_bind, pure_eq_ok,
    decide_eq_true rfl]

end HiddenOrder
