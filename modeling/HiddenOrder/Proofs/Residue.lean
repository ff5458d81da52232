import HiddenOrder.Number.Modular
import HiddenOrder.Proofs.Outcome
import Mathlib.Data.ZMod.Units
import Mathlib.Tactic.LinearCombination
import Mathlib.Tactic.Ring

/-!
# Arithmetic modulo N, in the ring of residues

The library computes with integers in `[0, N)` and checks the conditions of every operation; the
laws that its protocols rest on are those of the ring of residues modulo `N` and of its units.
This file joins the two: every checked operation is the one of the ring, written down as a
canonical integer.

* `canonical` — the integer in `[0, N)` that a residue is written as.
* **`powMod_eq`** — repeated squaring computes powers.
* **`inverse?_of_unit`**, **`inverse?_of_not_isUnit`** — the Euclidean algorithm finds exactly the
  inverses of the units.
* **`Modular.pow_of_unit`** — over a unit every integer is an exponent; `Modular.pow_of_nonneg` —
  a natural exponent asks nothing of the base.
* **`Modular.multiPow_ok`**, **`Modular.multiPow_units`** — the product of several powers.
-/

namespace HiddenOrder

/-- The residues modulo `N`. -/
abbrev Residue (N : Int) := ZMod N.toNat

variable {N : Int}

/-! ## Canonical integers -/

/-- The integer in `[0, N)` that stands for a residue. -/
def canonical (a : Residue N) : Int := a.val

lemma neZero_toNat (hN : 2 ≤ N) : NeZero N.toNat := ⟨by omega⟩

/-- Writing a residue down and reading it back gives it again. -/
lemma cast_canonical (hN : 2 ≤ N) (a : Residue N) : ((canonical a : Int) : Residue N) = a := by
  have := neZero_toNat hN
  rw [canonical, Int.cast_natCast, ZMod.natCast_zmod_val]

/-- An integer is reduced by reading it as a residue. -/
lemma canonical_cast (hN : 2 ≤ N) (a : Int) : canonical (a : Residue N) = a % N := by
  have := neZero_toNat hN
  rw [canonical, ZMod.val_intCast, Int.toNat_of_nonneg (by omega)]

lemma canonical_lt (hN : 2 ≤ N) (a : Residue N) : canonical a < N := by
  have := neZero_toNat hN
  have h := ZMod.val_lt a
  rw [canonical]
  omega

lemma canonical_inj (hN : 2 ≤ N) {a b : Residue N} : canonical a = canonical b ↔ a = b := by
  refine ⟨fun h => ?_, congrArg _⟩
  rw [← cast_canonical hN a, h, cast_canonical hN b]

lemma canonical_pos (hN : 2 ≤ N) {a : Residue N} (ha : IsUnit a) : 0 < canonical a := by
  have : Fact (1 < N.toNat) := ⟨by omega⟩
  have hval : a.val ≠ 0 := (ZMod.val_ne_zero a).mpr ha.ne_zero
  rw [canonical]
  omega

lemma canonical_mul (hN : 2 ≤ N) (a b : Residue N) :
    canonical a * canonical b % N = canonical (a * b) := by
  rw [← canonical_cast hN, Int.cast_mul, cast_canonical hN, cast_canonical hN]

lemma canonical_cast_of_lt (hN : 2 ≤ N) {a : Int} (h₀ : 0 ≤ a) (h₁ : a < N) :
    canonical (a : Residue N) = a := by
  rw [canonical_cast hN, Int.emod_eq_of_lt h₀ h₁]

lemma canonical_one (hN : 2 ≤ N) : canonical (1 : Residue N) = 1 := by
  have h := canonical_cast_of_lt hN (show (0 : Int) ≤ 1 by decide) (by omega)
  rwa [Int.cast_one] at h

lemma canonical_eq_one (hN : 2 ≤ N) {a : Residue N} : canonical a = 1 ↔ a = 1 := by
  rw [← canonical_inj hN, canonical_one hN]

lemma cast_emod (hN : 2 ≤ N) (a : Int) : ((a % N : Int) : Residue N) = a := by
  rw [← canonical_cast hN, cast_canonical hN]

/-- Two integers stand for one residue exactly when `N` divides their difference. -/
lemma cast_eq_iff_dvd (hN : 2 ≤ N) {a b : Int} : (a : Residue N) = b ↔ N ∣ a - b := by
  rw [← sub_eq_zero, ← Int.cast_sub, ZMod.intCast_zmod_eq_zero_iff_dvd,
    Int.toNat_of_nonneg (by omega)]

/-- The units among the residues are those of the integers without a common factor with `N`. -/
lemma isUnit_cast_iff (hN : 2 ≤ N) (a : Int) : IsUnit (a : Residue N) ↔ Int.gcd a N = 1 := by
  rw [ZMod.coe_int_isUnit_iff_isCoprime, Int.toNat_of_nonneg (by omega),
    Int.isCoprime_iff_gcd_eq_one, Int.gcd_comm]

lemma val_zpow_of_nonneg (u : (Residue N)ˣ) {e : Int} (he : 0 ≤ e) :
    ((u ^ e : (Residue N)ˣ) : Residue N) = (u : Residue N) ^ e.toNat := by
  obtain ⟨k, rfl⟩ := Int.eq_ofNat_of_zero_le he
  rw [zpow_natCast, Units.val_pow_eq_pow_val, Int.toNat_natCast]

/-! ## Powers by repeated squaring -/

/-- **Repeated squaring computes the power.** -/
theorem powMod_eq (b : Int) (e : Nat) (n : Int) : powMod b e n = b ^ e % n := by
  fun_induction powMod b e n with
  | case1 b => rw [pow_zero]
  | case2 b e he half heven ih =>
      obtain ⟨k, hk⟩ : ∃ k, e = 2 * k := ⟨e / 2, by omega⟩
      have hhalf : half = (b * b % n) ^ (e / 2) % n := ih
      rw [hhalf, show e / 2 = k by omega, hk, pow_mul, sq]
      exact ((Int.mod_modEq (b * b) n).pow k)
  | case3 b e he half hodd ih =>
      obtain ⟨k, hk⟩ : ∃ k, e = 2 * k + 1 := ⟨e / 2, by omega⟩
      have hhalf : half = (b * b % n) ^ (e / 2) % n := ih
      have hmod : half ≡ (b * b) ^ k [ZMOD n] := by
        rw [hhalf, show e / 2 = k by omega]
        exact (Int.mod_modEq _ n).trans ((Int.mod_modEq (b * b) n).pow k)
      rw [hk, pow_succ, pow_mul, sq, mul_comm _ b]
      exact hmod.mul_left b

lemma powMod_canonical (hN : 2 ≤ N) (b : Int) (e : Nat) :
    powMod b e N = canonical ((b : Residue N) ^ e) := by
  rw [powMod_eq, ← canonical_cast hN, Int.cast_pow]

/-! ## Inverses by the Euclidean algorithm -/

lemma euclid_fst (r₀ r₁ : Nat) (s₀ s₁ : Int) : (euclid r₀ r₁ s₀ s₁).1 = Nat.gcd r₀ r₁ := by
  fun_induction euclid r₀ r₁ s₀ s₁ with
  | case1 r₀ s₀ s₁ => rw [Nat.gcd_zero_right]
  | case2 r₀ r₁ s₀ s₁ h ih => rw [ih, Nat.gcd_comm r₁, ← Nat.gcd_rec, Nat.gcd_comm]

/-- While each remainder is its coefficient times the operand `a` modulo `n`, so is the divisor at
the end. -/
lemma euclid_snd {R : Type} [CommRing R] (a : R) (r₀ r₁ : Nat) (s₀ s₁ : Int)
    (h₀ : (r₀ : R) = s₀ * a) (h₁ : (r₁ : R) = s₁ * a) :
    (((euclid r₀ r₁ s₀ s₁).1 : Nat) : R) = (euclid r₀ r₁ s₀ s₁).2 * a := by
  fun_induction euclid r₀ r₁ s₀ s₁ with
  | case1 r₀ s₀ s₁ => exact h₀
  | case2 r₀ r₁ s₀ s₁ h ih =>
      refine ih h₁ ?_
      have hdiv : ((r₁ : R) * (r₀ / r₁ : Nat) + (r₀ % r₁ : Nat)) = r₀ := by
        rw [← Nat.cast_mul, ← Nat.cast_add, Nat.div_add_mod]
      rw [Int.cast_sub, Int.cast_mul, Int.cast_natCast]
      linear_combination hdiv + h₀ - ((r₀ / r₁ : Nat) : R) * h₁

/-- What an inversion starts from: the operand reduced, with coefficient one, and the modulus. -/
lemma euclid_inverse (hN : 2 ≤ N) (a : Int) :
    (euclid (a % N).toNat N.toNat 1 0).1 = Int.gcd a N ∧
      ((Int.gcd a N : Nat) : Residue N) = (euclid (a % N).toNat N.toNat 1 0).2 * a := by
  have hfst : (euclid (a % N).toNat N.toNat 1 0).1 = Int.gcd a N := by
    have h₀ : ((a % N).toNat : Int) = a % N := Int.toNat_of_nonneg (Int.emod_nonneg _ (by omega))
    have h₁ : (N.toNat : Int) = N := Int.toNat_of_nonneg (by omega)
    rw [euclid_fst, ← Int.gcd_natCast_natCast, h₀, h₁, Int.gcd_emod]
  refine ⟨hfst, ?_⟩
  rw [← hfst]
  refine euclid_snd (a : Residue N) _ _ _ _ ?_ ?_
  · have h := cast_emod hN a
    rw [← Int.toNat_of_nonneg (Int.emod_nonneg a (show N ≠ 0 by omega)), Int.cast_natCast] at h
    rw [h, Int.cast_one, one_mul]
  · rw [ZMod.natCast_self, Int.cast_zero, zero_mul]

/-- **The inverse of a unit is found**, and written down canonically. -/
theorem inverse?_of_unit (hN : 2 ≤ N) {a : Int} {u : (Residue N)ˣ} (ha : (a : Residue N) = u) :
    inverse? a N = some (canonical ((u⁻¹ : (Residue N)ˣ) : Residue N)) := by
  obtain ⟨hfst, hsnd⟩ := euclid_inverse hN a
  have hgcd : Int.gcd a N = 1 := (isUnit_cast_iff hN a).mp (ha ▸ u.isUnit)
  rw [hgcd, Nat.cast_one, ha] at hsnd
  have hinv : ((euclid (a % N).toNat N.toNat 1 0).2 : Residue N) = (u⁻¹ : (Residue N)ˣ) :=
    Units.eq_inv_of_mul_eq_one_right hsnd.symm
  simp only [inverse?]
  rw [if_pos (hfst.trans hgcd), ← canonical_cast hN, hinv]

/-- **Nothing else is inverted.** -/
theorem inverse?_of_not_isUnit (hN : 2 ≤ N) {a : Int} (ha : ¬IsUnit (a : Residue N)) :
    inverse? a N = none := by
  rw [isUnit_cast_iff hN, ← (euclid_inverse hN a).1] at ha
  simp only [inverse?]
  rw [if_neg ha]

/-! ## The checked operations -/

namespace Modular

variable [DigitLimit]

lemma checkModulus_ok (hN : 2 ≤ N) : checkModulus N = .ok () := by
  rw [checkModulus, if_neg (by omega)]

lemma mul_ok (hN : 2 ≤ N) (a b : Int) :
    mul a b N = .ok (canonical ((a : Residue N) * (b : Residue N))) := by
  rw [mul, checkModulus_ok hN, ← Int.cast_mul, canonical_cast hN]
  rfl

/-- The inverse of a unit is returned. -/
lemma inverse_of_unit (hN : 2 ≤ N) {a : Int} {u : (Residue N)ˣ} (ha : (a : Residue N) = u) :
    inverse a N = .ok (canonical ((u⁻¹ : (Residue N)ˣ) : Residue N)) := by
  rw [inverse, checkModulus_ok hN, ok_bind, inverse?_of_unit hN ha]
  rfl

/-- A natural exponent asks nothing of the base. -/
theorem pow_of_nonneg (hN : 2 ≤ N) (b : Int) {e : Int} (he : 0 ≤ e) :
    pow b e N = .ok (canonical ((b : Residue N) ^ e.toNat)) := by
  rw [pow, checkModulus_ok hN, ← powMod_canonical hN]
  simp only [if_pos he]
  rfl

/-- **Over a unit every integer is an exponent.** -/
theorem pow_of_unit (hN : 2 ≤ N) {b : Int} {u : (Residue N)ˣ} (hb : (b : Residue N) = u)
    (e : Int) : pow b e N = .ok (canonical ((u ^ e : (Residue N)ˣ) : Residue N)) := by
  by_cases he : 0 ≤ e
  · rw [pow_of_nonneg hN b he, hb, val_zpow_of_nonneg u he]
  · obtain ⟨k, hk⟩ : ∃ k : Nat, e = -k := ⟨(-e).toNat, by omega⟩
    rw [pow, checkModulus_ok hN, hk, zpow_neg, zpow_natCast, ← inv_pow, Units.val_pow_eq_pow_val,
      ← cast_canonical hN ((u⁻¹ : (Residue N)ˣ) : Residue N), ← powMod_canonical hN]
    simp only [inverse?_of_unit hN hb, if_neg (hk ▸ he), neg_neg, Int.toNat_natCast]
    rfl

/-- A negative exponent over anything else is refused. -/
theorem pow_of_not_isUnit (hN : 2 ≤ N) {b e : Int} (hb : ¬IsUnit (b : Residue N)) (he : e < 0) :
    pow b e N = .error (refuse (.baseNotInvertible b N)) := by
  rw [pow, checkModulus_ok hN]
  simp only [if_neg (not_le.mpr he), inverse?_of_not_isUnit hN hb]
  rfl

lemma cast_of_pow_unit (hN : 2 ≤ N) {b e v : Int} {u : (Residue N)ˣ} (hb : (b : Residue N) = u)
    (h : pow b e N = .ok v) : (v : Residue N) = (u ^ e : (Residue N)ˣ) := by
  rw [pow_of_unit hN hb] at h
  cases h
  exact cast_canonical hN _

/-- A power that was computed over anything else has a natural exponent. -/
lemma cast_of_pow_not_isUnit (hN : 2 ≤ N) {b e v : Int} (hb : ¬IsUnit (b : Residue N))
    (h : pow b e N = .ok v) : 0 ≤ e ∧ (v : Residue N) = (b : Residue N) ^ e.toNat := by
  by_cases he : 0 ≤ e
  · rw [pow_of_nonneg hN b he] at h
    cases h
    exact ⟨he, cast_canonical hN _⟩
  · rw [pow_of_not_isUnit hN hb (not_le.mp he)] at h
    cases h

lemma prodPow_ok (hN : 2 ≤ N) {pairs : List (Int × Int)} {values : List (Residue N)}
    (h : List.Forall₂ (fun pair v => pow pair.1 pair.2 N = .ok (canonical v)) pairs values)
    (acc : Residue N) : prodPow N (canonical acc) pairs = .ok (canonical (acc * values.prod)) := by
  induction h generalizing acc with
  | nil =>
      rw [prodPow, List.prod_nil, mul_one]
      rfl
  | @cons pair v pairs values hpow _ ih =>
      obtain ⟨b, e⟩ := pair
      rw [prodPow, hpow, ok_bind, mul_ok hN, ok_bind, cast_canonical hN, cast_canonical hN, ih,
        List.prod_cons, mul_assoc]

/-- **A product of powers** is the product of the residues, when each of the powers is known. -/
theorem multiPow_ok (hN : 2 ≤ N) {bases exponents : List Int} {values : List (Residue N)}
    (hlen : bases.length = exponents.length)
    (h : List.Forall₂ (fun pair v => pow pair.1 pair.2 N = .ok (canonical v))
      (bases.zip exponents) values) :
    multiPow bases exponents N = .ok (canonical values.prod) := by
  have hprod := prodPow_ok hN h 1
  rw [canonical_one hN, one_mul] at hprod
  rw [multiPow, if_neg (not_not.mpr hlen), hprod]

/-- The product of the powers of some units. -/
def unitProduct (us : List (Residue N)ˣ) (es : List Int) : (Residue N)ˣ :=
  (List.zipWith (fun u e => u ^ e) us es).prod

/-- **The product of powers of several units** never fails, and is their product in the group of
units. -/
theorem multiPow_units (hN : 2 ≤ N) {bases es : List Int} {us : List (Residue N)ˣ}
    (hbases : List.Forall₂ (fun (b : Int) (u : (Residue N)ˣ) => (b : Residue N) = u) bases us)
    (hlen : bases.length = es.length) :
    multiPow bases es N = .ok (canonical (unitProduct us es : Residue N)) := by
  have hpowers : List.Forall₂ (fun pair v => pow pair.1 pair.2 N = .ok (canonical v))
      (bases.zip es) ((List.zipWith (fun u e => u ^ e) us es).map Units.val) := by
    induction hbases generalizing es with
    | nil => exact .nil
    | cons hb _ ih =>
        cases es with
        | nil => exact .nil
        | cons e es =>
            refine .cons (pow_of_unit hN hb e) (ih ?_)
            simpa using hlen
  rw [multiPow_ok hN hlen hpowers, unitProduct, ← Units.coeHom_apply, map_list_prod]
  rfl

lemma multiPow_pair (hN : 2 ≤ N) {a b : Int} {u v : (Residue N)ˣ} (ha : (a : Residue N) = u)
    (hb : (b : Residue N) = v) (x y : Int) :
    multiPow [a, b] [x, y] N = .ok (canonical ((u ^ x * v ^ y : (Residue N)ˣ) : Residue N)) := by
  have hlen : [a, b].length = [x, y].length := rfl
  have hproduct := multiPow_units hN (.cons ha (.cons hb .nil)) hlen
  rwa [unitProduct, List.zipWith_cons_cons, List.zipWith_cons_cons, List.zipWith_nil_left,
    List.prod_cons, List.prod_singleton] at hproduct

end Modular

end HiddenOrder
