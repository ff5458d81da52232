import HiddenOrder.Proofs.Generators
import Mathlib.FieldTheory.Finite.Basic
import Mathlib.GroupTheory.SpecificGroups.Cyclic
import Mathlib.RingTheory.IntegralDomain
import Mathlib.Tactic.NormNum.Prime

/-!
# The squares among the units

The check for a generator computes two symbols and two powers.  What it is there for is said without
them: the powers of the element are to be all squares of units, and nothing else.  For safe primes
`p = 2a + 1` and `q = 2b + 1` the two agree, because there are exactly `a b` such squares.  Modulo
each factor the units are cyclic of even order, so half of them are squares, and modulo the product a
pair of squares is a square by the Chinese remainder theorem.  A square of a unit whose order is
`a b` therefore has all of them among its powers.

* `unitSquares` — the subgroup of squares of units.
* **`card_unitSquares_of_prime`**, **`card_unitSquares_mul`** — how many there are.
* **`isSquare_intCast_mul`** — a square modulo a product is one modulo both factors.
* `Trapdoor.Safe.mem_unitSquares_iff`, `Trapdoor.Safe.zpowers_eq_iff` — what the symbols and the
  order say of an element.
* **`isGenerator_iff_powers`** — the check asks whether the powers are the squares of units.
-/

namespace HiddenOrder

/-! ## Squares modulo a prime and modulo a product -/

section Squares

variable {m n : ℕ}

/-- The squares among the units modulo `n`. -/
def unitSquares (n : ℕ) : Subgroup (ZMod n)ˣ := (powMonoidHom 2).range

lemma mem_unitSquares {u : (ZMod n)ˣ} : u ∈ unitSquares n ↔ ∃ v, v ^ 2 = u := Iff.rfl

/-- A unit that is a square at all is the square of a unit. -/
lemma mem_unitSquares_iff_isSquare {u : (ZMod n)ˣ} :
    u ∈ unitSquares n ↔ IsSquare (u : ZMod n) := by
  rw [mem_unitSquares, isSquare_iff_exists_sq]
  constructor
  · rintro ⟨v, rfl⟩
    exact ⟨v, Units.val_pow_eq_pow_val v 2⟩
  · rintro ⟨r, hr⟩
    have hunit : IsUnit r := (isUnit_pow_iff two_ne_zero).mp (hr ▸ u.isUnit)
    refine ⟨hunit.unit, Units.ext ?_⟩
    rw [Units.val_pow_eq_pow_val, IsUnit.unit_spec, hr]

/-- **Modulo an odd prime** half of the units are squares. -/
theorem card_unitSquares_of_prime {a : ℕ} (hp : (2 * a + 1).Prime) :
    Nat.card (unitSquares (2 * a + 1)) = a := by
  have := Fact.mk hp
  have hunits : Nat.card (ZMod (2 * a + 1))ˣ = 2 * a := by
    rw [Nat.card_eq_fintype_card, ZMod.card_units, Nat.add_sub_cancel]
  rw [unitSquares, IsCyclic.card_powMonoidHom_range, hunits, Nat.gcd_mul_right_left,
    Nat.mul_div_cancel_left a two_pos]

/-- Units modulo a product are pairs of units modulo its factors. -/
noncomputable def unitsMul (h : m.Coprime n) : (ZMod (m * n))ˣ ≃* (ZMod m)ˣ × (ZMod n)ˣ :=
  (Units.mapEquiv (ZMod.chineseRemainder h).toMulEquiv).trans MulEquiv.prodUnits

lemma range_sq_prod (G H : Type) [CommGroup G] [CommGroup H] :
    (powMonoidHom 2 : G × H →* G × H).range
      = (powMonoidHom 2 : G →* G).range.prod (powMonoidHom 2 : H →* H).range := by
  ext ⟨x, y⟩
  simp [Subgroup.mem_prod, MonoidHom.mem_range]

/-- **Modulo a product** every pair of squares counts. -/
theorem card_unitSquares_mul (h : m.Coprime n) :
    Nat.card (unitSquares (m * n)) = Nat.card (unitSquares m) * Nat.card (unitSquares n) := by
  have hmap : (unitSquares (m * n)).map (unitsMul h : (ZMod (m * n))ˣ →* (ZMod m)ˣ × (ZMod n)ˣ)
      = (unitSquares m).prod (unitSquares n) :=
    ((unitsMul h).map_range_powMonoidHom 2).trans (range_sq_prod _ _)
  rw [Nat.card_congr ((unitsMul h).subgroupMap (unitSquares (m * n))).toEquiv, hmap,
    Nat.card_congr (Subgroup.prodEquiv _ _).toEquiv, Nat.card_prod]

/-- **A square modulo a product** is a square modulo both factors. -/
theorem isSquare_intCast_mul (h : m.Coprime n) (g : ℤ) :
    IsSquare (g : ZMod (m * n)) ↔ IsSquare (g : ZMod m) ∧ IsSquare (g : ZMod n) := by
  have hpair : ZMod.chineseRemainder h (g : ZMod (m * n)) = ((g : ZMod m), (g : ZMod n)) :=
    map_intCast _ g
  constructor
  · intro hsquare
    have hboth := hsquare.map (ZMod.chineseRemainder h)
    rw [hpair] at hboth
    exact ⟨hboth.map (MonoidHom.fst _ _), hboth.map (MonoidHom.snd _ _)⟩
  · rintro ⟨⟨x, hx⟩, y, hy⟩
    have hboth : IsSquare (ZMod.chineseRemainder h (g : ZMod (m * n))) :=
      ⟨(x, y), by rw [hpair, hx, hy, Prod.mk_mul_mk]⟩
    have hsquare := hboth.map (ZMod.chineseRemainder h).symm
    rwa [RingEquiv.symm_apply_apply] at hsquare

end Squares

/-! ## Safe primes -/

/-- An integer without a common factor with `N` is not zero modulo a prime factor of it. -/
lemma cast_ne_zero_of_gcd {p : ℕ} (hp : p.Prime) {g N : ℤ} (hdvd : (p : ℤ) ∣ N)
    (hg : Int.gcd g N = 1) : (g : ZMod p) ≠ 0 := by
  intro hzero
  rw [ZMod.intCast_zmod_eq_zero_iff_dvd] at hzero
  have hone := Int.dvd_coe_gcd hzero hdvd
  rw [hg] at hone
  exact hp.one_lt.ne' (Nat.dvd_one.mp (Int.natCast_dvd_natCast.mp hone))

namespace Trapdoor.Safe

variable {t : Trapdoor} {a b : ℕ} {g : ℤ} {u : (Residue t.N)ˣ}

lemma toNat_N (h : t.Safe a b) : t.N.toNat = (2 * a + 1) * (2 * b + 1) := by
  rw [h.N_eq, Int.toNat_natCast]

/-- **As many squares of units** as the order of the subgroup says. -/
theorem card_unitSquares (h : t.Safe a b) : Nat.card (unitSquares t.N.toNat) = a * b := by
  rw [h.toNat_N, card_unitSquares_mul h.coprime, card_unitSquares_of_prime h.prime_p,
    card_unitSquares_of_prime h.prime_q]

/-- **The two symbols** recognise the squares of units. -/
theorem mem_unitSquares_iff [DigitLimit] (h : t.Safe a b) (hu : (g : Residue t.N) = u) :
    u ∈ unitSquares t.N.toNat ↔ jacobi g t.p = .ok 1 ∧ jacobi g t.q = .ok 1 := by
  have := Fact.mk h.prime_p
  have := Fact.mk h.prime_q
  have hunit : Int.gcd g t.N = 1 := (isUnit_cast_iff h.two_le_N g).mp (hu ▸ u.isUnit)
  have hp : (g : ZMod (2 * a + 1)) ≠ 0 :=
    cast_ne_zero_of_gcd h.prime_p (by rw [← h.p_eq]; exact Int.dvd_mul_right _ _) hunit
  have hq : (g : ZMod (2 * b + 1)) ≠ 0 :=
    cast_ne_zero_of_gcd h.prime_q (by rw [← h.q_eq]; exact Int.dvd_mul_left _ _) hunit
  have hsplit := isSquare_intCast_mul h.coprime g
  rw [← h.toNat_N] at hsplit
  rw [mem_unitSquares_iff_isSquare, ← hu, hsplit, h.p_eq, h.q_eq, jacobi_eq_one_iff (by omega),
    jacobi_eq_one_iff (by omega), and_iff_right hp, and_iff_right hq]

/-- **The order** tells whether the powers of a square are all of them. -/
theorem zpowers_eq_iff (h : t.Safe a b) (hu : u ∈ unitSquares t.N.toNat) :
    Subgroup.zpowers u = unitSquares t.N.toNat ↔ orderOf u = a * b := by
  -- the units are finitely many, so a subgroup of as many elements is the whole of the other one
  have := neZero_toNat h.two_le_N
  rw [← Nat.card_zpowers, ← h.card_unitSquares]
  refine ⟨fun heq => by rw [heq], fun hcard => ?_⟩
  exact Subgroup.eq_of_le_of_card_ge (Subgroup.zpowers_le.mpr hu) hcard.ge

/-- What a generator is, in terms of the unit that it stands for. -/
lemma generates_iff [DigitLimit] (h : t.Safe a b) :
    t.Generates g ↔ (1 < g ∧ g < t.N) ∧
      ∃ u ∈ unitSquares t.N.toNat, (g : Residue t.N) = u ∧ orderOf u = a * b := by
  constructor
  · intro hg
    have hunit := (isUnit_cast_iff h.two_le_N g).mpr hg.unit
    have hu : (g : Residue t.N) = hunit.unit := hunit.unit_spec.symm
    have hsquare := (h.mem_unitSquares_iff hu).mpr ⟨hg.square_p, hg.square_q⟩
    refine ⟨hg.range, hunit.unit, hsquare, hu, ?_⟩
    rw [← orderOf_units, ← hu]
    exact_mod_cast hg.order.trans h.order_eq
  · rintro ⟨hrange, u, hsquare, hu, horder⟩
    obtain ⟨hp, hq⟩ := (h.mem_unitSquares_iff hu).mp hsquare
    refine ⟨hrange, (isUnit_cast_iff h.two_le_N g).mp (hu ▸ u.isUnit), hp, hq, ?_⟩
    rw [hu, orderOf_units, horder, h.order_eq]

end Trapdoor.Safe

/-- **The check asks whether the powers are the squares.**  Let the factors be distinct safe primes,
twice `a` and `b` and one.  For every integer there is a verdict, and it is that of a number between
one and the modulus which stands for the square of a unit and has all squares of units as its
powers; or, which is the same, which stands for the square of a unit and has the order `a b`. -/
theorem isGenerator_iff_powers [DigitLimit] {t : Trapdoor} {a b : ℕ} (h : t.Safe a b) (g : ℤ) :
    Decides (t.isGenerator g) ((1 < g ∧ g < t.N) ∧
      ∃ u ∈ unitSquares t.N.toNat, (g : Residue t.N) = u ∧
        Subgroup.zpowers u = unitSquares t.N.toNat) ∧
    Decides (t.isGenerator g) ((1 < g ∧ g < t.N) ∧
      ∃ u ∈ unitSquares t.N.toNat, (g : Residue t.N) = u ∧ orderOf u = a * b) := by
  have horder := h.isGenerator_decides g
  rw [h.generates_iff] at horder
  refine ⟨?_, horder⟩
  have hpowers : (∃ u ∈ unitSquares t.N.toNat, (g : Residue t.N) = u ∧
        Subgroup.zpowers u = unitSquares t.N.toNat) ↔
      ∃ u ∈ unitSquares t.N.toNat, (g : Residue t.N) = u ∧ orderOf u = a * b :=
    exists_congr fun u => and_congr_right fun hu => and_congr_right fun _ => h.zpowers_eq_iff hu
  rwa [hpowers]

/-- The least safe prime that has an even half, and one whose half it is. -/
lemma safe_5_11 : (⟨5, 11⟩ : Trapdoor).Safe 2 5 where
  p_eq := by norm_num
  q_eq := by norm_num
  prime_a := by norm_num
  prime_b := by norm_num
  prime_p := by norm_num
  prime_q := by norm_num
  ne := by decide

open Unlimited in
theorem isGenerator_iff_powers_fiftyFive :
    (⟨5, 11⟩ : Trapdoor).Safe 2 5 ∧ (⟨5, 11⟩ : Trapdoor).isGenerator 4 = .ok true ∧
      ∃ u ∈ unitSquares 55, ((4 : ℤ) : ZMod 55) = u ∧ Subgroup.zpowers u = unitSquares 55 ∧
        orderOf u = 2 * 5 := by
  have hpass : (⟨5, 11⟩ : Trapdoor).isGenerator 4 = .ok true := by cbv
  obtain ⟨hpowers, horder⟩ := isGenerator_iff_powers safe_5_11 4
  obtain ⟨-, u, hu, hcast, hall⟩ := hpowers.eq_true_iff.mp hpass
  obtain ⟨-, u', -, hcast', hten⟩ := horder.eq_true_iff.mp hpass
  obtain rfl : u = u' := Units.ext (hcast.symm.trans hcast')
  exact ⟨safe_5_11, hpass, u, hu, hcast, hall, hten⟩

end HiddenOrder
