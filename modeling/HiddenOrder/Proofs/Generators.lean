import HiddenOrder.Group.Setup
import HiddenOrder.Proofs.Jacobi
import HiddenOrder.Proofs.Residue
import Mathlib.GroupTheory.OrderOfElement
import Mathlib.RingTheory.Coprime.Lemmas

/-!
# Generators of the squares

For safe primes `p = 2a + 1` and `q = 2b + 1` the squares among the units modulo `p q` have the order
`a b`, a product of two primes.  An element whose Jacobi symbols are one has an order that divides
`a b`, and the two powers that a generator must not have equal to one exclude all divisors but `a b`
itself.  A power of a generator is a square again, but a generator only when the exponent shares no
factor with `a b`: of the exponents below the order, the multiples of `a` and of `b` give elements of
the orders `b` and `a`.

* `Trapdoor.Safe` — the factors are distinct safe primes.
* `Trapdoor.Generates` — what it is to generate the squares.
* **`Trapdoor.Safe.isGenerator_decides`** — the check decides it.
* **`Trapdoor.Safe.generates_pow_iff`** — which powers of a generator are generators.
-/

namespace HiddenOrder

/-! ## Orders that divide a product of two primes -/

section Order

variable {M : Type} [Monoid M] {x : M} {a b : ℕ}

lemma orderOf_eq_mul_iff (ha : a.Prime) (hb : b.Prime) (h : x ^ (a * b) = 1) :
    orderOf x = a * b ↔ x ^ a ≠ 1 ∧ x ^ b ≠ 1 := by
  rw [ne_eq, ne_eq, ← orderOf_dvd_iff_pow_eq_one, ← orderOf_dvd_iff_pow_eq_one]
  constructor
  · intro horder
    rw [horder]
    refine ⟨fun hdvd => ?_, fun hdvd => ?_⟩
    · have := Nat.le_of_dvd ha.pos hdvd
      have := Nat.mul_le_mul_left a hb.two_le
      have := ha.pos
      omega
    · have := Nat.le_of_dvd hb.pos hdvd
      have := Nat.mul_le_mul_right b ha.two_le
      have := hb.pos
      omega
  · rintro ⟨hnota, hnotb⟩
    obtain ⟨d, e, hd, he, horder⟩ := Nat.dvd_mul.mp (orderOf_dvd_of_pow_eq_one h)
    -- a divisor of `a b` that divides neither factor takes both of them whole
    rcases (Nat.dvd_prime ha).mp hd with rfl | rfl
    · rw [one_mul] at horder
      exact absurd (horder ▸ he) hnotb
    · rcases (Nat.dvd_prime hb).mp he with rfl | rfl
      · rw [mul_one] at horder
        exact absurd horder.symm.dvd hnota
      · exact horder.symm

end Order

/-! ## Powers and the Jacobi symbol -/

section Symbol

variable {p : ℕ} [Fact p.Prime] {g N : ℤ}

/-- **Euler's criterion**: a number with the symbol one has a power of one, and then every multiple
of the exponent gives one as well. -/
lemma dvd_pow_sub_one_of_jacobi [DigitLimit] (hp : p % 2 = 1) (h : jacobi g p = .ok 1) (k : ℕ) :
    (p : ℤ) ∣ g ^ (p / 2 * k) - 1 := by
  have hhalf : (p : ℤ) ∣ g ^ (p / 2) - 1 := by
    rw [jacobi_of_prime hp, Except.ok.injEq] at h
    rw [← ZMod.intCast_zmod_eq_zero_iff_dvd, Int.cast_sub, Int.cast_pow, ← legendreSym.eq_pow, h]
    simp
  have hpow := hhalf.trans (sub_dvd_pow_sub_pow (g ^ (p / 2)) 1 k)
  rwa [one_pow, ← pow_mul] at hpow

/-- A power of a number with the symbol one has the symbol one. -/
lemma jacobi_pow [DigitLimit] (hp : p % 2 = 1) (hdvd : (p : ℤ) ∣ N) (h : jacobi g p = .ok 1)
    (r : ℕ) : jacobi (g ^ r % N) p = .ok 1 := by
  rw [jacobi_of_prime hp, Except.ok.injEq] at h ⊢
  rw [legendreSym.mod, Int.emod_emod_of_dvd _ hdvd, ← legendreSym.mod,
    jacobiSym.legendreSym.to_jacobiSym, jacobiSym.pow_left, ← jacobiSym.legendreSym.to_jacobiSym, h,
    one_pow]

end Symbol

/-! ## Safe primes -/

namespace Trapdoor

/-- The factors are distinct safe primes, twice the primes `a` and `b` and one. -/
structure Safe (t : Trapdoor) (a b : ℕ) : Prop where
  p_eq : t.p = (2 * a + 1 : ℕ)
  q_eq : t.q = (2 * b + 1 : ℕ)
  prime_a : a.Prime
  prime_b : b.Prime
  prime_p : (2 * a + 1).Prime
  prime_q : (2 * b + 1).Prime
  ne : a ≠ b

/-- A unit that is a square modulo both factors and has the order of the subgroup of squares. -/
structure Generates [DigitLimit] (t : Trapdoor) (g : ℤ) : Prop where
  range : 1 < g ∧ g < t.N
  unit : Int.gcd g t.N = 1
  square_p : jacobi g t.p = .ok 1
  square_q : jacobi g t.q = .ok 1
  order : (orderOf (g : Residue t.N) : ℤ) = t.order

namespace Safe

variable {t : Trapdoor} {a b : ℕ} {g : ℤ}

lemma N_eq (h : t.Safe a b) : t.N = ((2 * a + 1) * (2 * b + 1) : ℕ) := by
  rw [N, h.p_eq, h.q_eq, Nat.cast_mul]

lemma coprime (h : t.Safe a b) : (2 * a + 1).Coprime (2 * b + 1) := by
  refine (Nat.coprime_primes h.prime_p h.prime_q).mpr ?_
  have := h.ne
  omega

lemma two_le_N (h : t.Safe a b) : 2 ≤ t.N := by
  have := Nat.mul_le_mul h.prime_p.two_le h.prime_q.one_le
  rw [h.N_eq]
  omega

lemma order_eq (h : t.Safe a b) : t.order = (a * b : ℕ) := by
  rw [order, h.p_eq, h.q_eq, Nat.cast_mul]
  congr 1 <;> omega

lemma jacobi_ok [DigitLimit] (h : t.Safe a b) (g : ℤ) :
    (∃ s, jacobi g t.p = .ok s) ∧ ∃ s, jacobi g t.q = .ok s := by
  have := Fact.mk h.prime_p
  have := Fact.mk h.prime_q
  rw [h.p_eq, h.q_eq]
  exact ⟨⟨_, jacobi_of_prime (by omega) g⟩, ⟨_, jacobi_of_prime (by omega) g⟩⟩

/-- **The order of a square modulo both factors** divides the order of the subgroup. -/
lemma pow_order [DigitLimit] (h : t.Safe a b) (hp : jacobi g t.p = .ok 1)
    (hq : jacobi g t.q = .ok 1) : (g : Residue t.N) ^ (a * b) = 1 := by
  have := Fact.mk h.prime_p
  have := Fact.mk h.prime_q
  rw [h.p_eq] at hp
  rw [h.q_eq] at hq
  have hdvdp := dvd_pow_sub_one_of_jacobi (by omega) hp b
  have hdvdq := dvd_pow_sub_one_of_jacobi (by omega) hq a
  rw [show (2 * a + 1) / 2 = a by omega] at hdvdp
  rw [show (2 * b + 1) / 2 = b by omega, mul_comm b a] at hdvdq
  have hcoprime : IsCoprime ((2 * a + 1 : ℕ) : ℤ) ((2 * b + 1 : ℕ) : ℤ) :=
    Nat.isCoprime_iff_coprime.mpr h.coprime
  have hdvd : t.N ∣ g ^ (a * b) - 1 := by
    rw [h.N_eq, Nat.cast_mul]
    exact hcoprime.mul_dvd hdvdp hdvdq
  have hone := (cast_eq_iff_dvd h.two_le_N).mpr hdvd
  rwa [Int.cast_pow, Int.cast_one] at hone

/-- For a square modulo both factors, the powers that the check computes decide its order. -/
lemma isGenerator_of_square [DigitLimit] (h : t.Safe a b) (hrange : 1 < g ∧ g < t.N)
    (hunit : Int.gcd g t.N = 1) (hp : jacobi g t.p = .ok 1) (hq : jacobi g t.q = .ok 1) :
    Decides (t.isGenerator g) ((g : Residue t.N) ^ a ≠ 1 ∧ (g : Residue t.N) ^ b ≠ 1) := by
  have hN := h.two_le_N
  have hpowp : Modular.pow g (t.p / 2) t.N = .ok (canonical ((g : Residue t.N) ^ a)) := by
    rw [h.p_eq, Modular.pow_of_nonneg hN g (by omega)]
    congr 3
    omega
  have hpowq : Modular.pow g (t.q / 2) t.N = .ok (canonical ((g : Residue t.N) ^ b)) := by
    rw [h.q_eq, Modular.pow_of_nonneg hN g (by omega)]
    congr 3
    omega
  rw [isGenerator, if_neg (by simp [hrange, hunit]), hp, ok_bind, if_neg (not_not.mpr rfl), hq,
    ok_bind, if_neg (not_not.mpr rfl), hpowp, ok_bind]
  by_cases hone : (g : Residue t.N) ^ a = 1
  · rw [if_pos ((canonical_eq_one hN).mpr hone)]
    exact ⟨false, rfl, by simp [hone]⟩
  · rw [if_neg (mt (canonical_eq_one hN).mp hone), hpowq, ok_bind]
    exact ⟨_, rfl, by simp [hone, canonical_eq_one hN]⟩

/-- **The check decides** whether an element generates the squares. -/
theorem isGenerator_decides [DigitLimit] (h : t.Safe a b) (g : ℤ) :
    Decides (t.isGenerator g) (t.Generates g) := by
  obtain ⟨⟨s, hs⟩, s', hs'⟩ := h.jacobi_ok g
  by_cases hrange : (1 < g ∧ g < t.N) ∧ Int.gcd g t.N = 1
  · by_cases hp : s = 1
    · by_cases hq : s' = 1
      · subst hp hq
        have horder := orderOf_eq_mul_iff h.prime_a h.prime_b (h.pow_order hs hs')
        obtain ⟨verdict, hverdict, hpowers⟩ := h.isGenerator_of_square hrange.1 hrange.2 hs hs'
        refine ⟨verdict, hverdict, hpowers.trans ⟨fun hne => ?_, fun hgen => ?_⟩⟩
        · exact ⟨hrange.1, hrange.2, hs, hs', by rw [h.order_eq, horder.mpr hne]⟩
        · refine horder.mp ?_
          exact_mod_cast hgen.order.trans h.order_eq
      · refine .of_false ?_ fun hgen => hq (Except.ok.inj (hs'.symm.trans hgen.square_q))
        rw [isGenerator, if_neg (by simp [hrange]), hs, ok_bind, if_neg (not_not.mpr hp), hs',
          ok_bind, if_pos hq, pure_eq_ok]
    · refine .of_false ?_ fun hgen => hp (Except.ok.inj (hs.symm.trans hgen.square_p))
      rw [isGenerator, if_neg (by simp [hrange]), hs, ok_bind, if_pos hp, pure_eq_ok]
  · refine .of_false ?_ fun hgen => hrange ⟨hgen.range, hgen.unit⟩
    rw [isGenerator, if_pos (by rw [← not_and_or]; exact hrange), pure_eq_ok]

/-! ## Powers of a generator -/

lemma jacobi_pow [DigitLimit] (h : t.Safe a b) (hg : t.Generates g) (k : ℕ) :
    jacobi (g ^ k % t.N) t.p = .ok 1 ∧ jacobi (g ^ k % t.N) t.q = .ok 1 := by
  have := Fact.mk h.prime_p
  have := Fact.mk h.prime_q
  have hp := hg.square_p
  have hq := hg.square_q
  rw [h.p_eq] at hp ⊢
  rw [h.q_eq] at hq ⊢
  refine ⟨HiddenOrder.jacobi_pow (by omega) ?_ hp k, HiddenOrder.jacobi_pow (by omega) ?_ hq k⟩
  · rw [h.N_eq, Nat.cast_mul]
    exact Int.dvd_mul_right _ _
  · rw [h.N_eq, Nat.cast_mul]
    exact Int.dvd_mul_left _ _

/-- A power of a generator to an exponent below the order is not one. -/
lemma pow_ne_one [DigitLimit] (hg : t.Generates g) {k : ℕ} (hk : 0 < k) (hlt : (k : ℤ) < t.order) :
    (g : Residue t.N) ^ k ≠ 1 := by
  intro hone
  have hle := Nat.le_of_dvd hk (orderOf_dvd_of_pow_eq_one hone)
  have := hg.order
  omega

/-- **Which powers of a generator are generators.**  The power to an exponent below the order is a
unit above one and a square modulo both factors, and it is a generator exactly when the exponent
shares no factor with the order. -/
theorem generates_pow_iff [DigitLimit] (h : t.Safe a b) (hg : t.Generates g) {r v : ℤ} (hr : 1 ≤ r)
    (hlt : r < t.order) (hv : Modular.pow g r t.N = .ok v) :
    (1 < v ∧ v < t.N) ∧ Int.gcd v t.N = 1 ∧ jacobi v t.p = .ok 1 ∧ jacobi v t.q = .ok 1 ∧
      (t.Generates v ↔ Int.gcd r t.order = 1) := by
  have hN := h.two_le_N
  obtain ⟨k, rfl⟩ := Int.eq_ofNat_of_zero_le (show 0 ≤ r by omega)
  rw [Modular.pow_of_nonneg hN g (Int.natCast_nonneg k), Int.toNat_natCast, Except.ok.injEq] at hv
  have hunit : IsUnit ((g : Residue t.N) ^ k) := ((isUnit_cast_iff hN g).mpr hg.unit).pow k
  have hcast : (v : Residue t.N) = (g : Residue t.N) ^ k := by rw [← hv, cast_canonical hN]
  have hmod : v = g ^ k % t.N := by rw [← hv, ← Int.cast_pow, canonical_cast hN]
  have hone : v ≠ 1 := by
    rw [← hv]
    exact mt (canonical_eq_one hN).mp (pow_ne_one hg (by omega) hlt)
  have hpos : 0 < v := hv ▸ canonical_pos hN hunit
  have hrange : 1 < v ∧ v < t.N := ⟨by omega, hv ▸ canonical_lt hN _⟩
  have hgcd : Int.gcd v t.N = 1 := (isUnit_cast_iff hN v).mp (hcast ▸ hunit)
  have hsquare := h.jacobi_pow hg k
  rw [← hmod] at hsquare
  refine ⟨hrange, hgcd, hsquare.1, hsquare.2, ?_⟩
  -- the order of the power is that of the generator divided by the common factor
  have horder : orderOf (v : Residue t.N) = a * b / Nat.gcd (a * b) k := by
    have hgen : orderOf (g : Residue t.N) = a * b := by exact_mod_cast hg.order.trans h.order_eq
    rw [hcast, orderOf_pow' _ (by omega), hgen]
  have hab : 0 < a * b := Nat.mul_pos h.prime_a.pos h.prime_b.pos
  rw [h.order_eq, Int.gcd_natCast_natCast, Nat.gcd_comm]
  constructor
  · intro hgen
    have hfull : a * b / Nat.gcd (a * b) k = a * b := by
      rw [← horder]
      exact_mod_cast hgen.order.trans h.order_eq
    exact (Nat.div_eq_self.mp hfull).resolve_left hab.ne'
  · intro hcoprime
    rw [hcoprime, Nat.div_one] at horder
    exact ⟨hrange, hgcd, hsquare.1, hsquare.2, by rw [horder, h.order_eq]⟩

end Safe

end Trapdoor

end HiddenOrder
