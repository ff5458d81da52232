import HiddenOrder.Proofs.Setup

/-!
# Fresh parameters are well formed

A setup makes a number of random choices, rejects some of them, and ends in a check: parameters
whose generators are out of range, or share a factor with the modulus, are refused.  The check never
refuses anything.  The factors are distinct safe primes, so the interval of candidates and the one
of exponents are not empty; what passes for a generator generates the squares; and a power of it to
an exponent below the order is a unit other than one.  So a setup fails with the source or with the
trials, and what it returns has all the properties that the protocols ask for.

* `Trapdoor.Safe.findGenerator_ends`, **`Trapdoor.Safe.chooseGenerators_ends`** — the choice of the
  generators, for safe primes.
* **`setup_ends`** — how a setup fails.
* `Fresh` — what is asked of fresh parameters.
* **`setup_fresh`** — a setup of enough bits returns such parameters, unless the source or the
  trials fail.
-/

namespace HiddenOrder

/-- The ways in which a setup of so many bits fails: the search for one of the safe primes does, the
source does, or the steps are spent. -/
inductive SetupFailure [DigitLimit] (bits : ℤ) : Error → Prop where
  | safePrime {k : ℤ} {e : Error} (hk : k ∈ [bits / 2, bits - bits / 2])
      (h : SafePrimeFailure k e) : SetupFailure bits e
  | source : SetupFailure bits .randomnessExhausted
  | unended : SetupFailure bits .outOfSteps

/-- A number whose Jacobi symbol over an odd prime is one is a square modulo it. -/
lemma square_of_jacobi [DigitLimit] {p : ℕ} (hprime : p.Prime) (hp : p % 2 = 1) {v : ℤ}
    (h : jacobi v p = .ok 1) : ∃ y, y ^ 2 ≡ v [ZMOD p] := by
  have := Fact.mk hprime
  obtain ⟨-, y, hy⟩ := (jacobi_eq_one_iff hp).mp h
  refine ⟨y.val, (ZMod.intCast_eq_intCast_iff _ _ p).mp ?_⟩
  rw [Int.cast_pow, Int.cast_natCast, ZMod.natCast_zmod_val, hy, sq]

/-! ## The choice of the generators -/

namespace Trapdoor.Safe

variable {t : Trapdoor} {a b : ℕ} {E : Error → Prop}

/-- Both factors are at least five. -/
lemma three_lt_N (h : t.Safe a b) : 3 < t.N := by
  have hp : 5 ≤ 2 * a + 1 := by
    have := h.prime_a.two_le
    omega
  have := Nat.mul_le_mul hp h.prime_q.two_le
  rw [h.N_eq]
  omega

lemma one_lt_order (h : t.Safe a b) : 1 < t.order := by
  have := Nat.mul_le_mul h.prime_a.two_le h.prime_b.two_le
  rw [h.order_eq]
  omega

/-- What the search for a generator finds is one. -/
lemma findGenerator_ends [DigitLimit] (h : t.Safe a b) (o : Oracles)
    (hsource : E .randomnessExhausted) (hsteps : E .outOfSteps) (steps : ℕ) :
    Ends (fun _ => True) (t.findGenerator o steps) t.Generates E := by
  have hN := h.three_lt_N
  induction steps with
  | zero => exact .throw hsteps
  | succ steps ih =>
      rw [findGenerator]
      refine (Entropy.range_ends o.source (by omega) hsource).bind fun g _ => ?_
      obtain ⟨verdict, hverdict, hgenerates⟩ := h.isGenerator_decides g
      rw [hverdict]
      cases verdict with
      | true => exact .pure (hgenerates.mp rfl)
      | false => exact ih

/-- **The final check refuses nothing**: a generator of the squares and a power of it are another
pair of generators. -/
theorem chooseGenerators_ends [DigitLimit] (h : t.Safe a b) (o : Oracles)
    (hsource : E .randomnessExhausted) (hsteps : E .outOfSteps) :
    Ends (fun _ => True) (chooseGenerators o t) (ChosenGenerators t) E := by
  have hN := h.three_lt_N
  have horder := h.one_lt_order
  have hends : Ends (fun _ => True) (chooseGenerators o t) (fun _ => True) E := by
    rw [chooseGenerators]
    refine (h.findGenerator_ends o hsource hsteps o.steps).bind fun G hG => ?_
    have hexponent : Ends (fun _ => True) (o.source.range 1 (t.order - 1)) (fun _ => True) E :=
      Entropy.range_ends o.source (by omega) hsource
    refine (hexponent.strengthen fun _ _ _ => Entropy.bounds_of_range).bind fun r hr => ?_
    obtain ⟨-, hr₁, hr₂⟩ := hr
    obtain ⟨H, hH⟩ : ∃ H, Modular.pow G r t.N = .ok H :=
      ⟨_, Modular.pow_of_nonneg h.two_le_N G (by omega)⟩
    obtain ⟨hrange, hunit, -⟩ := h.generates_pow_iff hG hr₁ (by omega) hH
    have hpp : GroupParameters.of t.N G H = .ok ⟨t.N, G, H, by omega, hG.range.1, hG.range.2,
        hG.unit, hrange.1, hrange.2, hunit⟩ :=
      GroupParameters.of_eq_ok.mpr ⟨rfl, rfl, rfl⟩
    rw [hH]
    show Ends _ (Draw.ofExcept (GroupParameters.of t.N G H)) _ _
    rw [hpp]
    exact .pure trivial
  exact (hends.strengthen fun _ _ _ => chooseGenerators_eq_ok).mono (fun _ hpp => hpp.2)
    fun _ he => he

end Trapdoor.Safe

/-! ## The setup -/

section

variable {o : Oracles} {cfg : Settings} {bits : ℤ} {pp : GroupParameters} {t : Trapdoor} {i j : ℕ}

/-- **How a setup fails**: with the source, or with the search for a safe prime. -/
theorem setup_ends [DigitLimit] (hexact : ∀ n, o.isPrime n = true ↔ n.Prime) (cfg : Settings)
    (hbits : 32 ≤ bits) :
    Ends (fun _ => True) (setup o cfg bits) (fun _ => True) (SetupFailure bits) := by
  have hprime {k : ℤ} (hmem : k ∈ [bits / 2, bits - bits / 2]) (hk : 16 ≤ k) :=
    (safePrime_ends o cfg hk).mono (fun _ hp => hp) fun _ => SetupFailure.safePrime hmem
  rw [setup, if_neg (by rw [leastSetupBits]; omega)]
  refine (hprime List.mem_cons_self (by omega)).bind fun p hp => ?_
  have hagain := hprime (k := bits - bits / 2) (by simp) (by omega)
  refine hagain.bind fun q₀ hq₀ => ?_
  refine (distinctFrom_ends hagain .unended o.steps hq₀).bind fun q hq => ?_
  obtain ⟨a, b, hsafe⟩ := hp.safe hexact hq.1 hq.2
  exact (hsafe.chooseGenerators_ends o .source .unended).bind fun pp _ => .pure trivial

/-- What is asked of fresh parameters of so many bits with the factors of their modulus. -/
structure Fresh (bits : ℤ) (pp : GroupParameters) (t : Trapdoor) : Prop where
  ne : t.p ≠ t.q
  length_p : (bitLength t.p.toNat : ℤ) = bits / 2
  length_q : (bitLength t.q.toNat : ℤ) = bits - bits / 2
  prime_p : t.p.toNat.Prime
  prime_q : t.q.toNat.Prime
  prime_half_p : ((t.p - 1) / 2).toNat.Prime
  prime_half_q : ((t.q - 1) / 2).toNat.Prime
  modulus : pp.N = t.p * t.q
  /-- The second generator is a power of the first one. -/
  power : ∃ r, 1 ≤ r ∧ r < t.order ∧ pp.H = pp.G ^ r.toNat % pp.N
  square_p : ∃ y, y ^ 2 ≡ pp.H [ZMOD t.p]
  square_q : ∃ y, y ^ 2 ≡ pp.H [ZMOD t.q]
  ne_one : pp.H ≠ 1
  /-- The order of the second generator divides that of the subgroup of squares. -/
  order : pp.H ^ ((t.p - 1) / 2 * ((t.q - 1) / 2)).toNat % pp.N = 1

/-- What a setup returns is fresh. -/
lemma fresh_of_setup [DigitLimit] (hexact : ∀ n, o.isPrime n = true ↔ n.Prime)
    (h : setup o cfg bits i = .ok (pp, t) j) : Fresh bits pp t := by
  obtain ⟨hbits, hchosen, p, q, rfl, hne, hp, hq⟩ := setup_eq_ok h
  obtain ⟨a, b, hsafe⟩ := hp.safe hexact hq hne
  have ha : (p : ℤ) = (2 * a + 1 : ℕ) := hsafe.p_eq
  have hb : (q : ℤ) = (2 * b + 1 : ℕ) := hsafe.q_eq
  have hgen := (hsafe.isGenerator_decides pp.G).eq_true_iff.mp hchosen.first
  obtain ⟨r, hr, hlt, hpow⟩ := hchosen.second
  obtain ⟨hrange, -, hsymp, hsymq, -⟩ := hsafe.generates_pow_iff hgen hr hlt hpow
  have hN := hsafe.two_le_N
  have hne' : (p : ℤ) ≠ q := by exact_mod_cast hne.symm
  refine ⟨hne', ?_, ?_, (hexact p).mp hp.prime, (hexact q).mp hq.prime, ?_, ?_,
    hchosen.modulus, ⟨r, hr, hlt, ?_⟩, ?_, ?_, by omega, ?_⟩
  · rw [Int.toNat_natCast, hp.bitLength]
    omega
  · rw [Int.toNat_natCast, hq.bitLength]
    omega
  · rw [show ((p - 1 : ℤ) / 2).toNat = a by omega]
    exact hsafe.prime_a
  · rw [show ((q - 1 : ℤ) / 2).toNat = b by omega]
    exact hsafe.prime_b
  · rw [Modular.pow_of_nonneg hN pp.G (by omega), Except.ok.injEq, ← Int.cast_pow,
      canonical_cast hN] at hpow
    rw [← hpow, hchosen.modulus]
  · exact square_of_jacobi ((hexact p).mp hp.prime) (by omega) hsymp
  · exact square_of_jacobi ((hexact q).mp hq.prime) (by omega) hsymq
  · have hone := hsafe.pow_order hsymp hsymq
    rw [← Int.cast_pow, ← canonical_eq_one hN, canonical_cast hN] at hone
    rw [hchosen.modulus, show ((p - 1 : ℤ) / 2 * ((q - 1) / 2)).toNat = a * b by
      rw [show (p - 1 : ℤ) / 2 = a by omega, show (q - 1 : ℤ) / 2 = b by omega]
      exact Int.toNat_natCast (a * b)]
    exact hone

/-- **Fresh parameters are well formed.** -/
theorem setup_fresh [DigitLimit] (hexact : ∀ n, o.isPrime n = true ↔ n.Prime) (cfg : Settings)
    (hbits : 32 ≤ bits) (i : ℕ) :
    (∃ pp t j, setup o cfg bits i = .ok (pp, t) j ∧ Fresh bits pp t) ∨
      ∃ e j, setup o cfg bits i = .error e j ∧ SetupFailure bits e := by
  rcases (setup_ends hexact cfg hbits).outcome (s := i) trivial with
    ⟨⟨pp, t⟩, j, hrun, -⟩ | ⟨e, j, hrun, he, -⟩
  · exact .inl ⟨pp, t, j, hrun, fresh_of_setup hexact hrun⟩
  · exact .inr ⟨e, j, hrun, he⟩

open Unlimited in
/-- The least length, and the draws of a valid choice. -/
theorem setup_fresh_65123 :
    ∃ pp t j, setup (tapeOracles (choiceTape 32561 32633 4 1)) .standard 32 0 = .ok (pp, t) j ∧
      Fresh 32 pp t := by
  obtain ⟨pp, hrun, -⟩ := setup_of_choice (g := 4) (r := 1) safe_65123_65267
    (by decide : (32 : ℤ) ≤ 32) (writable_off 32) (by decide) (by decide) (by cbv) (by decide)
    (by decide)
  rcases setup_fresh (tapeOracles_exact (choiceTape 32561 32633 4 1)) .standard
    (by decide : (32 : ℤ) ≤ 32) 0 with hfresh | ⟨e, j, hfailed, -⟩
  · exact hfresh
  · rw [hrun] at hfailed
    cases hfailed

end

end HiddenOrder
