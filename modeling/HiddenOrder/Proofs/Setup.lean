import HiddenOrder.Group.Setup
import HiddenOrder.Proofs.Bytes
import HiddenOrder.Proofs.Challenge
import HiddenOrder.Proofs.Draws
import HiddenOrder.Proofs.Generators
import HiddenOrder.Proofs.SafePrime
import Mathlib.Tactic.NormNum.Prime

/-!
# What a setup returns

Two distinct safe primes of prescribed lengths, a generator of the squares, and a power of it to an
exponent below the order; and every such choice is made for some draws.  Two things that one might
expect of the result do not follow.  The product of two numbers of `k` and `l` bits has `k + l` bits
or one less, and the primes are drawn without regard to their product.  And a power of a generator
is itself a generator only when the exponent shares no factor with the order, which nobody asks of
the exponent that is drawn.

* **`setup_eq_ok`** — what a setup returns.
* **`setup_of_choice`** — the draws that make it return that.
* **`setup_modulus_length`**, `setup_modulus_short` — how long the modulus is.
* **`setup_generators`**, `setup_second_generator_fails` — which of the generators are generators.
-/

namespace HiddenOrder

/-! ## What is returned -/

section Setup

variable {o : Oracles} {cfg : Settings} {bits : ℤ} {pp : GroupParameters} {t : Trapdoor} {i j : ℕ}

lemma distinctFrom_ends {p : ℕ} {again : Draw ℕ} {P : ℕ → Prop} {E : Error → Prop}
    (hagain : Ends (fun _ => True) again P E) (hE : E .outOfSteps) (steps : ℕ) {q : ℕ} (hq : P q) :
    Ends (fun _ => True) (distinctFrom p again steps q) (fun q => P q ∧ q ≠ p) E := by
  induction steps generalizing q with
  | zero =>
      rw [distinctFrom]
      split_ifs with hne
      · exact .pure ⟨hq, hne⟩
      · exact .throw hE
  | succ steps ih =>
      rw [distinctFrom]
      split_ifs with hne
      · exact .pure ⟨hq, hne⟩
      · exact hagain.bind fun q' hq' => ih hq'

lemma isGenerator_of_findGenerator [DigitLimit] {steps : ℕ} {g : ℤ}
    (h : t.findGenerator o steps i = .ok g j) : t.isGenerator g = .ok true := by
  induction steps generalizing i with
  | zero => cases h
  | succ steps ih =>
      rw [Trapdoor.findGenerator] at h
      obtain ⟨g', i₁, -, h⟩ := bind_run_eq_ok.mp h
      obtain ⟨ok, i₂, hok, h⟩ := bind_run_eq_ok.mp h
      obtain ⟨hcheck, rfl⟩ := Draw.ofExcept_run_eq_ok.mp hok
      cases ok with
      | true =>
          cases h
          exact hcheck
      | false => exact ih h

/-- What the generators of a setup are, given the factors: the first one passed the check, and the
second one is a power of it to an exponent below the order. -/
structure ChosenGenerators [DigitLimit] (t : Trapdoor) (pp : GroupParameters) : Prop where
  modulus : pp.N = t.N
  first : t.isGenerator pp.G = .ok true
  second : ∃ r, 1 ≤ r ∧ r < t.order ∧ Modular.pow pp.G r t.N = .ok pp.H

lemma chooseGenerators_eq_ok [DigitLimit] (h : chooseGenerators o t i = .ok pp j) :
    ChosenGenerators t pp := by
  rw [chooseGenerators] at h
  obtain ⟨G, i₁, hG, h⟩ := bind_run_eq_ok.mp h
  obtain ⟨r, i₂, hr, h⟩ := bind_run_eq_ok.mp h
  obtain ⟨H, i₃, hH, h⟩ := bind_run_eq_ok.mp h
  obtain ⟨hpow, rfl⟩ := Draw.ofExcept_run_eq_ok.mp hH
  obtain ⟨hpp, rfl⟩ := Draw.ofExcept_run_eq_ok.mp h
  obtain ⟨hN, rfl, rfl⟩ := GroupParameters.of_eq_ok.mp hpp
  have hrange := Entropy.bounds_of_range hr
  exact ⟨hN, isGenerator_of_findGenerator hG, r, hrange.1, by omega, hpow⟩

/-- **What a setup returns**: distinct safe primes of the two halves of the length, and generators
chosen for them. -/
theorem setup_eq_ok [DigitLimit] (h : setup o cfg bits i = .ok (pp, t) j) :
    32 ≤ bits ∧ ChosenGenerators t pp ∧ ∃ p q : ℕ, t = ⟨p, q⟩ ∧ q ≠ p ∧
      IsSafePrime o (bits / 2).toNat p ∧ IsSafePrime o (bits - bits / 2).toNat q := by
  rw [setup] at h
  by_cases hbits : bits < leastSetupBits
  · rw [if_pos hbits] at h
    cases h
  · rw [if_neg hbits] at h
    rw [leastSetupBits] at hbits
    obtain ⟨p, i₁, hp, h⟩ := bind_run_eq_ok.mp h
    obtain ⟨q₀, i₂, hq₀, h⟩ := bind_run_eq_ok.mp h
    obtain ⟨q, i₃, hq, h⟩ := bind_run_eq_ok.mp h
    obtain ⟨pp', i₄, hpp, h⟩ := bind_run_eq_ok.mp h
    cases h
    have hagain := safePrime_ends o cfg (show 16 ≤ bits - bits / 2 by omega)
    have hsafe := ((safePrime_ends o cfg (show 16 ≤ bits / 2 by omega)).of_ok trivial hp).1
    have hfirst := (hagain.of_ok trivial hq₀).1
    have hother := ((distinctFrom_ends hagain .unended o.steps hfirst).of_ok trivial hq).1
    exact ⟨by omega, chooseGenerators_eq_ok hpp, p, q, rfl, hother.2, hsafe, hother.1⟩

end Setup

/-! ## Every choice is made -/

section Choice

variable {t : Trapdoor} {a b : ℕ} {g r bits : ℤ}

/-- The draws of a setup that makes a certain choice. -/
def choiceTape (a b : ℕ) (g r : ℤ) : List ℤ := [a, b, g - 2, r - 1]

lemma tapeOracles_exact (tape : List ℤ) (n : ℕ) : (tapeOracles tape).isPrime n = true ↔ n.Prime :=
  decide_eq_true_iff

lemma distinctFrom_of_ne {p q : ℕ} {again : Draw ℕ} (hne : q ≠ p) (steps : ℕ) :
    distinctFrom p again steps q = pure q := by
  cases steps with
  | zero => rw [distinctFrom, if_pos hne]
  | succ steps => rw [distinctFrom, if_pos hne]

lemma findGenerator_of_draw [DigitLimit] {o : Oracles} {i steps : ℕ} (hsteps : 0 < steps)
    (hdraw : o.source.range 2 (t.N - 1) i = .ok g (i + 1)) (hg : t.isGenerator g = .ok true) :
    t.findGenerator o steps i = .ok g (i + 1) := by
  obtain ⟨n, rfl⟩ := Nat.exists_eq_succ_of_ne_zero hsteps.ne'
  rw [Trapdoor.findGenerator, bind_run_of_ok hdraw,
    bind_run_of_ok (Draw.ofExcept_run_eq_ok.mpr ⟨hg, rfl⟩)]
  rfl

lemma chooseGenerators_of_draws [DigitLimit] {o : Oracles} {i : ℕ} {v : ℤ} {pp : GroupParameters}
    (hsteps : 0 < o.steps) (hfirst : o.source.range 2 (t.N - 1) i = .ok g (i + 1))
    (hexponent : o.source.range 1 (t.order - 1) (i + 1) = .ok r (i + 2))
    (hg : t.isGenerator g = .ok true) (hv : Modular.pow g r t.N = .ok v)
    (hpp : GroupParameters.of t.N g v = .ok pp) : chooseGenerators o t i = .ok pp (i + 2) := by
  rw [chooseGenerators, bind_run_of_ok (findGenerator_of_draw hsteps hfirst hg),
    bind_run_of_ok hexponent, bind_run_of_ok (Draw.ofExcept_run_eq_ok.mpr ⟨hv, rfl⟩)]
  exact Draw.ofExcept_run_eq_ok.mpr ⟨hpp, rfl⟩

lemma setup_of_primes [DigitLimit] {o : Oracles} {cfg : Settings} {i i₁ i₂ j p q : ℕ}
    {pp : GroupParameters} (hbits : 32 ≤ bits) (hp : safePrime o cfg (bits / 2) i = .ok p i₁)
    (hq : safePrime o cfg (bits - bits / 2) i₁ = .ok q i₂) (hne : q ≠ p)
    (hpp : chooseGenerators o ⟨p, q⟩ i₂ = .ok pp j) : setup o cfg bits i = .ok (pp, ⟨p, q⟩) j := by
  have hdistinct : distinctFrom p (safePrime o cfg (bits - bits / 2)) o.steps q i₂ = .ok q i₂ := by
    rw [distinctFrom_of_ne hne, pure_run]
  rw [setup, if_neg (by rw [leastSetupBits]; omega), bind_run_of_ok hp, bind_run_of_ok hq,
    bind_run_of_ok hdistinct]
  exact bind_run_of_ok hpp

/-- **Every choice is made**: safe primes of the lengths, a generator and an exponent below the
order are what some draws lead to. -/
theorem setup_of_choice [DigitLimit] (h : t.Safe a b) (hbits : 32 ≤ bits) (hname : Writable bits)
    (hp : 2 ^ ((bits / 2).toNat - 1) < 2 * a + 1 ∧ 2 * a + 1 < 2 ^ (bits / 2).toNat)
    (hq : 2 ^ ((bits - bits / 2).toNat - 1) < 2 * b + 1 ∧
      2 * b + 1 < 2 ^ (bits - bits / 2).toNat) (hg : t.isGenerator g = .ok true) (hr : 1 ≤ r)
    (hlt : r < t.order) :
    ∃ pp, setup (tapeOracles (choiceTape a b g r)) .standard bits 0 = .ok (pp, t) 4 ∧
      pp.N = t.N ∧ pp.G = g ∧ Modular.pow g r t.N = .ok pp.H := by
  set o := tapeOracles (choiceTape a b g r)
  have hexact := tapeOracles_exact (choiceTape a b g r)
  have hsteps : 0 < o.steps := Nat.one_pos
  have hsafe : IsSafePrime o (bits / 2).toNat (2 * a + 1) :=
    ⟨⟨a, rfl, (hexact a).mpr h.prime_a⟩, (hexact _).mpr h.prime_p, hp⟩
  have hsafe' : IsSafePrime o (bits - bits / 2).toNat (2 * b + 1) :=
    ⟨⟨b, rfl, (hexact b).mpr h.prime_b⟩, (hexact _).mpr h.prime_q, hq⟩
  have hfirst : safePrime o .standard (bits / 2) 0 = .ok (2 * a + 1) 1 :=
    safePrime_of_draw hexact hsteps rfl (by omega) (hname.of_natAbs_le (by omega)) hsafe rfl
  have hsecond : safePrime o .standard (bits - bits / 2) 1 = .ok (2 * b + 1) 2 :=
    safePrime_of_draw hexact hsteps rfl (by omega) (hname.of_natAbs_le (by omega)) hsafe' rfl
  -- the power of the generator is another parameter, whichever exponent is drawn
  have hgen := (h.isGenerator_decides g).eq_true_iff.mp hg
  obtain ⟨v, hv⟩ : ∃ v, Modular.pow g r t.N = .ok v :=
    ⟨_, Modular.pow_of_nonneg h.two_le_N g (by omega)⟩
  obtain ⟨hrange, hunit, -⟩ := h.generates_pow_iff hgen hr hlt hv
  have hrangeG := hgen.range
  let pp : GroupParameters := ⟨t.N, g, v, by omega, hrangeG.1, hrangeG.2, hgen.unit, hrange.1,
    hrange.2, hunit⟩
  have hdraw : o.source.range 2 (t.N - 1) 2 = .ok g 3 :=
    Entropy.range_of_answer (by omega) (by omega) rfl
  have hexponent : o.source.range 1 (t.order - 1) 3 = .ok r 4 :=
    Entropy.range_of_answer hr (by omega) rfl
  have hgenerators : chooseGenerators o t 2 = .ok pp 4 :=
    chooseGenerators_of_draws hsteps hdraw hexponent hg hv
      (GroupParameters.of_eq_ok.mpr ⟨rfl, rfl, rfl⟩)
  have ht : t = ⟨(2 * a + 1 : ℕ), (2 * b + 1 : ℕ)⟩ := by rw [← h.p_eq, ← h.q_eq]
  have hne := h.ne
  refine ⟨pp, ?_, rfl, rfl, hv⟩
  rw [ht] at hgenerators ⊢
  exact setup_of_primes hbits hfirst hsecond (by omega) hgenerators

/-- Safe primes in the upper part of their range. -/
lemma safe_65123_65267 : (⟨65123, 65267⟩ : Trapdoor).Safe 32561 32633 where
  p_eq := by norm_num
  q_eq := by norm_num
  prime_a := by norm_num
  prime_b := by norm_num
  prime_p := by norm_num
  prime_q := by norm_num
  ne := by decide

/-- A safe prime in the upper part of its range, and one at the lower end. -/
lemma safe_65123_32843 : (⟨65123, 32843⟩ : Trapdoor).Safe 32561 16421 where
  p_eq := by norm_num
  q_eq := by norm_num
  prime_a := by norm_num
  prime_b := by norm_num
  prime_p := by norm_num
  prime_q := by norm_num
  ne := by decide

end Choice

/-! ## The length of the modulus -/

section Length

variable {o : Oracles} {k l p q : ℕ}

lemma IsSafePrime.bitLength (h : IsSafePrime o k p) : bitLength p = k := by
  obtain ⟨hlow, hhigh⟩ := h.range
  cases k with
  | zero => omega
  | succ k => exact bitLength_eq_iff.mpr ⟨hlow.le, hhigh⟩

/-- The product of numbers of `k` and `l` bits has `k + l` bits, or one less when it is below the
middle of its range. -/
lemma IsSafePrime.bitLength_mul (hp : IsSafePrime o k p) (hq : IsSafePrime o l q) (hk : 1 ≤ k)
    (hl : 1 ≤ l) :
    HiddenOrder.bitLength (p * q) = if 2 ^ (k + l - 1) ≤ p * q then k + l else k + l - 1 := by
  have hlow : 2 ^ (k + l - 2) ≤ p * q := by
    rw [show k + l - 2 = (k - 1) + (l - 1) by omega, pow_add]
    exact Nat.mul_le_mul hp.range.1.le hq.range.1.le
  have hhigh : p * q < 2 ^ (k + l) := by
    rw [pow_add]
    exact Nat.mul_lt_mul'' hp.range.2 hq.range.2
  obtain ⟨m, hm⟩ : ∃ m, k + l = m + 2 := ⟨k + l - 2, by omega⟩
  rw [hm] at hlow hhigh ⊢
  split_ifs with hmiddle
  · exact bitLength_eq_iff.mpr ⟨hmiddle, hhigh⟩
  · exact bitLength_eq_iff.mpr ⟨hlow, not_le.mp hmiddle⟩

/-- Numbers in the upper parts of their ranges have a product in the upper half of its range. -/
lemma pow_le_mul_of_sq {m : ℕ} (hm : k + l = m + 1) (hk : 1 ≤ k) (hl : 1 ≤ l)
    (hp : 2 ^ (2 * k - 1) ≤ p ^ 2) (hq : 2 ^ (2 * l - 1) ≤ q ^ 2) : 2 ^ m ≤ p * q := by
  refine (Nat.pow_le_pow_iff_left two_ne_zero).mp ?_
  calc (2 ^ m) ^ 2 = 2 ^ (2 * k - 1) * 2 ^ (2 * l - 1) := by
        rw [← pow_mul, ← pow_add]
        congr 1
        omega
    _ ≤ p ^ 2 * q ^ 2 := Nat.mul_le_mul hp hq
    _ = (p * q) ^ 2 := (mul_pow p q 2).symm

end Length

section

variable {o : Oracles} {cfg : Settings} {bits : ℤ} {pp : GroupParameters} {t : Trapdoor} {i j : ℕ}

/-- **The length of the modulus.**  The primes have the lengths of the two halves.  Their product
has all the bits that were asked for exactly when it is not below the middle of its range, for which
it is enough that each prime is in the upper part of its own; otherwise one bit is missing. -/
theorem setup_modulus_length [DigitLimit] (h : setup o cfg bits i = .ok (pp, t) j) :
    pp.N = t.p * t.q ∧
      (bitLength t.p.toNat : ℤ) = bits / 2 ∧ (bitLength t.q.toNat : ℤ) = bits - bits / 2 ∧
      (bitLength pp.N.toNat : ℤ) = (if 2 ^ (bits.toNat - 1) ≤ pp.N then bits else bits - 1) ∧
      (2 ^ (2 * (bits / 2).toNat - 1) ≤ t.p ^ 2 →
        2 ^ (2 * (bits - bits / 2).toNat - 1) ≤ t.q ^ 2 → (bitLength pp.N.toNat : ℤ) = bits) := by
  obtain ⟨hbits, hchosen, p, q, rfl, -, hp, hq⟩ := setup_eq_ok h
  have hN : pp.N = (p * q : ℕ) := hchosen.modulus
  have hlength := hp.bitLength_mul hq (by omega) (by omega)
  rw [show (bits / 2).toNat + (bits - bits / 2).toNat = bits.toNat by omega] at hlength
  refine ⟨hchosen.modulus, ?_, ?_, ?_, ?_⟩
  · rw [Int.toNat_natCast, hp.bitLength]
    omega
  · rw [Int.toNat_natCast, hq.bitLength]
    omega
  · have hmiddle : (2 : ℤ) ^ (bits.toNat - 1) ≤ (p * q : ℕ) ↔ 2 ^ (bits.toNat - 1) ≤ p * q := by
      exact_mod_cast Iff.rfl
    rw [hN, Int.toNat_natCast, hlength]
    simp only [hmiddle]
    split_ifs <;> omega
  · intro hlargep hlargeq
    dsimp only at hlargep hlargeq
    have hmiddle : 2 ^ (bits.toNat - 1) ≤ p * q := by
      refine pow_le_mul_of_sq (k := (bits / 2).toNat) (l := (bits - bits / 2).toNat) (by omega)
        (by omega) (by omega) ?_ ?_
      · exact_mod_cast hlargep
      · exact_mod_cast hlargeq
    rw [hN, Int.toNat_natCast, hlength, if_pos hmiddle]
    omega

open Unlimited in
theorem setup_modulus_length_65123 :
    ∃ pp j, setup (tapeOracles (choiceTape 32561 32633 4 1)) .standard 32 0
        = .ok (pp, ⟨65123, 65267⟩) j ∧ (bitLength pp.N.toNat : ℤ) = 32 := by
  obtain ⟨pp, h, -⟩ := setup_of_choice (g := 4) (r := 1) safe_65123_65267
    (by decide : (32 : ℤ) ≤ 32) (writable_off 32) (by decide) (by decide) (by cbv) (by decide)
    (by decide)
  exact ⟨pp, 4, h, (setup_modulus_length h).2.2.2.2 (by decide) (by decide)⟩

open Unlimited in
/-- **A modulus that is one bit short**, of two safe primes of sixteen bits. -/
theorem setup_modulus_short :
    ∃ pp j, setup (tapeOracles [32561, 16421, 17159, 2]) .standard 32 0
        = .ok (pp, ⟨65123, 32843⟩) j ∧ bitLength pp.N.toNat = 31 := by
  obtain ⟨pp, h, hN, -⟩ := setup_of_choice (g := 17161) (r := 3) safe_65123_32843
    (by decide : (32 : ℤ) ≤ 32) (writable_off 32) (by decide) (by decide) (by cbv) (by decide)
    (by decide)
  refine ⟨pp, 4, h, ?_⟩
  rw [hN]
  exact bitLength_eq_iff.mpr (by decide)

/-! ## The two generators -/

lemma IsSafePrime.safe {k l p q : ℕ} (hexact : ∀ n, o.isPrime n = true ↔ n.Prime)
    (hp : IsSafePrime o k p) (hq : IsSafePrime o l q) (hne : q ≠ p) :
    ∃ a b, (⟨p, q⟩ : Trapdoor).Safe a b := by
  obtain ⟨a, rfl, ha⟩ := hp.half
  obtain ⟨b, rfl, hb⟩ := hq.half
  exact ⟨a, b, rfl, rfl, (hexact a).mp ha, (hexact b).mp hb, (hexact _).mp hp.prime,
    (hexact _).mp hq.prime, by omega⟩

/-- **The two generators.**  The first one passes the check and generates the squares.  The second
one is a power of it, and it passes the check exactly when the exponent shares no factor with the
order, which is the product of the halves of the primes. -/
theorem setup_generators [DigitLimit] (hexact : ∀ n, o.isPrime n = true ↔ n.Prime)
    (h : setup o cfg bits i = .ok (pp, t) j) :
    t.isGenerator pp.G = .ok true ∧ t.Generates pp.G ∧
      ∃ r, (1 ≤ r ∧ r < t.order) ∧ Modular.pow pp.G r t.N = .ok pp.H ∧
        Decides (t.isGenerator pp.H) (Int.gcd r t.order = 1) := by
  obtain ⟨-, hchosen, p, q, rfl, hne, hp, hq⟩ := setup_eq_ok h
  obtain ⟨a, b, hsafe⟩ := hp.safe hexact hq hne
  have hgen := (hsafe.isGenerator_decides pp.G).eq_true_iff.mp hchosen.first
  obtain ⟨r, hr, hlt, hpow⟩ := hchosen.second
  obtain ⟨-, -, -, -, hiff⟩ := hsafe.generates_pow_iff hgen hr hlt hpow
  obtain ⟨verdict, hverdict, hdecides⟩ := hsafe.isGenerator_decides pp.H
  exact ⟨hchosen.first, hgen, r, ⟨hr, hlt⟩, hpow, verdict, hverdict, hdecides.trans hiff⟩

open Unlimited in
theorem setup_generators_65123 :
    ∃ pp j, setup (tapeOracles (choiceTape 32561 32633 4 3)) .standard 32 0
        = .ok (pp, ⟨65123, 65267⟩) j ∧ (⟨65123, 65267⟩ : Trapdoor).Generates pp.G := by
  obtain ⟨pp, h, -⟩ := setup_of_choice (g := 4) (r := 3) safe_65123_65267
    (by decide : (32 : ℤ) ≤ 32) (writable_off 32) (by decide) (by decide) (by cbv) (by decide)
    (by decide)
  exact ⟨pp, 4, h, (setup_generators (tapeOracles_exact _) h).2.1⟩

open Unlimited in
/-- **A second generator that is none**: the exponent is the half of a prime. -/
theorem setup_second_generator_fails :
    ∃ pp j, setup (tapeOracles [32561, 32633, 2, 32560]) .standard 32 0
        = .ok (pp, ⟨65123, 65267⟩) j ∧
      (⟨65123, 65267⟩ : Trapdoor).isGenerator pp.H = .ok false := by
  have hg : (⟨65123, 65267⟩ : Trapdoor).isGenerator 4 = .ok true := by cbv
  obtain ⟨pp, h, -, -, hpow⟩ := setup_of_choice (r := 32561) safe_65123_65267
    (by decide : (32 : ℤ) ≤ 32) (writable_off 32) (by decide) (by decide) hg (by decide)
    (by decide)
  have hgen := (safe_65123_65267.isGenerator_decides 4).eq_true_iff.mp hg
  obtain ⟨-, -, -, -, hiff⟩ :=
    safe_65123_65267.generates_pow_iff hgen (by decide) (by decide) hpow
  refine ⟨pp, 4, h, (safe_65123_65267.isGenerator_decides pp.H).eq_false_iff.mpr ?_⟩
  rw [hiff]
  decide

end

end HiddenOrder
