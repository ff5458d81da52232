import HiddenOrder.Proofs.Membership
import HiddenOrder.Proofs.Verifier
import Mathlib.Data.Int.ConditionallyCompleteOrder
import Mathlib.FieldTheory.Finite.Basic

/-!
# An answer that is accepted is the only one

Everything in an accepted proof but the quotient powers is fixed by the statement, the challenge and
the remainders, and a quotient power only occurs raised to the challenge.  Modulo a product of two
distinct primes that raising is injective as soon as the exponent shares no factor with
`(p - 1) (q - 1)`, and it is so on the whole ring: modulo one prime zero is the only non-unit, and
modulo the other one has the same again.  So whoever changes a quotient power, into a unit or not,
changes an accepted proof into one that is refused.

* `TwoPrimes` — a modulus that is a product of two distinct primes.
* **`pow_injective_of_prime`**, **`TwoPrimes.pow_injective`** — raising to a power is injective.
* **`TwoPrimes.root_unique`** — two canonical integers with the same power are the same.
* **`tampered_answers_rejected`** — each of the four verifiers accepts one answer at most.
-/

namespace HiddenOrder

/-! ## Powers modulo a product of two primes -/

/-- Modulo a prime, raising to a power without a common factor with `p - 1` is injective. -/
theorem pow_injective_of_prime {p e : ℕ} [Fact p.Prime] (he : e ≠ 0) (hcop : e.Coprime (p - 1)) :
    Function.Injective fun a : ZMod p => a ^ e := by
  intro a b hpow
  replace hpow : a ^ e = b ^ e := hpow
  rcases eq_or_ne b 0 with rfl | hb
  · rw [zero_pow he] at hpow
    exact (pow_eq_zero_iff he).mp hpow
  · have ha : a ≠ 0 := by
      rintro rfl
      rw [zero_pow he] at hpow
      exact hb ((pow_eq_zero_iff he).mp hpow.symm)
    have hquotient : (a / b) ^ e = 1 := by
      rw [div_pow, hpow, div_self (pow_ne_zero e hb)]
    have hfermat : (a / b) ^ (p - 1) = 1 := ZMod.pow_card_sub_one_eq_one (div_ne_zero ha hb)
    have hone := (pow_eq_one_iff_of_coprime hcop).mp ⟨hquotient, hfermat⟩
    exact (div_eq_one_iff_eq hb).mp hone

/-- A modulus that is the product of two distinct primes. -/
structure TwoPrimes (N : ℤ) (p q : ℕ) : Prop where
  eq : N = (p * q : ℕ)
  prime_p : p.Prime
  prime_q : q.Prime
  ne : p ≠ q

namespace TwoPrimes

variable {N : ℤ} {p q e : ℕ}

lemma two_le (h : TwoPrimes N p q) : 2 ≤ N := by
  have := Nat.mul_le_mul h.prime_p.two_le h.prime_q.one_le
  rw [h.eq]
  omega

/-- Of two distinct primes one is above two, so zero shares a factor with `(p - 1) (q - 1)`. -/
lemma exponent_ne_zero (h : TwoPrimes N p q) (hcop : e.Coprime ((p - 1) * (q - 1))) : e ≠ 0 := by
  rintro rfl
  rw [Nat.coprime_zero_left, mul_eq_one] at hcop
  have := h.ne
  omega

/-- **Raising to a power is injective** on all residues, non-units included. -/
theorem pow_injective (h : TwoPrimes N p q) (hcop : e.Coprime ((p - 1) * (q - 1))) :
    Function.Injective fun a : Residue N => a ^ e := by
  have he := h.exponent_ne_zero hcop
  obtain ⟨rfl, hp, hq, hne⟩ := h
  have : Fact p.Prime := ⟨hp⟩
  have : Fact q.Prime := ⟨hq⟩
  intro a b hpow
  let split := ZMod.chineseRemainder ((Nat.coprime_primes hp hq).mpr hne)
  have hsplit : split a ^ e = split b ^ e := by
    rw [← map_pow, ← map_pow]
    exact congrArg split hpow
  refine split.injective (Prod.ext ?_ ?_)
  · exact pow_injective_of_prime he hcop.coprime_mul_right_right (congrArg Prod.fst hsplit)
  · exact pow_injective_of_prime he hcop.coprime_mul_left_right (congrArg Prod.snd hsplit)

/-- **Roots are unique**: two canonical integers with the same power are the same. -/
theorem root_unique (h : TwoPrimes N p q) (hcop : e.Coprime ((p - 1) * (q - 1))) {a b : ℤ}
    (ha : a ∈ Set.Ico 0 N) (hb : b ∈ Set.Ico 0 N)
    (hpow : (a : Residue N) ^ e = (b : Residue N) ^ e) : a = b := by
  have hcast : (a : Residue N) = b := h.pow_injective hcop hpow
  rw [← canonical_cast_of_lt h.two_le ha.1 ha.2, hcast, canonical_cast_of_lt h.two_le hb.1 hb.2]

end TwoPrimes

/-! ## One answer for each verifier -/

section Answers

variable {o : Oracles} {N : ℤ} {p q l : ℕ}

/-- The quotient power of a proof of exponentiation is the only one that is accepted. -/
lemma PoE.quotient_unique [DigitLimit] {base C x : ℤ} (h : TwoPrimes N p q)
    (hbase : Int.gcd base N = 1) (hl : Challenge.poe o base N C x = .ok l)
    (hcop : l.Coprime ((p - 1) * (q - 1))) :
    {Q ∈ Set.Ico 0 N | verify o base N C x ⟨Q⟩ = .ok true}.Subsingleton := by
  rintro Q ⟨hQ, haccepted⟩ Q' ⟨hQ', haccepted'⟩
  have hunit := (isUnit_cast_iff h.two_le base).mpr hbase
  have hequation := ((verify_decides Q hl).eq_true_iff.mp haccepted).2
  have hequation' := ((verify_decides Q' hl).eq_true_iff.mp haccepted').2
  exact h.root_unique hcop hQ hQ' ((hunit.pow _).mul_right_cancel (hequation.trans hequation'.symm))

/-- The quotient power of a proof of knowledge is the only one that is accepted. -/
lemma PoKEStar.quotient_unique [DigitLimit] {G C r : ℤ} (h : TwoPrimes N p q) (hG : Int.gcd G N = 1)
    (hl : Challenge.pokeStar o G N C = .ok l) (hcop : l.Coprime ((p - 1) * (q - 1))) :
    {Q ∈ Set.Ico 0 N | verify o G N C ⟨Q, r⟩ = .ok true}.Subsingleton := by
  rintro Q ⟨hQ, haccepted⟩ Q' ⟨hQ', haccepted'⟩
  have hunit := (isUnit_cast_iff h.two_le G).mpr hG
  have hequation := ((verify_decides Q r hl).eq_true_iff.mp haccepted).2
  have hequation' := ((verify_decides Q' r hl).eq_true_iff.mp haccepted').2
  exact h.root_unique hcop hQ hQ' ((hunit.pow _).mul_right_cancel (hequation.trans hequation'.symm))

/-- Both quotient powers of a zero-knowledge proof are the only ones that are accepted. -/
lemma ZKPoKE.quotients_unique [DigitLimit] {pp : GroupParameters} {u w z Ag Au rx rrho : ℤ} {c : ℕ}
    (h : TwoPrimes pp.N p q) (hu : Int.gcd u pp.N = 1)
    (hl : Challenge.zkpoke o pp.G pp.H pp.N u w z Ag Au = .ok (c, l))
    (hcop : l.Coprime ((p - 1) * (q - 1))) :
    {Q ∈ Set.Ico 0 pp.N ×ˢ Set.Ico 0 pp.N |
      verify o pp u w ⟨z, Ag, Au, Q.1, Q.2, rx, rrho⟩ = .ok true}.Subsingleton := by
  rintro ⟨Qg, Qu⟩ ⟨hQ, haccepted⟩ ⟨Qg', Qu'⟩ ⟨hQ', haccepted'⟩
  have hunit := (isUnit_cast_iff h.two_le u).mpr hu
  have hG := (isUnit_cast_iff h.two_le pp.G).mpr pp.gcd_G
  have hH := (isUnit_cast_iff h.two_le pp.H).mpr pp.gcd_H
  have hequations := ((verify_decides ⟨z, Ag, Au, Qg, Qu, rx, rrho⟩ hl).eq_true_iff.mp haccepted).2
  have hequations' :=
    ((verify_decides ⟨z, Ag, Au, Qg', Qu', rx, rrho⟩ hl).eq_true_iff.mp haccepted').2
  have hcommitted := hequations.committed.trans hequations'.committed.symm
  have hstated := hequations.stated.trans hequations'.stated.symm
  refine Prod.ext ?_ ?_
  · exact h.root_unique hcop hQ.1 hQ'.1
      ((hG.pow _).mul_right_cancel ((hH.pow _).mul_right_cancel hcommitted))
  · exact h.root_unique hcop hQ.2 hQ'.2 ((hunit.pow _).mul_right_cancel hstated)

/-- The membership proof for a number is the only one that is accepted. -/
lemma membershipProof_unique [DigitLimit] {acc e : ℤ} (h : TwoPrimes N p q)
    (hcop : e.toNat.Coprime ((p - 1) * (q - 1))) :
    {w | verifyMembership acc e w N = .ok true}.Subsingleton := by
  intro w haccepted w' haccepted'
  obtain ⟨⟨-, -, hw⟩, hpower⟩ := (verifyMembership_decides acc e w N).eq_true_iff.mp haccepted
  obtain ⟨⟨-, -, hw'⟩, hpower'⟩ := (verifyMembership_decides acc e w' N).eq_true_iff.mp haccepted'
  exact h.root_unique hcop ⟨hw.1.le, hw.2⟩ ⟨hw'.1.le, hw'.2⟩
    ((canonical_inj h.two_le).mp (hpower.trans hpower'.symm))

end Answers

/-- **Tampered answers are rejected.**  Modulo a product of two distinct primes: when the challenge is
a prime that does not divide `(p - 1) (q - 1)`, at most one quotient power is accepted for a statement
over a unit, for every remainder, and in a zero-knowledge proof at most one pair of them; and at most
one membership proof is accepted for a number without a common factor with `(p - 1) (q - 1)`.  A test
may let a composite number pass, so primality is asked of the challenge and not of the test. -/
theorem tampered_answers_rejected [DigitLimit] (o : Oracles) {N : ℤ} {p q : ℕ}
    (h : TwoPrimes N p q) :
    (∀ {base C x : ℤ} {l : ℕ}, Int.gcd base N = 1 → Challenge.poe o base N C x = .ok l →
      l.Prime → ¬l ∣ (p - 1) * (q - 1) →
        {Q ∈ Set.Ico 0 N | PoE.verify o base N C x ⟨Q⟩ = .ok true}.Subsingleton) ∧
    (∀ {G C : ℤ} {l : ℕ}, Int.gcd G N = 1 → Challenge.pokeStar o G N C = .ok l →
      l.Prime → ¬l ∣ (p - 1) * (q - 1) → ∀ r,
        {Q ∈ Set.Ico 0 N | PoKEStar.verify o G N C ⟨Q, r⟩ = .ok true}.Subsingleton) ∧
    (∀ {pp : GroupParameters} {u w z Ag Au : ℤ} {c l : ℕ}, pp.N = N → Int.gcd u N = 1 →
      Challenge.zkpoke o pp.G pp.H N u w z Ag Au = .ok (c, l) →
      l.Prime → ¬l ∣ (p - 1) * (q - 1) →
        ∀ rx rrho, {Q ∈ Set.Ico 0 N ×ˢ Set.Ico 0 N |
          ZKPoKE.verify o pp u w ⟨z, Ag, Au, Q.1, Q.2, rx, rrho⟩ = .ok true}.Subsingleton) ∧
    ∀ acc {e : ℤ}, 0 < e → e.toNat.Coprime ((p - 1) * (q - 1)) →
      {w | verifyMembership acc e w N = .ok true}.Subsingleton := by
  refine ⟨?_, ?_, ?_, ?_⟩
  · intro base C x l hbase hl hprime hdvd
    exact PoE.quotient_unique h hbase hl (hprime.coprime_iff_not_dvd.mpr hdvd)
  · intro G C l hG hl hprime hdvd r
    exact PoKEStar.quotient_unique h hG hl (hprime.coprime_iff_not_dvd.mpr hdvd)
  · rintro pp u w z Ag Au c l rfl hu hl hprime hdvd rx rrho
    exact ZKPoKE.quotients_unique h hu hl (hprime.coprime_iff_not_dvd.mpr hdvd)
  · intro acc e _ hcop
    exact membershipProof_unique h hcop

open Unlimited in
/-- An accepted proof of each kind modulo `23 · 47`, the only one with its quotient powers. -/
theorem tampered_answers_rejected_smallGroup :
    TwoPrimes 1081 23 47 ∧
    (PoE.verify parityOracles 4 1081 853 6 ⟨4⟩ = .ok true ∧
      ∀ Q ∈ Set.Ico 0 1081, PoE.verify parityOracles 4 1081 853 6 ⟨Q⟩ = .ok true → Q = 4) ∧
    (PoKEStar.verify parityOracles 4 1081 853 ⟨4, 1⟩ = .ok true ∧
      ∀ Q ∈ Set.Ico 0 1081, PoKEStar.verify parityOracles 4 1081 853 ⟨Q, 1⟩ = .ok true → Q = 4) ∧
    (ZKPoKE.verify parityOracles smallGroup 4 473 ⟨1061, 647, 427, 714, 397, 2, 0⟩ = .ok true ∧
      ∀ Q ∈ Set.Ico 0 1081 ×ˢ Set.Ico 0 1081,
        ZKPoKE.verify parityOracles smallGroup 4 473 ⟨1061, 647, 427, Q.1, Q.2, 2, 0⟩ = .ok true →
          Q = (714, 397)) ∧
    (verifyMembership 739 3 1024 1081 = .ok true ∧
      ∀ w, verifyMembership 739 3 w 1081 = .ok true → w = 1024) := by
  have hprimes : TwoPrimes 1081 23 47 := ⟨by decide, by decide, by decide, by decide⟩
  obtain ⟨hpoe, hpoke, hzkpoke, hmembership⟩ := tampered_answers_rejected parityOracles hprimes
  have hl : Challenge.poe parityOracles 4 1081 853 6 = .ok 5 := rfl
  have hl' : Challenge.pokeStar parityOracles 4 1081 853 = .ok 5 := rfl
  have hl₃ : Challenge.zkpoke parityOracles smallGroup.G smallGroup.H 1081 4 473
      (1061 : ℤ) (647 : ℤ) (427 : ℤ) = .ok (5, 3) := rfl
  have haccepted : PoE.verify parityOracles 4 1081 853 6 ⟨4⟩ = .ok true :=
    toOption_eq_some.mp (by decide +kernel)
  have haccepted' : PoKEStar.verify parityOracles 4 1081 853 ⟨4, 1⟩ = .ok true :=
    toOption_eq_some.mp (by decide +kernel)
  have haccepted₃ : ZKPoKE.verify parityOracles smallGroup 4 473
      ⟨1061, 647, 427, 714, 397, 2, 0⟩ = .ok true := toOption_eq_some.mp (by decide +kernel)
  have haccepted₄ : verifyMembership 739 3 1024 1081 = .ok true :=
    toOption_eq_some.mp (by decide +kernel)
  refine ⟨hprimes, ⟨haccepted, fun Q hQ h => ?_⟩, ⟨haccepted', fun Q hQ h => ?_⟩,
    ⟨haccepted₃, fun Q hQ h => ?_⟩, haccepted₄, fun w h => ?_⟩
  · exact hpoe (by decide) hl Nat.prime_five (by decide) ⟨hQ, h⟩ ⟨by decide, haccepted⟩
  · exact hpoke (by decide) hl' Nat.prime_five (by decide) 1 ⟨hQ, h⟩ ⟨by decide, haccepted'⟩
  · exact hzkpoke rfl (by decide) hl₃ Nat.prime_three (by decide) 2 0 ⟨hQ, h⟩
      ⟨⟨by decide, by decide⟩, haccepted₃⟩
  · exact hmembership 739 (by decide) (by decide) h haccepted₄

end HiddenOrder
