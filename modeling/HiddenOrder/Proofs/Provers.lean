import HiddenOrder.Proofs.ZKPoKE

/-!
# The provers of exponents answer or refuse

A proof of exponentiation and a proof of knowledge of an exponent start from the same check: the
prover computes the power that the statement is about and compares.  What can then be refused is
the statement and nothing else: the power by the quotient exists whenever the power itself did,
because a quotient by a positive challenge has the sign of the number divided, and the verifier's
equation puts quotient and remainder together again.

* `IsPower` — what such a statement says; a negative power is one of an inverse.
* `Refuses` — a refusal, with the numbers in its text.
* **`Modular.pow_eq_ok_iff`** — the check decides the statement.
* `equation_of_division` — the verifier's equation, over units and over anything else.
* **`Complete`** — a prover whose proofs are accepted, and who refuses exactly the false statements,
  as far as the numbers in question can be written.
* **`exponent_provers_complete`** — both provers are such.
-/

namespace HiddenOrder

/-! ## The statement -/

/-- `C` is the power `b ^ e` modulo `N`; with a negative exponent, the power of an inverse of the
base. -/
def IsPower (b e C N : Int) : Prop :=
  if 0 ≤ e then b ^ e.toNat ≡ C [ZMOD N]
  else ∃ b', b * b' ≡ 1 [ZMOD N] ∧ b' ^ (-e).toNat ≡ C [ZMOD N]

variable {N b e C : Int}

/-- Congruent integers are those that stand for one residue. -/
lemma modEq_iff_cast (hN : 2 ≤ N) {a c : Int} : a ≡ c [ZMOD N] ↔ (a : Residue N) = c := by
  rw [← canonical_inj hN, canonical_cast hN, canonical_cast hN]
  rfl

lemma isPower_of_nonneg (he : 0 ≤ e) : IsPower b e C N ↔ b ^ e.toNat ≡ C [ZMOD N] := by
  rw [IsPower, if_pos he]

/-- A natural power is one among the residues. -/
lemma isPower_iff_cast (hN : 2 ≤ N) (he : 0 ≤ e) :
    IsPower b e C N ↔ (b : Residue N) ^ e.toNat = C := by
  rw [isPower_of_nonneg he, modEq_iff_cast hN, Int.cast_pow]

/-- Over a unit the statement is one about an integer power, whatever the sign. -/
lemma isPower_iff_of_unit (hN : 2 ≤ N) {u : (Residue N)ˣ} (hb : (b : Residue N) = u) :
    IsPower b e C N ↔ ((u ^ e : (Residue N)ˣ) : Residue N) = C := by
  by_cases he : 0 ≤ e
  · rw [isPower_iff_cast hN he, hb, val_zpow_of_nonneg u he]
  · obtain ⟨k, rfl⟩ : ∃ k : ℕ, e = -k := ⟨(-e).toNat, by omega⟩
    have hinverse (b' : Int) :
        b * b' ≡ 1 [ZMOD N] ↔ (b' : Residue N) = (u⁻¹ : (Residue N)ˣ) := by
      rw [modEq_iff_cast hN, Int.cast_mul, hb, Int.cast_one, Units.mul_eq_one_iff_inv_eq, eq_comm]
    rw [IsPower, if_neg he, zpow_neg, zpow_natCast, ← inv_pow, Units.val_pow_eq_pow_val, neg_neg,
      Int.toNat_natCast]
    constructor
    · rintro ⟨b', hb', hC⟩
      rw [← (hinverse b').mp hb', ← Int.cast_pow]
      exact (modEq_iff_cast hN).mp hC
    · intro hC
      have hb' := cast_canonical hN ((u⁻¹ : (Residue N)ˣ) : Residue N)
      refine ⟨_, (hinverse _).mpr hb', ?_⟩
      rw [modEq_iff_cast hN, Int.cast_pow, hb', hC]

/-- Over anything else a negative power is none. -/
lemma not_isPower_of_not_isUnit (hN : 2 ≤ N) (hb : ¬IsUnit (b : Residue N)) (he : e < 0) :
    ¬IsPower b e C N := by
  rw [IsPower, if_neg (not_le.mpr he)]
  rintro ⟨b', hb', -⟩
  rw [modEq_iff_cast hN, Int.cast_mul, Int.cast_one] at hb'
  exact hb (IsUnit.of_mul_eq_one _ hb')

/-! ## Refusals -/

/-- An input is refused with a text in which just these numbers stand. -/
def Refuses [DigitLimit] {α : Type} (shown : List Int) (r : Except Error α) : Prop :=
  ∃ cause : Precondition, cause.wording.numbers = shown ∧ r = .error (refuse cause)

namespace Refuses

variable {α β : Type} {shown : List Int} {r : Except Error α}

protected lemma throw [DigitLimit] (cause : Precondition) :
    Refuses cause.wording.numbers (throw (refuse cause) : Except Error α) :=
  ⟨cause, rfl, rfl⟩

protected lemma bind [DigitLimit] (h : Refuses shown r) (f : α → Except Error β) :
    Refuses shown (r >>= f) := by
  obtain ⟨cause, hshown, rfl⟩ := h
  exact ⟨cause, hshown, rfl⟩

lemma of_writable [DigitLimit] (h : Refuses shown r) (hshown : ∀ n ∈ shown, Writable n) :
    ∃ cause, r = .error (.precondition cause) := by
  obtain ⟨cause, rfl, rfl⟩ := h
  exact ⟨cause, by rw [refuse_of_fits hshown]⟩

lemma of_not_writable [DigitLimit] (h : Refuses shown r) (hshown : ¬∀ n ∈ shown, Writable n) :
    r = .error (.fault .longNumeral) := by
  obtain ⟨cause, rfl, rfl⟩ := h
  exact congrArg _ ((refuse_eq cause).trans (if_neg hshown))

end Refuses

/-! ## The check -/

namespace Modular

lemma pow_refuses_modulus [DigitLimit] (hN : N < 2) (b e : Int) : Refuses [N] (pow b e N) := by
  rw [pow, checkModulus, if_pos hN]
  exact ⟨.modulus N, rfl, rfl⟩

lemma pow_refuses_base [DigitLimit] (hN : 2 ≤ N) (he : e < 0) (hb : Int.gcd b N ≠ 1) :
    Refuses [b, N] (pow b e N) := by
  rw [ne_eq, ← isUnit_cast_iff hN] at hb
  rw [pow_of_not_isUnit hN hb he]
  exact ⟨.baseNotInvertible b N, rfl, rfl⟩

/-- A natural power is computed, and so is a negative one of a unit. -/
lemma pow_computed [DigitLimit] (hN : 2 ≤ N) (h : 0 ≤ e ∨ Int.gcd b N = 1) :
    ∃ v, pow b e N = .ok v := by
  rcases h with he | hb
  · exact ⟨_, pow_of_nonneg hN b he⟩
  · obtain ⟨u, hu⟩ := (isUnit_cast_iff hN b).mpr hb
    exact ⟨_, pow_of_unit hN hu.symm e⟩

/-- **The check decides the statement.** -/
theorem pow_eq_ok_iff [DigitLimit] : pow b e N = .ok (C % N) ↔ 2 ≤ N ∧ IsPower b e C N := by
  by_cases hN : 2 ≤ N
  · rw [and_iff_right hN]
    have hvalue (r : Residue N) : canonical r = C % N ↔ r = C := by
      rw [← canonical_cast hN, canonical_inj hN]
    by_cases hb : IsUnit (b : Residue N)
    · obtain ⟨u, hu⟩ := hb
      rw [pow_of_unit hN hu.symm, Except.ok.injEq, hvalue, isPower_iff_of_unit hN hu.symm]
    · by_cases he : 0 ≤ e
      · rw [pow_of_nonneg hN b he, Except.ok.injEq, hvalue, isPower_iff_cast hN he]
      · have hnone := not_isPower_of_not_isUnit (C := C) hN hb (not_le.mp he)
        rw [pow_of_not_isUnit hN hb (not_le.mp he)]
        exact ⟨nofun, fun h => (hnone h).elim⟩
  · obtain ⟨cause, -, hrefused⟩ := pow_refuses_modulus (not_le.mp hN) b e
    rw [hrefused]
    exact ⟨nofun, fun h => (hN h.1).elim⟩

/-- A false statement shows in the power. -/
lemma pow_of_false [DigitLimit] (hN : 2 ≤ N) (hcomputed : 0 ≤ e ∨ Int.gcd b N = 1)
    (h : ¬IsPower b e C N) : ∃ power, pow b e N = .ok power ∧ power ≠ C % N := by
  obtain ⟨power, hpower⟩ := pow_computed hN hcomputed
  refine ⟨power, hpower, ?_⟩
  rintro rfl
  exact h (pow_eq_ok_iff.mp hpower).2

/-- A power whose exponent is divided by a positive number exists when the power did. -/
lemma pow_ediv_ok [DigitLimit] {v : Int} {l : ℕ} (hN : 2 ≤ N) (h : pow b e N = .ok v) :
    ∃ Q, pow b (e / l) N = .ok Q := by
  by_cases hb : IsUnit (b : Residue N)
  · obtain ⟨u, hu⟩ := hb
    exact ⟨_, pow_of_unit hN hu.symm _⟩
  · have he := (cast_of_pow_not_isUnit hN hb h).1
    exact ⟨_, pow_of_nonneg hN b (Int.ediv_nonneg he (Int.natCast_nonneg l))⟩

end Modular

/-- **The verifier's equation**: the power by the quotient, raised to the divisor, and the power by
the remainder make the power that was stated. -/
theorem equation_of_division [DigitLimit] {Q : Int} {l : ℕ} (hN : 2 ≤ N) (hl : l ≠ 0)
    (h : Modular.pow b e N = .ok (C % N)) (hQ : Modular.pow b (e / l) N = .ok Q) :
    (Q : Residue N) ^ l * (b : Residue N) ^ (e % l).toNat = C := by
  -- the zero-knowledge equation with the integer challenge zero
  have hzero : Modular.pow b 0 N = .ok (1 % N) := by
    rw [Modular.pow_eq_ok_iff, isPower_of_nonneg le_rfl, Int.toNat_zero, pow_zero]
    exact ⟨hN, Int.ModEq.rfl⟩
  have hequation := ZKPoKE.stated_of_division (c := 0) (k := e) hN hl hzero h
    (by rwa [Nat.cast_zero, zero_mul, add_zero])
  rwa [Nat.cast_zero, zero_mul, add_zero, pow_zero, mul_one, cast_emod hN] at hequation

/-! ## Provers -/

/-- A prover whose proofs are accepted, who refuses an input exactly when `Refused` holds of it, and
who otherwise returns a proof as soon as there is a challenge.  The numbers that the text of a
refusal shows, and those that the challenge is about, have to be written; where they are too long
the fault for that takes the place of the refusal and of the proof. -/
structure Complete [DigitLimit] {α : Type} (prove : Except Error α) (verify : α → Except Error Bool)
    (challenge : Except Error ℕ) (Refused : Prop) (shown stated : List Int) : Prop where
  /-- What is returned is accepted. -/
  accepted : ∀ proof, prove = .ok proof → verify proof = .ok true
  /-- What is refused. -/
  refused : (∃ cause, prove = .error (.precondition cause)) ↔ Refused ∧ ∀ n ∈ shown, Writable n
  /-- Of the rest a proof is returned, unless the walk to the challenge runs out of steps. -/
  returned : ¬Refused → (∀ n ∈ stated, Writable n) →
    (∃ proof, prove = .ok proof) ∨ prove = .error .outOfSteps ∧ challenge = .error .outOfSteps
  /-- What is too long to be written. -/
  tooLong : prove = .error (.fault .longNumeral) ↔
    Refused ∧ (¬∀ n ∈ shown, Writable n) ∨ ¬Refused ∧ ¬∀ n ∈ stated, Writable n

namespace Complete

variable {α : Type} {prove : Except Error α} {verify : α → Except Error Bool}
  {challenge : Except Error ℕ} {Refused : Prop} {shown stated : List Int}

/-- A prover of something that is refused. -/
lemma of_refused [DigitLimit] (hcase : Refused) (h : Refuses shown prove) :
    Complete prove verify challenge Refused shown stated := by
  by_cases hshown : ∀ n ∈ shown, Writable n
  · obtain ⟨cause, rfl⟩ := h.of_writable hshown
    exact ⟨nofun, iff_of_true ⟨cause, rfl⟩ ⟨hcase, hshown⟩, fun hnot => (hnot hcase).elim,
      iff_of_false nofun (by tauto)⟩
  · obtain rfl := h.of_not_writable hshown
    exact ⟨nofun, iff_of_false nofun (by tauto), fun hnot => (hnot hcase).elim,
      iff_of_true rfl (.inl ⟨hcase, hshown⟩)⟩

/-- A prover of something that is not refused, who returns something that is accepted as soon as
there is a challenge. -/
lemma of_asks [DigitLimit] (hcase : ¬Refused) (hasks : AsksAbout stated challenge)
    (hok : ∀ l, challenge = .ok l → ∃ proof, prove = .ok proof ∧ verify proof = .ok true)
    (herror : ∀ e, challenge = .error e → prove = .error e) :
    Complete prove verify challenge Refused shown stated := by
  by_cases hstated : ∀ n ∈ stated, Writable n
  · rcases hasks.ends hstated with ⟨l, hl⟩ | hsteps
    · obtain ⟨proof, rfl, haccepted⟩ := hok l hl
      refine ⟨?_, iff_of_false nofun (by tauto), fun _ _ => .inl ⟨proof, rfl⟩,
        iff_of_false nofun (by tauto)⟩
      rintro _ ⟨⟩
      exact haccepted
    · obtain rfl := herror _ hsteps
      exact ⟨nofun, iff_of_false nofun (by tauto), fun _ _ => .inr ⟨rfl, hsteps⟩,
        iff_of_false nofun (by tauto)⟩
  · obtain rfl := herror _ (hasks.tooLong hstated)
    exact ⟨nofun, iff_of_false nofun (by tauto), fun _ h => (hstated h).elim,
      iff_of_true rfl (.inr ⟨hcase, hstated⟩)⟩

/-- **A prover who divides the exponent of a true statement by the challenge**, and hands over the
power by the quotient, is such a prover if the verifier accepts on the equation. -/
theorem of_division [DigitLimit] (answer : ℕ → Int → α) (hrefused : Refused → Refuses shown prove)
    (hstated : ¬Refused → 2 ≤ N ∧ IsPower b e C N)
    (hprove : ¬Refused → prove = challenge >>= fun l =>
      Modular.pow b (e / l) N >>= fun Q => .ok (answer l Q)) (hasks : AsksAbout stated challenge)
    (htwo : ∀ l, challenge = .ok l → 2 ≤ l)
    (hverify : ∀ l (Q : Int), ¬Refused → challenge = .ok l →
      (Q : Residue N) ^ l * (b : Residue N) ^ (e % l).toNat = C → verify (answer l Q) = .ok true) :
    Complete prove verify challenge Refused shown stated := by
  by_cases hcase : Refused
  · exact .of_refused hcase (hrefused hcase)
  · have hN := (hstated hcase).1
    have hpower := Modular.pow_eq_ok_iff.mpr (hstated hcase)
    refine .of_asks hcase hasks (fun l hl => ?_) fun e he => ?_
    · obtain ⟨Q, hQ⟩ := Modular.pow_ediv_ok (l := l) hN hpower
      have hl₀ : l ≠ 0 := by
        have := htwo l hl
        omega
      refine ⟨answer l Q, ?_, hverify l Q hcase hl (equation_of_division hN hl₀ hpower hQ)⟩
      rw [hprove hcase, hl, ok_bind, hQ, ok_bind]
    · rw [hprove hcase, he, error_bind]

end Complete

namespace PoE

variable {o : Oracles} {base mod x : Int}

/-- What the prover does not take: a negative exponent, a modulus below two, a false statement. -/
def Refused (base mod C x : Int) : Prop :=
  x < 0 ∨ mod < 2 ∨ ¬base ^ x.toNat ≡ C [ZMOD mod]

/-- What is not refused is a true statement with a natural exponent. -/
lemma isPower_of_not_refused (h : ¬Refused base mod C x) :
    0 ≤ x ∧ 2 ≤ mod ∧ IsPower base x C mod := by
  simp only [Refused, not_or, not_lt, not_not] at h
  exact ⟨h.1, h.2.1, (isPower_of_nonneg h.1).mpr h.2.2⟩

/-- The numbers in the text of a refusal: the exponent or the modulus, whichever is refused first. -/
def shown (mod x : Int) : List Int := if x < 0 then [x] else if mod < 2 then [mod] else []

lemma prove_of_refused [DigitLimit] (o : Oracles) (h : Refused base mod C x) :
    Refuses (shown mod x) (prove o base mod C x) := by
  rw [prove, shown]
  split_ifs with hx hmod
  · exact .throw (.poeExponent x)
  · exact (Modular.pow_refuses_modulus hmod base x).bind _
  · have hfalse : ¬IsPower base x C mod := by
      rw [isPower_of_nonneg (not_lt.mp hx)]
      exact (h.resolve_left hx).resolve_left hmod
    obtain ⟨power, hpower, hne⟩ :=
      Modular.pow_of_false (not_lt.mp hmod) (.inl (not_lt.mp hx)) hfalse
    rw [hpower, ok_bind, if_pos hne]
    exact .throw .poeStatement

lemma prove_of_not_refused [DigitLimit] (o : Oracles) (h : ¬Refused base mod C x) :
    prove o base mod C x = Challenge.poe o base mod C x >>= fun l =>
      Modular.pow base (x / l) mod >>= fun Q => .ok ⟨Q⟩ := by
  obtain ⟨hx, hpower⟩ := isPower_of_not_refused h
  rw [prove, if_neg (not_lt.mpr hx), Modular.pow_eq_ok_iff.mpr hpower, ok_bind,
    if_neg (not_not.mpr rfl)]
  rfl

/-- **The prover of an exponentiation** answers or refuses. -/
theorem prove_complete [DigitLimit] (o : Oracles) (base mod C x : Int) :
    Complete (prove o base mod C x) (verify o base mod C x) (Challenge.poe o base mod C x)
      (Refused base mod C x) (shown mod x) [base, mod, C, x] := by
  refine .of_division (fun _ Q => ⟨Q⟩) (prove_of_refused o) (fun h => (isPower_of_not_refused h).2)
    (prove_of_not_refused o) (Challenge.poe_asks o base mod C x)
    (fun l => Challenge.two_le_poe) ?_
  intro l Q h hl hequation
  obtain ⟨hx, hmod, -⟩ := isPower_of_not_refused h
  exact (verify_decides Q hl).eq_true_iff.mpr ⟨⟨hx, hmod⟩, hequation⟩

end PoE

namespace PoKEStar

variable {G N C x : Int}

/-- What the prover does not take: a modulus below two, a negative exponent over a base without an
inverse, a false statement. -/
def Refused (G N C x : Int) : Prop :=
  N < 2 ∨ x < 0 ∧ Int.gcd G N ≠ 1 ∨ ¬IsPower G x C N

lemma isPower_of_not_refused (h : ¬Refused G N C x) : 2 ≤ N ∧ IsPower G x C N := by
  simp only [Refused, not_or, not_lt, not_not] at h
  exact ⟨h.1, h.2.2⟩

/-- The numbers in the text of a refusal: the modulus, or the base with it. -/
def shown (G N x : Int) : List Int :=
  if N < 2 then [N] else if x < 0 ∧ Int.gcd G N ≠ 1 then [G, N] else []

lemma prove_of_refused [DigitLimit] (o : Oracles) (h : Refused G N C x) :
    Refuses (shown G N x) (prove o G N C x) := by
  rw [prove, shown]
  split_ifs with hN hbase
  · exact (Modular.pow_refuses_modulus hN G x).bind _
  · exact (Modular.pow_refuses_base (not_lt.mp hN) hbase.1 hbase.2).bind _
  · have hfalse : ¬IsPower G x C N := (h.resolve_left hN).resolve_left hbase
    have hcomputed : 0 ≤ x ∨ Int.gcd G N = 1 := by
      rwa [not_and_or, not_lt, ne_eq, not_not] at hbase
    obtain ⟨power, hpower, hne⟩ := Modular.pow_of_false (not_lt.mp hN) hcomputed hfalse
    rw [hpower, ok_bind, if_pos hne]
    exact .throw .pokeStarStatement

lemma prove_of_not_refused [DigitLimit] (o : Oracles) (h : ¬Refused G N C x) :
    prove o G N C x = Challenge.pokeStar o G N C >>= fun l =>
      Modular.pow G (x / l) N >>= fun Q => .ok ⟨Q, x % l⟩ := by
  rw [prove, Modular.pow_eq_ok_iff.mpr (isPower_of_not_refused h), ok_bind,
    if_neg (not_not.mpr rfl)]
  rfl

/-- **The prover of a known exponent** answers or refuses. -/
theorem prove_complete [DigitLimit] (o : Oracles) (G N C x : Int) :
    Complete (prove o G N C x) (verify o G N C) (Challenge.pokeStar o G N C)
      (Refused G N C x) (shown G N x) [G, N, C] := by
  refine .of_division (fun l Q => ⟨Q, x % l⟩) (prove_of_refused o) isPower_of_not_refused
    (prove_of_not_refused o) (Challenge.pokeStar_asks o G N C)
    (fun l => Challenge.two_le_pokeStar) ?_
  intro l Q h hl hequation
  have hl₀ := Challenge.two_le_pokeStar hl
  have hN := (isPower_of_not_refused h).1
  have hrange : 0 ≤ x % (l : Int) ∧ x % (l : Int) < l :=
    ⟨Int.emod_nonneg _ (by omega), Int.emod_lt_of_pos _ (by omega)⟩
  exact (verify_decides Q (x % l) hl).eq_true_iff.mpr ⟨⟨hN, hrange⟩, hequation⟩

end PoKEStar

/-- **The provers of exponents answer or refuse.**  A proof that is returned is accepted, for bases
of every kind.  A proof of exponentiation is refused exactly for a negative exponent, a modulus
below two or a false congruence, and a proof of knowledge exactly for a modulus below two, a
negative exponent over a base without an inverse or a false statement; of everything else a proof is
returned as soon as there is a challenge.  Under a limit on numerals this is so as far as the numbers
can be written: those in the text of the refusal, which is the first number at fault, and those that
the challenge is about. -/
theorem exponent_provers_complete [DigitLimit] (o : Oracles) :
    (∀ base mod C x : Int, Complete (PoE.prove o base mod C x) (PoE.verify o base mod C x)
      (Challenge.poe o base mod C x) (x < 0 ∨ mod < 2 ∨ ¬base ^ x.toNat ≡ C [ZMOD mod])
      (if x < 0 then [x] else if mod < 2 then [mod] else []) [base, mod, C, x]) ∧
    (∀ G N C x : Int, Complete (PoKEStar.prove o G N C x) (PoKEStar.verify o G N C)
      (Challenge.pokeStar o G N C) (N < 2 ∨ x < 0 ∧ Int.gcd G N ≠ 1 ∨ ¬IsPower G x C N)
      (if N < 2 then [N] else if x < 0 ∧ Int.gcd G N ≠ 1 then [G, N] else []) [G, N, C]) :=
  ⟨PoE.prove_complete o, PoKEStar.prove_complete o⟩

open Unlimited in
/-- The power of a base that is no unit, a negative power of one that is, and a negative power of
one that is none. -/
theorem exponent_provers_complete_small :
    (∃ proof, PoE.prove constantOracles 2 8 0 7 = .ok proof ∧
      PoE.verify constantOracles 2 8 0 7 proof = .ok true) ∧
    (∃ proof, PoKEStar.prove constantOracles 3 7 6 (-3) = .ok proof ∧
      PoKEStar.verify constantOracles 3 7 6 proof = .ok true) ∧
    (∃ cause, PoKEStar.prove constantOracles 2 8 0 (-3) = .error (.precondition cause)) := by
  obtain ⟨hexponentiation, hknowledge⟩ := exponent_provers_complete constantOracles
  refine ⟨?_, ?_, (hknowledge 2 8 0 (-3)).refused.mpr ⟨?_, fun n _ => writable_off n⟩⟩
  · have hl : (Challenge.poe constantOracles 2 8 0 7).toOption = some 5 := by decide +kernel
    have hcomplete := hexponentiation 2 8 0 7
    rcases hcomplete.returned (by decide) (fun n _ => writable_off n) with
      ⟨proof, hproof⟩ | ⟨-, hsteps⟩
    · exact ⟨proof, hproof, hcomplete.accepted proof hproof⟩
    · rw [hsteps] at hl
      cases hl
  · have hl : (Challenge.pokeStar constantOracles 3 7 6).toOption = some 5 := by decide +kernel
    have hpower : IsPower 3 (-3) 6 7 := ⟨5, by decide, by decide⟩
    have hgcd : Int.gcd 3 7 = 1 := by decide
    have hcomplete := hknowledge 3 7 6 (-3)
    rcases hcomplete.returned (by simp [hpower, hgcd])
      (fun n _ => writable_off n) with ⟨proof, hproof⟩ | ⟨-, hsteps⟩
    · exact ⟨proof, hproof, hcomplete.accepted proof hproof⟩
    · rw [hsteps] at hl
      cases hl
  · exact .inr (.inl ⟨by decide, by decide⟩)

end HiddenOrder
