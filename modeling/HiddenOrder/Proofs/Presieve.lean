import HiddenOrder.Proofs.Setup

/-!
# The sieve changes nothing

Before a candidate `c` for the half of a safe prime is tested, it is thrown away when a small prime
divides `2c + 1`.  That saves tests and must not change anything else: neither which candidates
succeed, nor which draws are made, nor how the search ends.  Above the small primes a number with
such a factor is composite, and candidates of fifteen bits or more are above them, so a test that
refuses these numbers refuses whatever the sieve throws away.  One trial is then the same with and
without the sieve, and so is every search that is made of such trials.

For one worker that may go on without limit, the search is a walk along the candidates in the order
in which they are drawn, and it ends at the first one that is the half of a safe prime.

* `unsievedSafePrime` — the search without the sieve.
* **`safePrime_eq_unsieved`** — the two searches are the same computation.
* `FirstDrawn` — the first of the things drawn that has some property.
* **`attempt_eq_ok_iff`** — trial after trial finds the first that passes.
* **`sieve_transparent`** — what the sieve throws away, and what the search returns.
-/

namespace HiddenOrder

/-! ## The search without the sieve -/

section Unsieved

variable {o : Oracles} {cfg : Settings} {bits : ℤ}

/-- One trial without the sieve. -/
def unsievedTrial (o : Oracles) (bits : ℕ) : Draw (Option ℕ) := do
  let c ← o.source.prime o.isPrime (bits - 1) o.steps
  pure (if o.isPrime (2 * c + 1) then some (2 * c + 1) else none)

/-- The search for a safe prime without the sieve. -/
def unsievedSafePrime [DigitLimit] (o : Oracles) (cfg : Settings) (bits : ℤ) : Draw ℕ := do
  if bits < leastSetupBits / 2 then
    throw (refuse (.safePrimeBits (leastSetupBits / 2) bits))
  else
    let failure ← Draw.ofExcept (exhausted (.safePrime bits))
    race (fun _ _ =>
        withinTrials cfg.maxTrials o.steps .outOfSteps (unsievedTrial o bits.toNat))
      cfg.workers failure

/-- The largest sieving prime is 997. -/
lemma not_prime_of_sievedOut {c : ℕ} (hlarge : 997 < 2 * c + 1)
    (h : sievedOut sievingPrimes c = true) : ¬(2 * c + 1).Prime := by
  intro hprime
  have hne : 2 * c + 1 ≠ 999 := by
    intro heq
    rw [heq] at hprime
    norm_num at hprime
  rw [sievedOut_eq_false hprime (by rw [sieveLimit]; omega)] at h
  cases h

/-- Candidates of enough bits are above the sieve. -/
lemma lt_of_candidate {isPrime : PrimeTest} {source : Entropy} {k steps i j c : ℕ} (hk : 16 ≤ k)
    (h : source.prime isPrime (k - 1) steps i = .ok c j) : 997 < 2 * c + 1 := by
  have hends := prime_ends (E := fun _ => True) isPrime source trivial trivial
    (show 1 ≤ k - 1 by omega) steps
  obtain ⟨⟨-, hlow, -⟩, -⟩ := hends.of_ok trivial h
  have hpow : 2 ^ 14 ≤ 2 ^ (k - 1 - 1) := Nat.pow_le_pow_right two_pos (by omega)
  omega

lemma safePrimeTrial_eq_unsieved
    (htest : ∀ c, 997 < 2 * c + 1 → sievedOut sievingPrimes c = true →
      o.isPrime (2 * c + 1) = false) {k : ℕ} (hk : 16 ≤ k) :
    safePrimeTrial o k = unsievedTrial o k := by
  rw [safePrimeTrial, unsievedTrial]
  refine bind_congr_of_ok fun i c j hc => ?_
  by_cases hsieved : sievedOut sievingPrimes c = true
  · have hrefused := htest c (lt_of_candidate hk hc) hsieved
    rw [if_pos hsieved, hrefused, if_neg Bool.false_ne_true]
  · rw [if_neg hsieved]

/-- **The two searches are the same computation**, with the same results, draws and failures, for any
number of workers and of trials.  All that is asked of the test is that above the sieving primes it
refuses what the sieve throws away. -/
theorem safePrime_eq_unsieved [DigitLimit]
    (htest : ∀ c, 997 < 2 * c + 1 → sievedOut sievingPrimes c = true →
      o.isPrime (2 * c + 1) = false) (cfg : Settings) (hbits : 16 ≤ bits) :
    safePrime o cfg bits = unsievedSafePrime o cfg bits := by
  rw [safePrime, unsievedSafePrime, safePrimeTrial_eq_unsieved htest (by omega)]

end Unsieved

/-! ## The first thing drawn -/

section First

variable {α β : Type} {d : Draw α} {P : α → Prop} {refused : List α} {a c : α} {i j : ℕ}

/-- Of the things drawn from draw `i` on, `a` is the first that has `P`, and `refused` are those
before it; `j` is where the draws stand then. -/
structure FirstDrawn (d : Draw α) (P : α → Prop) (refused : List α) (a : α) (i j : ℕ) : Prop where
  drawn : Draw.times d (refused.length + 1) i = .ok (refused ++ [a]) j
  before : ∀ c ∈ refused, ¬P c
  holds : P a

namespace FirstDrawn

lemma nil_iff : FirstDrawn d P [] a i j ↔ d i = .ok a j ∧ P a := by
  constructor
  · rintro ⟨hdrawn, -, hholds⟩
    obtain ⟨a', i₁, rest, ha, hrest, heq⟩ := Draw.times_succ_eq_ok.mp hdrawn
    cases heq
    cases hrest
    exact ⟨ha, hholds⟩
  · rintro ⟨ha, hholds⟩
    exact ⟨Draw.times_succ_eq_ok.mpr ⟨a, j, [], ha, rfl, rfl⟩, by simp, hholds⟩

lemma cons_iff :
    FirstDrawn d P (c :: refused) a i j ↔
      ∃ i₁, d i = .ok c i₁ ∧ ¬P c ∧ FirstDrawn d P refused a i₁ j := by
  constructor
  · rintro ⟨hdrawn, hbefore, hholds⟩
    obtain ⟨c', i₁, rest, hc, hrest, heq⟩ := Draw.times_succ_eq_ok.mp hdrawn
    obtain ⟨rfl, rfl⟩ := List.cons.inj heq
    obtain ⟨hnot, hbefore⟩ := List.forall_mem_cons.mp hbefore
    exact ⟨i₁, hc, hnot, hrest, hbefore, hholds⟩
  · rintro ⟨i₁, hc, hnot, hrest, hbefore, hholds⟩
    have hdrawn := Draw.times_succ_eq_ok.mpr ⟨c, i₁, _, hc, hrest, rfl⟩
    exact ⟨hdrawn, List.forall_mem_cons.mpr ⟨hnot, hbefore⟩, hholds⟩

end FirstDrawn

/-- **Trial after trial finds the first that passes**, as long as it comes up within the trials
allowed, and finds nothing else. -/
theorem attempt_eq_ok_iff {passes : α → Bool} {f : α → β} {b : β} {e : Error} {n : ℕ} :
    attempt (do let a ← d; pure (if passes a then some (f a) else none)) (throw e) n i
        = .ok (some b) j ↔
      ∃ refused a, refused.length < n ∧ FirstDrawn d (passes · = true) refused a i j ∧ b = f a := by
  -- a trial that finds nothing becomes the head of what was refused, and the walk goes on from there
  induction n generalizing i with
  | zero =>
      rw [attempt, throw_run]
      simp
  | succ n ih =>
      rw [attempt, bind_run_eq_ok]
      constructor
      · rintro ⟨found, i₁, htrial, h⟩
        obtain ⟨a, i₂, ha, htest⟩ := bind_run_eq_ok.mp htrial
        cases htest
        by_cases hpass : passes a = true
        · rw [if_pos hpass] at h
          cases h
          exact ⟨[], a, Nat.succ_pos n, FirstDrawn.nil_iff.mpr ⟨ha, hpass⟩, rfl⟩
        · rw [if_neg hpass] at h
          obtain ⟨refused, a', hlen, hfirst, hb⟩ := ih.mp h
          exact ⟨a :: refused, a', Nat.succ_lt_succ hlen,
            FirstDrawn.cons_iff.mpr ⟨i₁, ha, hpass, hfirst⟩, hb⟩
      · rintro ⟨refused, a, hlen, hfirst, rfl⟩
        cases refused with
        | nil =>
            obtain ⟨ha, hpass⟩ := FirstDrawn.nil_iff.mp hfirst
            refine ⟨some (f a), j, bind_run_eq_ok.mpr ⟨a, j, ha, ?_⟩, rfl⟩
            rw [if_pos hpass, pure_run]
        | cons c refused =>
            obtain ⟨i₁, hc, hnot, hfirst⟩ := FirstDrawn.cons_iff.mp hfirst
            refine ⟨none, i₁, bind_run_eq_ok.mpr ⟨c, i₁, hc, ?_⟩,
              ih.mpr ⟨refused, a, Nat.lt_of_succ_lt_succ hlen, hfirst, rfl⟩⟩
            rw [if_neg hnot, pure_run]

end First

/-! ## The first safe prime -/

section Transparent

variable {o : Oracles} {cfg : Settings} {bits : ℤ}

/-- One worker that may go on without limit finds the first candidate that passes. -/
lemma unsievedSafePrime_eq_ok_iff [DigitLimit] (hworkers : cfg.workers ≤ 1)
    (htrials : cfg.maxTrials = none) (hbits : 16 ≤ bits) {i p j : ℕ} :
    unsievedSafePrime o cfg bits i = .ok p j ↔
      Writable bits ∧ ∃ refused c, refused.length < o.steps ∧
        FirstDrawn (o.source.prime o.isPrime (bits.toNat - 1) o.steps)
          (fun c => o.isPrime (2 * c + 1) = true) refused c i j ∧ p = 2 * c + 1 := by
  rw [← attempt_eq_ok_iff (e := .outOfSteps), unsievedSafePrime,
    if_neg (by rw [leastSetupBits]; omega)]
  by_cases hname : Writable bits
  · rw [bind_run_of_ok (Draw.ofExcept_run_eq_ok.mpr ⟨exhausted_of_writable rfl hname, rfl⟩),
      and_iff_right hname, race_of_le_one _ hworkers, htrials, bind_run_eq_ok, withinTrials]
    constructor
    · rintro ⟨found, i₁, hrun, h⟩
      cases found with
      | none => cases h
      | some p' =>
          cases h
          exact hrun
    · exact fun hrun => ⟨some p, j, hrun, rfl⟩
  · rw [bind_run_of_error (Draw.ofExcept_run_of_error (exhausted_of_not_writable rfl hname))]
    exact iff_of_false (fun h => by cases h) fun h => hname h.1

/-- **The sieve changes nothing.**  It throws away exactly the candidates for which an odd prime
below 1000 divides `2c + 1`, and when that number is above the sieving primes it is no prime.  So for
sixteen bits and more the search is the one without the sieve, in every respect, and what it returns
has as many bits as were asked for.  With one worker and no limit to the trials but the step budget,
it returns `2c + 1` for the first of the candidates drawn for which this is a prime, and returns
nothing else; all this for a number of bits that can be written, since it names the search. -/
theorem sieve_transparent [DigitLimit] (hexact : ∀ n, o.isPrime n = true ↔ n.Prime)
    (hbits : 16 ≤ bits) :
    (∀ c, sievedOut sievingPrimes c = true ↔ ∃ r, r.Prime ∧ 2 < r ∧ r < 1000 ∧ r ∣ 2 * c + 1) ∧
    (∀ c, 997 < 2 * c + 1 → sievedOut sievingPrimes c = true → ¬(2 * c + 1).Prime) ∧
    (∀ cfg, safePrime o cfg bits = unsievedSafePrime o cfg bits) ∧
    (∀ cfg i p j, safePrime o cfg bits i = .ok p j → (bitLength p : ℤ) = bits) ∧
    ∀ cfg, cfg.workers ≤ 1 → cfg.maxTrials = none → ∀ i p j,
      safePrime o cfg bits i = .ok p j ↔
        Writable bits ∧ ∃ refused c, refused.length < o.steps ∧
          FirstDrawn (o.source.prime o.isPrime (bits.toNat - 1) o.steps)
            (fun c => (2 * c + 1).Prime) refused c i j ∧ p = 2 * c + 1 := by
  have htest : ∀ c, 997 < 2 * c + 1 → sievedOut sievingPrimes c = true →
      o.isPrime (2 * c + 1) = false := by
    intro c hlarge hsieved
    rw [← Bool.not_eq_true, hexact]
    exact not_prime_of_sievedOut hlarge hsieved
  refine ⟨sievedOut_iff, fun c => not_prime_of_sievedOut,
    fun cfg => safePrime_eq_unsieved htest cfg hbits, ?_, ?_⟩
  · intro cfg i p j h
    rw [((safePrime_ends o cfg hbits).of_ok trivial h).1.bitLength]
    omega
  · intro cfg hworkers htrials i p j
    rw [safePrime_eq_unsieved htest cfg hbits, unsievedSafePrime_eq_ok_iff hworkers htrials hbits]
    simp only [hexact]

/-- Oracles with a tape of two candidates, of which the first one is thrown away: three divides twice
it and one. -/
def twoCandidates : Oracles := { tapeOracles [16411, 32561] with steps := 2 }

open Unlimited in
theorem sieve_transparent_65123 :
    ((∀ n, twoCandidates.isPrime n = true ↔ n.Prime) ∧ (16 : ℤ) ≤ 16 ∧
      Settings.standard.workers ≤ 1 ∧ Settings.standard.maxTrials = none) ∧
    sievedOut sievingPrimes 16411 = true ∧ safePrime twoCandidates .standard 16 0 = .ok 65123 2 ∧
      (bitLength 65123 : ℤ) = 16 := by
  have hexact : ∀ n, twoCandidates.isPrime n = true ↔ n.Prime :=
    tapeOracles_exact [16411, 32561]
  obtain ⟨hsieved, -, -, hlength, hfirst⟩ := sieve_transparent hexact (le_refl (16 : ℤ))
  have hrefused : twoCandidates.source.prime twoCandidates.isPrime 15 2 0 = .ok 16411 1 :=
    prime_of_draw two_pos ((hexact _).mpr (by norm_num)) (by decide) (by decide) (by decide) rfl
  have hdrawn : twoCandidates.source.prime twoCandidates.isPrime 15 2 1 = .ok 32561 2 :=
    prime_of_draw two_pos ((hexact _).mpr (by norm_num)) (by decide) (by decide) (by decide) rfl
  have hfound : safePrime twoCandidates .standard 16 0 = .ok 65123 2 := by
    refine (hfirst .standard (by decide) rfl 0 65123 2).mpr
      ⟨writable_off 16, [16411], 32561, by decide, ?_, rfl⟩
    exact FirstDrawn.cons_iff.mpr
      ⟨1, hrefused, by norm_num, FirstDrawn.nil_iff.mpr ⟨hdrawn, by norm_num⟩⟩
  exact ⟨⟨hexact, by decide, by decide, rfl⟩, (hsieved 16411).mpr ⟨3, by norm_num⟩, hfound,
    hlength .standard 0 65123 2 hfound⟩

end Transparent

end HiddenOrder
