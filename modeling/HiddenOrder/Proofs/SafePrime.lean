import HiddenOrder.Group.SafePrime
import HiddenOrder.Proofs.Ends
import HiddenOrder.Proofs.Sieve
import Mathlib.Data.Nat.Bitwise
import Mathlib.Data.Nat.Prime.Basic

/-!
# What the search for a safe prime finds

Candidates are drawn as primes of one bit less, and a small prime that divides twice a candidate and
one throws it away before it is tested.  What passes is a safe prime of the length that is asked
for.  The converse needs the sieve not to lose any: the small primes are odd and below a bound that
safe primes of so many bits exceed, so only composite numbers are thrown away, and every safe prime
of that length is found by the draw of its half.

* `IsSafePrime` — a safe prime of so many bits, as far as the test can tell.
* `SafePrimeFailure`, **`safePrime_ends`** — what the search for one returns, and how it fails.
* **`sievedOut_iff`** — what the sieve throws away.
* **`sievedOut_eq_false`** — no candidate for a safe prime is among it.
* **`safePrime_of_draw`** — the draw of a half finds the safe prime.
-/

namespace HiddenOrder

/-! ## What is found -/

/-- A safe prime of so many bits, as far as the test can tell: twice a prime and one. -/
structure IsSafePrime (o : Oracles) (bits p : ℕ) : Prop where
  half : ∃ c, p = 2 * c + 1 ∧ o.isPrime c = true
  prime : o.isPrime p = true
  range : 2 ^ (bits - 1) < p ∧ p < 2 ^ bits

/-- The ways in which the search for a safe prime of so many bits fails: the source does, the trials
are spent, or the steps are; and the search cannot even be named when its number of bits cannot be
written. -/
inductive SafePrimeFailure [DigitLimit] (bits : ℤ) : Error → Prop where
  | source : SafePrimeFailure bits (.fault .entropySource)
  | trials : SafePrimeFailure bits (.trialFailed (.safePrime bits))
  | unended : SafePrimeFailure bits .outOfSteps
  | unnamed (hbits : ¬Writable bits) : SafePrimeFailure bits (.fault .longNumeral)

section SafePrime

variable {o : Oracles} {cfg : Settings} {E : Error → Prop}

/-- A number of `k` bits that was made odd and given its highest bit still has `k` bits. -/
lemma range_setBits {t k : ℕ} (hk : 1 ≤ k) (ht : t < 2 ^ k) :
    2 ^ (k - 1) ≤ t ||| 2 ^ (k - 1) ||| 1 ∧ t ||| 2 ^ (k - 1) ||| 1 < 2 ^ k := by
  have htop : 2 ^ (k - 1) < 2 ^ k := Nat.pow_lt_pow_right (by omega) (by omega)
  have hone : 1 < 2 ^ k := Nat.one_lt_two_pow (by omega)
  exact ⟨Nat.right_le_or.trans Nat.left_le_or,
    Nat.or_lt_two_pow (Nat.or_lt_two_pow ht htop) hone⟩

lemma prime_ends (isPrime : PrimeTest) (source : Entropy) (hsource : E (.fault .entropySource))
    (hunended : E .outOfSteps) {k : ℕ} (hk : 1 ≤ k) (steps : ℕ) :
    Ends (fun _ => True) (source.prime isPrime k steps)
      (fun c => isPrime c = true ∧ 2 ^ (k - 1) ≤ c ∧ c < 2 ^ k) E := by
  induction steps with
  | zero => exact .throw hunended
  | succ steps ih =>
      have hnext : Ends (fun _ => True) (source.next (Nat.pow 2 k))
          (fun t : Option ℕ => ∀ n ∈ t, n < 2 ^ k) E := by
        intro i _
        refine ⟨?_, trivial⟩
        rintro n hn
        obtain ⟨answer, -, rfl⟩ := Option.map_eq_some_iff.mp hn
        have hpos : 0 < 2 ^ k := Nat.two_pow_pos k
        have := Int.emod_lt_of_pos answer (show (0 : ℤ) < (2 ^ k : ℕ) by omega)
        show (answer % ((2 ^ k : ℕ) : ℤ)).toNat < 2 ^ k
        omega
      rw [Entropy.prime]
      refine hnext.bind fun t ht => ?_
      cases t with
      | none => exact .throw hsource
      | some t =>
          have hrange := range_setBits hk (ht t rfl)
          dsimp only
          split_ifs with hprime
          · exact .pure ⟨hprime, hrange⟩
          · exact ih

/-- A trial fails only when the source does, or the watch over its draws ends. -/
lemma safePrimeTrial_ends (o : Oracles) (hsource : E (.fault .entropySource))
    (hunended : E .outOfSteps) {bits : ℕ} (hbits : 2 ≤ bits) :
    Ends (fun _ => True) (safePrimeTrial o bits) (fun r => ∀ p ∈ r, IsSafePrime o bits p) E := by
  rw [safePrimeTrial]
  refine (prime_ends o.isPrime o.source hsource hunended (by omega) o.steps).bind fun c hc => ?_
  obtain ⟨hprime, hlow, hhigh⟩ := hc
  have hlow' : 2 ^ (bits - 1) = 2 * 2 ^ (bits - 1 - 1) := by
    rw [← pow_succ', show bits - 1 - 1 + 1 = bits - 1 by omega]
  have hhigh' : 2 ^ bits = 2 * 2 ^ (bits - 1) := by
    rw [← pow_succ', show bits - 1 + 1 = bits by omega]
  split_ifs with hsieved hsafe
  · exact .pure (by rintro p ⟨⟩)
  · refine .pure ?_
    rintro p ⟨⟩
    exact ⟨⟨c, rfl, hprime⟩, hsafe, by omega, by omega⟩
  · exact .pure (by rintro p ⟨⟩)

/-- A search for a safe prime that can be named is a race. -/
lemma safePrime_eq_race [DigitLimit] {bits : ℤ} (hbits : 16 ≤ bits) (hname : Writable bits) :
    safePrime o cfg bits = race (fun _ _ =>
        withinTrials cfg.maxTrials o.steps .outOfSteps (safePrimeTrial o bits.toNat))
      cfg.workers (.trialFailed (.safePrime bits)) := by
  rw [safePrime, if_neg (by rw [leastSetupBits]; omega), exhausted_of_writable rfl hname]
  rfl

lemma safePrime_of_not_writable [DigitLimit] {bits : ℤ} (hbits : 16 ≤ bits)
    (hname : ¬Writable bits) : safePrime o cfg bits = throw (.fault .longNumeral) := by
  rw [safePrime, if_neg (by rw [leastSetupBits]; omega), exhausted_of_not_writable rfl hname]
  rfl

/-- **A safe prime** of the length that is asked for, when the search for it does not fail. -/
theorem safePrime_ends [DigitLimit] (o : Oracles) (cfg : Settings) {bits : ℤ} (hbits : 16 ≤ bits) :
    Ends (fun _ => True) (safePrime o cfg bits) (IsSafePrime o bits.toNat)
      (SafePrimeFailure bits) := by
  by_cases hname : Writable bits
  · rw [safePrime_eq_race hbits hname]
    refine .race (fun _ _ => ?_) .trials cfg.workers
    exact .withinTrials (safePrimeTrial_ends o .source .unended (by omega)) .unended cfg.maxTrials
      o.steps
  · rw [safePrime_of_not_writable hbits hname]
    exact .throw (.unnamed hname)

end SafePrime

/-! ## What is not lost -/

lemma mem_sievingPrimes {r : ℕ} : r ∈ sievingPrimes ↔ r.Prime ∧ 2 < r ∧ r < sieveLimit := by
  rw [sievingPrimes, List.mem_filter, mem_primesBelow, decide_eq_true_iff, Nat.cast_lt, and_assoc,
    and_comm, and_assoc]

/-- The remainder that the sieve looks for is the one with which an odd number divides `2c + 1`. -/
lemma mod_eq_half_iff {r c : ℕ} (hr : r % 2 = 1) : c % r = (r - 1) / 2 ↔ r ∣ 2 * c + 1 := by
  have hlt := Nat.mod_lt c (show 0 < r by omega)
  have hc := Nat.div_add_mod c r
  have hsplit : 2 * c + 1 = r * (2 * (c / r)) + (2 * (c % r) + 1) := by
    rw [Nat.mul_left_comm]
    omega
  rw [hsplit, Nat.dvd_add_right (Nat.dvd_mul_right _ _)]
  constructor
  · intro hrest
    rw [show 2 * (c % r) + 1 = r by omega]
  · -- what is left is odd and below twice `r`, so that it is `r` itself
    rintro ⟨k, hk⟩
    have hpos : k ≠ 0 := by
      rintro rfl
      omega
    have htwice : k < 2 := Nat.lt_of_mul_lt_mul_left (a := r) (by omega)
    obtain rfl : k = 1 := by omega
    omega

/-- **What the sieve throws away**: the candidates for which an odd prime below its limit divides
`2c + 1`. -/
theorem sievedOut_iff (c : ℕ) :
    sievedOut sievingPrimes c = true ↔ ∃ r, r.Prime ∧ 2 < r ∧ r < sieveLimit ∧ r ∣ 2 * c + 1 := by
  rw [sievedOut, List.any_eq_true]
  refine exists_congr fun r => ?_
  rw [mem_sievingPrimes, beq_iff_eq, and_assoc, and_assoc]
  refine and_congr_right fun hr => and_congr_right fun htwo => and_congr_right fun _ => ?_
  exact mod_eq_half_iff (hr.eq_two_or_odd.resolve_left (by omega))

/-- **The sieve throws no candidate for a safe prime away**: a small prime that it finds is a factor
of twice the candidate and one. -/
theorem sievedOut_eq_false {c : ℕ} (hprime : (2 * c + 1).Prime) (hlarge : sieveLimit ≤ 2 * c + 1) :
    sievedOut sievingPrimes c = false := by
  rw [← Bool.not_eq_true, sievedOut_iff]
  rintro ⟨r, hr, -, hlt, hdvd⟩
  have := (Nat.prime_dvd_prime_iff_eq hr hprime).mp hdvd
  omega

lemma or_two_pow_eq_self {n i : ℕ} (h : n.testBit i = true) : n ||| 2 ^ i = n := by
  refine Nat.eq_of_testBit_eq fun j => ?_
  rw [Nat.testBit_or, Nat.testBit_two_pow]
  by_cases hij : i = j
  · rw [← hij, h, Bool.true_or]
  · simp [hij]

/-- A number of so many bits that is odd is left as it is when these bits are set. -/
lemma setBits_eq_self {c k : ℕ} (hlow : 2 ^ k ≤ c) (hhigh : c < 2 ^ (k + 1)) (hodd : c % 2 = 1) :
    c ||| 2 ^ k ||| 1 = c := by
  have htop := Nat.testBit_of_two_pow_le_and_two_pow_add_one_gt hlow hhigh
  have hlowest : c.testBit 0 = true := by simp [hodd]
  rw [or_two_pow_eq_self htop, show (1 : ℕ) = 2 ^ 0 from rfl, or_two_pow_eq_self hlowest]

section Found

variable {o : Oracles} {cfg : Settings} {bits : ℤ} {c i : ℕ}

lemma prime_of_draw {isPrime : PrimeTest} {source : Entropy} {k steps : ℕ} (hsteps : 0 < steps)
    (hprime : isPrime c = true) (hlow : 2 ^ k ≤ c) (hhigh : c < 2 ^ (k + 1)) (hodd : c % 2 = 1)
    (hdraw : source i (2 ^ (k + 1)) = some (c : ℤ)) :
    source.prime isPrime (k + 1) steps i = .ok c (i + 1) := by
  obtain ⟨n, rfl⟩ := Nat.exists_eq_succ_of_ne_zero hsteps.ne'
  have hnext : source.next (Nat.pow 2 (k + 1)) i = .ok (some c) (i + 1) := by
    rw [Entropy.next, show Nat.pow 2 (k + 1) = 2 ^ (k + 1) from rfl, hdraw, Option.map_some,
      ← Int.natCast_mod, Nat.mod_eq_of_lt hhigh, Int.toNat_natCast]
  rw [Entropy.prime, bind_run_of_ok hnext]
  dsimp only
  rw [show Nat.pow 2 (k + 1 - 1) = 2 ^ k from rfl, setBits_eq_self hlow hhigh hodd, if_pos hprime]
  rfl

lemma safePrimeTrial_of_draw (hexact : ∀ n, o.isPrime n = true ↔ n.Prime) (hsteps : 0 < o.steps)
    {k : ℕ} (hk : 16 ≤ k) (hp : IsSafePrime o k (2 * c + 1))
    (hdraw : o.source i (2 ^ (k - 1)) = some (c : ℤ)) :
    safePrimeTrial o k i = .ok (some (2 * c + 1)) (i + 1) := by
  obtain ⟨m, rfl⟩ : ∃ m, k = m + 2 := ⟨k - 2, by omega⟩
  obtain ⟨c', hc', hprime⟩ := hp.half
  obtain rfl : c = c' := by omega
  obtain ⟨hlow, hhigh⟩ := hp.range
  rw [show m + 2 - 1 = m + 1 from rfl, pow_succ'] at hlow
  rw [pow_succ'] at hhigh
  -- large enough for the sieve, and too large for the even prime
  have hm : 2 ^ 14 ≤ 2 ^ m := Nat.pow_le_pow_right (by decide) (by omega)
  have hodd : c % 2 = 1 := ((hexact c).mp hprime).eq_two_or_odd.resolve_left (by omega)
  have hfound := prime_of_draw hsteps hprime (by omega) (by omega) hodd hdraw
  rw [safePrimeTrial, show m + 2 - 1 = m + 1 from rfl, bind_run_of_ok hfound,
    sievedOut_eq_false ((hexact _).mp hp.prime) (by rw [sieveLimit]; omega), if_neg (by decide),
    if_pos hp.prime]
  rfl

/-- **Every safe prime is found**: the draw of its half finds it. -/
theorem safePrime_of_draw [DigitLimit] (hexact : ∀ n, o.isPrime n = true ↔ n.Prime)
    (hsteps : 0 < o.steps) (hcfg : cfg.maxTrials = none) (hbits : 16 ≤ bits) (hname : Writable bits)
    (hp : IsSafePrime o bits.toNat (2 * c + 1))
    (hdraw : o.source i (2 ^ (bits.toNat - 1)) = some (c : ℤ)) :
    safePrime o cfg bits i = .ok (2 * c + 1) (i + 1) := by
  have htrial := safePrimeTrial_of_draw hexact hsteps (by omega) hp hdraw
  rw [safePrime_eq_race hbits hname]
  refine race_of_first ?_
  rw [hcfg, withinTrials]
  exact attempt_of_some htrial hsteps

end Found

end HiddenOrder
