import HiddenOrder.Proofs.Bytes
import HiddenOrder.Proofs.CacheCalls
import HiddenOrder.Proofs.Draws
import HiddenOrder.Proofs.History
import Mathlib.Data.Int.ModEq
import Mathlib.Tactic.NormNum.Prime

/-!
# Which numbers are tested

A search for four squares draws numbers, makes candidates of them, and asks whether these are prime.
Nothing on the way checks that the candidates are such as the search needs: it is in their shape.

* In a progression a candidate is `M · odd · k - 1`.  There is one factor two in `M` and none in
  `odd` or in `k`, so it is one modulo four; and it is minus one modulo `odd` and modulo all small
  primes.  What the workers take for `k` differs modulo twice the number of them, so that no number
  is a candidate of two workers.
* For large numbers a candidate is `2 · odd · M - l`, with an odd `M` and a prime `l` of twenty-five
  bits that is one modulo four.  Then it is one modulo four as well, and `-l` modulo `odd`.

Which numbers a run asks about is said by what it cannot tell apart: if two tests agree on certain
numbers, and one may be put in the place of the other without a change to results, failures, draws
or caches, then nothing else was asked.  The auxiliary primes `l` are asked about too, and about
these the test has to be right.

* `AsksOnly` — a run that asks about some numbers only.
* **`lagrangeTrial_asksOnly`**, **`largeTrial_asksOnly`** — what one trial asks.
* **`fits_of_mem`**, **`eq_of_candidate_eq`**, **`largeCandidate_residues`** — what the candidates
  are.
* **`candidates_fit`** — what the searches ask.
-/

namespace HiddenOrder

/-! ## What a run asks -/

/-- The same oracles with another test of primality. -/
def Oracles.withTest (o : Oracles) (test : PrimeTest) : Oracles := { o with isPrime := test }

/-- The test is right about some numbers. -/
def PrimeTest.RightOn (test : PrimeTest) (known : Set ℤ) : Prop :=
  ∀ p ∈ known, test.int p = true ↔ p.toNat.Prime

/-- Besides numbers about which the test is known to be right, the run asks about some only: tests
that agree on these give the same run. -/
def AsksOnly {ρ : Type*} (known asked : Set ℤ) (run : PrimeTest → ρ) : Prop :=
  ∀ test test' : PrimeTest, test.RightOn known → test'.RightOn known →
    (∀ p ∈ asked, test.int p = test'.int p) → run test = run test'

namespace AsksOnly

variable {ι ρ τ : Type*} {ε σ α β : Type} {known asked asked' : Set ℤ} {run : PrimeTest → ρ}

lemma mono (h : AsksOnly known asked run) (hsub : asked ⊆ asked') : AsksOnly known asked' run :=
  fun test test' hright hright' hagree =>
    h test test' hright hright' fun p hp => hagree p (hsub hp)

/-- What is made of a run asks what the run asks. -/
lemma map (h : AsksOnly known asked run) (f : ρ → τ) :
    AsksOnly known asked fun test => f (run test) :=
  fun test test' hright hright' hagree => congrArg f (h test test' hright hright' hagree)

lemma pi {run : PrimeTest → ι → ρ} (h : ∀ i, AsksOnly known asked fun test => run test i) :
    AsksOnly known asked run :=
  fun test test' hright hright' hagree =>
    funext fun i => h i test test' hright hright' hagree

/-- A second step that asks nothing. -/
lemma bind {x : PrimeTest → EStateM ε σ α} {s : σ} (h : AsksOnly known asked fun test => x test s)
    (f : α → EStateM ε σ β) : AsksOnly known asked fun test => (x test >>= f) s :=
  fun test test' hright hright' hagree =>
    bind_run_congr (h test test' hright hright' hagree) fun _ _ _ => rfl

end AsksOnly

variable {o : Oracles} {cfg : Settings} {n : ℤ} {odd : ℕ} {limit : ℤ} {s : SearchState}

/-! ## Steps that ask nothing -/

lemma rootFromDraws_withTest [DigitLimit] (o : Oracles) (test : PrimeTest) (p : ℤ) (trials : ℕ) :
    rootFromDraws (o.withTest test) p trials = rootFromDraws o p trials := by
  induction trials with
  | zero => rfl
  | succ trials ih =>
      rw [rootFromDraws, rootFromDraws, ih]
      rfl

/-- The squares of a prime are found without another test. -/
lemma primeTwoSquares_withTest [DigitLimit] (o : Oracles) (test : PrimeTest) (p : ℤ) :
    primeTwoSquares (o.withTest test) p = primeTwoSquares o p := by
  have hroot : sqrtMinusOne (o.withTest test) p = sqrtMinusOne o p := by
    rw [sqrtMinusOne, sqrtMinusOne, rootFromDraws_withTest]
  rw [primeTwoSquares, primeTwoSquares, hroot]

/-! ## Products of primes -/

lemma odd_prod {ps : Finset ℕ} (h : ∀ p ∈ ps, Odd p) : Odd (∏ p ∈ ps, (p : ℤ)) :=
  Finset.prod_induction _ Odd (fun _ _ => Odd.mul) odd_one fun p hp =>
    (Int.odd_coe_nat p).mpr (h p hp)

/-- The product of the primes of the search in a progression. -/
def smallPrimes (n : ℤ) : ℤ :=
  ∏ p ∈ Finset.range (max (bitLength n.toNat) 8) with p.Prime, (p : ℤ)

/-- The product of the primes of the search for large numbers. -/
def oddPrimes (n : ℤ) : ℤ :=
  ∏ p ∈ Finset.range (bitLength n.toNat) with p.Prime ∧ Odd p, (p : ℤ)

lemma smallPrimes_pos (n : ℤ) : 0 < smallPrimes n :=
  Finset.prod_pos fun _ hp => Int.natCast_pos.mpr (Finset.mem_filter.mp hp).2.pos

lemma dvd_smallPrimes {q : ℕ} (hq : q.Prime) (hlt : q < max (bitLength n.toNat) 8) :
    (q : ℤ) ∣ smallPrimes n :=
  Finset.dvd_prod_of_mem _ (Finset.mem_filter.mpr ⟨Finset.mem_range.mpr hlt, hq⟩)

/-- Exactly one of the primes is even. -/
lemma smallPrimes_eq (n : ℤ) : ∃ m, Odd m ∧ smallPrimes n = 2 * m := by
  have htwo : 2 ∈ Finset.filter Nat.Prime (Finset.range (max (bitLength n.toNat) 8)) :=
    Finset.mem_filter.mpr ⟨Finset.mem_range.mpr (by omega), Nat.prime_two⟩
  refine ⟨_, odd_prod fun p hp => ?_, (Finset.mul_prod_erase _ _ htwo).symm⟩
  obtain ⟨hne, hmem⟩ := Finset.mem_erase.mp hp
  exact (Finset.mem_filter.mp hmem).2.odd_of_ne_two hne

lemma odd_oddPrimes (n : ℤ) : Odd (oddPrimes n) :=
  odd_prod fun _ hp => (Finset.mem_filter.mp hp).2.2

/-! ## Candidates in a progression -/

/-- What the search in a progression needs of a candidate. -/
structure Fits (n : ℤ) (odd : ℕ) (p : ℤ) : Prop where
  pos : 0 < p
  mod_four : p % 4 = 1
  mod_odd : p ≡ -1 [ZMOD odd]
  mod_prime : ∀ q : ℕ, q.Prime → q < max (bitLength n.toNat) 8 → p ≡ -1 [ZMOD q]

/-- The candidates of one of several workers: one for each number that can be drawn. -/
def workerCandidates (n : ℤ) (odd worker workers : ℕ) : Set ℤ :=
  {p | ∃ t, (0 ≤ t ∧ t < lagrangeBound odd workers) ∧
    p = lagrangeCandidate (smallPrimes n * odd) worker workers t}

lemma lagrangeCandidate_modEq {pre d : ℤ} (hdvd : d ∣ pre) (worker workers : ℕ) (t : ℤ) :
    lagrangeCandidate pre worker workers t ≡ -1 [ZMOD d] := by
  rw [Int.modEq_iff_dvd, lagrangeCandidate]
  have h := (hdvd.mul_right (t * (2 * workers) + (2 * worker + 1))).neg_right
  rwa [show -1 - (pre * (t * (2 * workers) + (2 * worker + 1)) - 1)
    = -(pre * (t * (2 * workers) + (2 * worker + 1))) by ring]

/-- A candidate is one below twice an odd number: of its factors only one prime is even. -/
lemma lagrangeCandidate_eq (hodd : odd % 2 = 1) (worker workers : ℕ) {t : ℤ} (ht : 0 ≤ t) :
    ∃ c, 0 < c ∧ Odd c ∧
      lagrangeCandidate (smallPrimes n * odd) worker workers t = 2 * c - 1 := by
  obtain ⟨m, hm, heq⟩ := smallPrimes_eq n
  have hmpos : 0 < m := by
    have := smallPrimes_pos n
    omega
  have hoddpos : 0 < (odd : ℤ) := by omega
  have hk : Odd (t * (2 * workers) + (2 * worker + 1)) := ⟨t * workers + worker, by ring⟩
  have hoddodd : Odd (odd : ℤ) := (Int.odd_coe_nat odd).mpr (Nat.odd_iff.mpr hodd)
  refine ⟨m * odd * (t * (2 * workers) + (2 * worker + 1)), by positivity,
    (hm.mul hoddodd).mul hk, ?_⟩
  rw [lagrangeCandidate, heq]
  ring

/-- **Every candidate of every worker is as it should be.** -/
theorem fits_of_mem (hodd : odd % 2 = 1) {worker workers : ℕ} {p : ℤ}
    (hp : p ∈ workerCandidates n odd worker workers) : Fits n odd p := by
  obtain ⟨t, ⟨ht, -⟩, rfl⟩ := hp
  obtain ⟨c, hpos, ⟨b, hb⟩, hc⟩ := lagrangeCandidate_eq (n := n) hodd worker workers ht
  have hmodOdd := lagrangeCandidate_modEq (dvd_mul_left (odd : ℤ) (smallPrimes n)) worker workers t
  refine ⟨by omega, by omega, hmodOdd, fun q hq hlt => ?_⟩
  exact lagrangeCandidate_modEq ((dvd_smallPrimes hq hlt).mul_right _) worker workers t

/-- **Equal candidates are candidates of one worker**, whatever was drawn for them. -/
theorem eq_of_candidate_eq {pre t t' : ℤ} (hpre : pre ≠ 0) {i j workers : ℕ} (hi : i < workers)
    (hj : j < workers)
    (h : lagrangeCandidate pre i workers t = lagrangeCandidate pre j workers t') : i = j := by
  rw [lagrangeCandidate, lagrangeCandidate, sub_left_inj] at h
  have hk := mul_left_cancel₀ hpre h
  -- worker `i` takes the odd numbers of one class modulo twice the number of workers
  have hclass : (i : ℤ) + workers * t = j + workers * t' := by linarith
  have hmod : ((i : ℤ) + workers * t) % workers = (j + workers * t') % workers := by rw [hclass]
  rw [Int.add_mul_emod_self_left, Int.add_mul_emod_self_left,
    Int.emod_eq_of_lt (by omega) (by omega), Int.emod_eq_of_lt (by omega) (by omega)] at hmod
  exact Int.natCast_inj.mp hmod

/-- No number is a candidate of two workers. -/
lemma not_mem_of_mem (hodd : odd % 2 = 1) {i j workers : ℕ} (hlt : i < j) (hj : j < workers)
    {p : ℤ} (hp : p ∈ workerCandidates n odd i workers) : p ∉ workerCandidates n odd j workers := by
  rintro ⟨t', -, hp'⟩
  obtain ⟨t, -, hp⟩ := hp
  have hpre : smallPrimes n * (odd : ℤ) ≠ 0 :=
    mul_ne_zero (smallPrimes_pos n).ne' (by omega)
  exact hlt.ne (eq_of_candidate_eq hpre (hlt.trans hj) hj (hp.symm.trans hp'))

/-! ## The search in a progression -/

/-- What one of the workers of the search does. -/
def lagrangeWorker [DigitLimit] (o : Oracles) (cfg : Settings) (n : ℤ) (odd worker workers : ℕ) :
    Search (Option Hurwitz) :=
  withinTrials cfg.maxTrials o.steps .outOfSteps
    (lagrangeTrial o odd (smallPrimes n * odd) worker workers)

/-- **One trial** asks about a candidate of its worker. -/
theorem lagrangeTrial_asksOnly [DigitLimit] (o : Oracles) (n : ℤ) (odd worker workers : ℕ) :
    AsksOnly ∅ (workerCandidates n odd worker workers) fun test =>
      lagrangeTrial (o.withTest test) odd (smallPrimes n * odd) worker workers := by
  intro test test' _ _ hagree
  beta_reduce
  rw [lagrangeTrial, lagrangeTrial]
  refine bind_congr_of_ok fun s t s' ht => ?_
  have hbounds := Entropy.bounds_of_below (Search.draw_run_eq_ok ht)
  have hp := hagree _ ⟨t, hbounds, rfl⟩
  rw [primeTwoSquares_withTest, primeTwoSquares_withTest, Oracles.withTest, Oracles.withTest, hp]

lemma lagrangeWorker_asksOnly [DigitLimit] (o : Oracles) (cfg : Settings) (n : ℤ)
    (odd worker workers : ℕ) :
    AsksOnly ∅ (workerCandidates n odd worker workers) fun test =>
      lagrangeWorker (o.withTest test) cfg n odd worker workers :=
  (lagrangeTrial_asksOnly o n odd worker workers).map
    (withinTrials cfg.maxTrials o.steps .outOfSteps)

/-- The search, when it can be named, is a race of its workers. -/
lemma lagrangeSearch_run [DigitLimit] (hs : s.cache.Coherent limit) (n : ℤ) :
    ∃ c, ∀ o cfg odd, lagrangeSearch o cfg n odd s = if Writable n
      then race (lagrangeWorker o cfg n odd) cfg.workers (.trialFailed (.fourSquares n))
        ⟨s.draws, c⟩
      else .error (.fault .longNumeral) ⟨s.draws, c⟩ := by
  obtain ⟨c, -, hrun⟩ :=
    Search.primes_of_coherent (fun c hc => hc.product (bitLength n.toNat) false) hs
  have hproduct : productBelow (max (bitLength n.toNat : ℤ) 8, false) = smallPrimes n := by
    rw [productBelow_all, smallPrimes]
    congr
    omega
  refine ⟨c, fun o cfg odd => ?_⟩
  rw [lagrangeSearch, bind_run_of_ok hrun, named_run rfl]
  simp only [Bool.false_eq_true, if_false, hproduct]
  rfl

lemma lagrangeSearch_asksOnly [DigitLimit] (hs : s.cache.Coherent limit) (hodd : odd % 2 = 1)
    (o : Oracles) (cfg : Settings) (n : ℤ) :
    AsksOnly ∅ {p | Fits n odd p} fun test => lagrangeSearch (o.withTest test) cfg n odd s := by
  obtain ⟨c, hrun⟩ := lagrangeSearch_run hs n
  have hworkers : AsksOnly ∅ {p | Fits n odd p} fun test =>
      lagrangeWorker (o.withTest test) cfg n odd :=
    .pi fun worker => .pi fun workers =>
      (lagrangeWorker_asksOnly o cfg n odd worker workers).mono fun _ => fits_of_mem hodd
  have hrace := hworkers.map fun search => if Writable n
    then race search cfg.workers (.trialFailed (.fourSquares n)) ⟨s.draws, c⟩
    else .error (.fault .longNumeral) ⟨s.draws, c⟩
  intro test test' hright hright' hagree
  beta_reduce
  rw [hrun, hrun]
  exact hrace test test' hright hright' hagree

/-! ## Candidates for large numbers -/

/-- The numbers among which the auxiliary primes are looked for. -/
def auxiliaryNumbers : Set ℤ := {l | bitLength l.toNat = auxiliaryBits ∧ l % 4 = 1}

/-- The auxiliary primes. -/
def auxiliaryPrimes : Set ℤ := {l ∈ auxiliaryNumbers | l.toNat.Prime}

/-- The candidate for an auxiliary prime. -/
def largeCandidate (n : ℤ) (odd : ℕ) (l : ℤ) : ℤ := 2 * odd * oddPrimes n - l

/-- The candidates for large numbers. -/
def largeCandidates (n : ℤ) (odd : ℕ) : Set ℤ :=
  {p | 0 < p ∧ ∃ l ∈ auxiliaryPrimes, p = largeCandidate n odd l}

/-- **Every difference is as it should be.** -/
theorem largeCandidate_residues (hodd : odd % 2 = 1) (n : ℤ) {l : ℤ} (hl : l ∈ auxiliaryPrimes) :
    largeCandidate n odd l % 4 = 1 ∧ largeCandidate n odd l ≡ -l [ZMOD odd] := by
  constructor
  · -- twice an odd number is two modulo four
    obtain ⟨c, hc⟩ : Odd (odd * oddPrimes n) :=
      ((Int.odd_coe_nat odd).mpr (Nat.odd_iff.mpr hodd)).mul (odd_oddPrimes n)
    have hclass : l % 4 = 1 := hl.1.2
    rw [largeCandidate, mul_assoc, hc]
    omega
  · rw [Int.modEq_iff_dvd, largeCandidate]
    exact ⟨-(2 * oddPrimes n), by ring⟩

/-! ## The search for large numbers -/

/-- With its highest bit set and moved into the class one modulo four, what is drawn is an auxiliary
number. -/
lemma mem_auxiliaryNumbers {t : ℕ} (ht : t < Nat.pow 2 auxiliaryBits) :
    ((t ||| Nat.pow 2 (auxiliaryBits - 1) : ℕ) : ℤ)
      - ((t ||| Nat.pow 2 (auxiliaryBits - 1) : ℕ) : ℤ) % 4 + 1 ∈ auxiliaryNumbers := by
  have hlow : 2 ^ 24 ≤ t ||| Nat.pow 2 (auxiliaryBits - 1) := Nat.right_le_or
  have hhigh : t ||| Nat.pow 2 (auxiliaryBits - 1) < 2 ^ 25 := Nat.or_lt_two_pow ht (by decide)
  generalize t ||| Nat.pow 2 (auxiliaryBits - 1) = m at hlow hhigh
  exact ⟨bitLength_eq_iff.mpr (by omega), by omega⟩

/-- What comes of the draws is an auxiliary prime. -/
lemma mem_auxiliaryPrimes [DigitLimit] {test : PrimeTest} (hright : test.RightOn auxiliaryNumbers)
    {steps i j : ℕ} {l : ℤ}
    (h : randomPrimeOneModFour (o.withTest test) auxiliaryBits steps i = .ok l j) :
    l ∈ auxiliaryPrimes := by
  induction steps generalizing i with
  | zero => cases h
  | succ steps ih =>
      rw [randomPrimeOneModFour] at h
      obtain ⟨t, i₁, ht, h⟩ := bind_run_eq_ok.mp h
      have hmem := mem_auxiliaryNumbers (Entropy.lt_of_bits ht)
      split_ifs at h with hprime
      · cases h
        exact ⟨hmem, (hright _ hmem).mp hprime⟩
      · exact ih h

/-- The draws of an auxiliary prime ask about nothing else. -/
lemma randomPrimeOneModFour_asksOnly [DigitLimit] (o : Oracles) (steps : ℕ) :
    AsksOnly auxiliaryNumbers ∅ fun test =>
      randomPrimeOneModFour (o.withTest test) auxiliaryBits steps := by
  intro test test' hright hright' hagree
  beta_reduce
  induction steps with
  | zero => rfl
  | succ steps ih =>
      rw [randomPrimeOneModFour, randomPrimeOneModFour, ih]
      refine bind_congr_of_ok fun i t j ht => ?_
      have hmem := mem_auxiliaryNumbers (Entropy.lt_of_bits ht)
      have htest : test.int _ = test'.int _ :=
        Bool.eq_iff_iff.mpr ((hright _ hmem).trans (hright' _ hmem).symm)
      rw [Oracles.withTest, Oracles.withTest, htest]

/-- **One trial** asks about a candidate for its auxiliary prime. -/
theorem largeTrial_asksOnly [DigitLimit] (o : Oracles) (n : ℤ) (odd : ℕ) :
    AsksOnly auxiliaryNumbers (largeCandidates n odd) fun test =>
      largeTrial (o.withTest test) odd (2 * odd * oddPrimes n) := by
  intro test test' hright hright' hagree
  have hfirst : randomPrimeOneModFour (o.withTest test) auxiliaryBits o.steps
      = randomPrimeOneModFour (o.withTest test') auxiliaryBits o.steps :=
    randomPrimeOneModFour_asksOnly o o.steps test test' hright hright' (by simp)
  change (Search.draw (randomPrimeOneModFour (o.withTest test) auxiliaryBits o.steps) >>= _)
    = Search.draw (randomPrimeOneModFour (o.withTest test') auxiliaryBits o.steps) >>= _
  rw [hfirst]
  refine bind_congr_of_ok fun s l s' hl => ?_
  have hmem := mem_auxiliaryPrimes hright' (Search.draw_run_eq_ok hl)
  simp only [primeTwoSquares_withTest]
  by_cases hfive : 5 ≤ 2 * odd * oddPrimes n - l
  · have hp := hagree (2 * odd * oddPrimes n - l) ⟨by omega, l, hmem, rfl⟩
    rw [Oracles.withTest, Oracles.withTest, hp]
  · rw [if_neg fun h => hfive h.1, if_neg fun h => hfive h.1]

lemma largeSearch_asksOnly [DigitLimit] (hs : s.cache.Coherent limit) (o : Oracles) (cfg : Settings)
    (n : ℤ) (odd : ℕ) :
    AsksOnly auxiliaryNumbers (largeCandidates n odd) fun test =>
      largeSearch (o.withTest test) cfg n odd s := by
  obtain ⟨c, -, hrun⟩ :=
    Search.primes_of_coherent (fun c hc => hc.product (bitLength n.toNat) true) hs
  have hproduct : productBelow (bitLength n.toNat, true) = oddPrimes n := by
    rw [productBelow_odd, oddPrimes, Int.toNat_natCast]
  have hrace := (largeTrial_asksOnly o n odd).map fun trial => if Writable n
    then race (fun _ _ => withinTrials cfg.maxTrials o.steps .outOfSteps trial) cfg.workers
      (.trialFailed (.largeFourSquares n)) ⟨s.draws, c⟩
    else .error (.fault .longNumeral) ⟨s.draws, c⟩
  intro test test' hright hright' hagree
  beta_reduce
  rw [largeSearch, largeSearch, bind_run_of_ok hrun, bind_run_of_ok hrun, named_run rfl,
    named_run rfl]
  simp only [if_true, hproduct]
  exact hrace test test' hright hright' hagree

/-! ## Both searches -/

lemma decompose_asksOnly [DigitLimit] {known asked : Set ℤ} (hodd : odd % 2 = 1) (hlarge : 8 < odd)
    {e : ℕ} (hn : n = 2 ^ e * odd) {find : PrimeTest → ℕ → Search Hurwitz}
    (h : AsksOnly known asked fun test => find test odd s) :
    AsksOnly known asked fun test => decompose n (find test) s := by
  simp only [decompose_of_large hodd hlarge hn]
  exact h.bind fun q => Search.ofExcept (finish n e q)

/-- Which search is made depends on the number of bits only. -/
lemma search_eq [DigitLimit] (hpos : 0 < n) {large : Bool}
    (h : exceedsBits n cfg.largeBits = .ok large)
    (o : Oracles) : ∀ search ∈ [lagrange, largeLagrange], search o cfg n
      = if large then decompose n (largeSearch o cfg n)
        else decompose n (lagrangeSearch o cfg n) := by
  intro search hsearch
  simp only [List.mem_cons, List.not_mem_nil, or_false] at hsearch
  rcases hsearch with rfl | rfl
  · rw [lagrange, if_pos hpos, h]
    rfl
  · rw [largeLagrange, h]
    rfl

/-- **What the searches ask.**  For a number with an odd part above eight, and whatever was searched
and drawn before:

* every candidate of every worker in a progression is positive, one modulo four, and minus one
  modulo the odd part and modulo every prime below the number of bits or below eight; no two workers
  have a candidate in common; and the search, when the number can be written into its name, is a race
  of workers that ask about their own candidates only;
* the auxiliary primes for large numbers have twenty-five bits and are one modulo four, and the
  candidate that one of them makes is one modulo four and its negative modulo the odd part;
* both searches ask about such candidates only, those in a progression up to the number of bits from
  which a number is large, and those for large numbers beyond. -/
theorem candidates_fit [DigitLimit] (hodd : odd % 2 = 1) (hlarge : 8 < odd) {e : ℕ}
    (hn : n = 2 ^ e * odd) (o : Oracles) (cfg : Settings) {primeLimit squareLimit : ℤ}
    {history : List Event}
    (hs : s.cache = (SearchCache.ofLimits primeLimit squareLimit).after history) :
    ((∀ worker workers, ∀ p ∈ workerCandidates n odd worker workers, Fits n odd p) ∧
      (∀ workers i j, i < j → j < workers →
        ∀ p ∈ workerCandidates n odd i workers, p ∉ workerCandidates n odd j workers) ∧
      (∀ worker workers, AsksOnly ∅ (workerCandidates n odd worker workers) fun test =>
        lagrangeWorker (o.withTest test) cfg n odd worker workers) ∧
      ∃ c, ∀ test, lagrangeSearch (o.withTest test) cfg n odd s = if Writable n
        then race (lagrangeWorker (o.withTest test) cfg n odd) cfg.workers
          (.trialFailed (.fourSquares n)) ⟨s.draws, c⟩
        else .error (.fault .longNumeral) ⟨s.draws, c⟩) ∧
    ((∀ test : PrimeTest, test.RightOn auxiliaryNumbers → ∀ steps i l j,
        randomPrimeOneModFour (o.withTest test) auxiliaryBits steps i = .ok l j →
        l.toNat.Prime ∧ bitLength l.toNat = 25 ∧ l % 4 = 1) ∧
      ∀ l ∈ auxiliaryPrimes,
        largeCandidate n odd l % 4 = 1 ∧ largeCandidate n odd l ≡ -l [ZMOD odd]) ∧
    ∀ search ∈ [lagrange, largeLagrange],
      (exceedsBits n cfg.largeBits = .ok false →
        AsksOnly ∅ {p | Fits n odd p} fun test => search (o.withTest test) cfg n s) ∧
      (exceedsBits n cfg.largeBits = .ok true →
        AsksOnly auxiliaryNumbers (largeCandidates n odd) fun test =>
          search (o.withTest test) cfg n s) := by
  have hcoherent : s.cache.Coherent squareLimit := by
    rw [hs]
    exact (SearchCache.coherent_ofLimits primeLimit squareLimit).after history
  have hpos : 0 < n := by
    have hoddpos : 0 < (odd : ℤ) := by omega
    rw [hn]
    positivity
  obtain ⟨c, hrun⟩ := lagrangeSearch_run hcoherent n
  refine ⟨⟨fun _ _ _ => fits_of_mem hodd, fun _ _ _ hlt hj _ => not_mem_of_mem hodd hlt hj,
    lagrangeWorker_asksOnly o cfg n odd, c, fun test => hrun (o.withTest test) cfg odd⟩,
    ⟨?_, fun _ => largeCandidate_residues hodd n⟩, fun search hsearch => ⟨fun hsmall => ?_,
      fun hbig => ?_⟩⟩
  · intro test hright steps i l j h
    obtain ⟨⟨hbits, hclass⟩, hprime⟩ := mem_auxiliaryPrimes hright h
    exact ⟨hprime, hbits, hclass⟩
  · simp only [search_eq hpos hsmall _ search hsearch]
    exact decompose_asksOnly hodd hlarge hn (lagrangeSearch_asksOnly hcoherent hodd o cfg n)
  · simp only [search_eq hpos hbig _ search hsearch]
    exact decompose_asksOnly hodd hlarge hn (largeSearch_asksOnly hcoherent o cfg n odd)

/-- A test that takes four for a prime. -/
def fourIsPrime : PrimeTest := fun k => decide (k.Prime ∨ k = 4)

open Unlimited in
/-- Eighteen is twice nine.  One below 210 times nine is a candidate of the first worker and so not
one of the third, and a test that takes four for a prime serves as well as one that does not. -/
theorem candidates_fit_eighteen :
    (9 % 2 = 1 ∧ 8 < 9 ∧ (18 : ℤ) = 2 ^ 1 * (9 : ℕ) ∧
      SearchCache.standard = (SearchCache.ofLimits 4096 10000).after [] ∧
      exceedsBits 18 Settings.standard.largeBits = .ok false) ∧
    Fits 18 9 1889 ∧ 1889 ∉ workerCandidates 18 9 2 3 ∧
    (16777381 ∈ auxiliaryPrimes ∧ largeCandidate 18 9 16777381 % 4 = 1) ∧
    lagrange ((tapeOracles [0, 1]).withTest fourIsPrime) .standard 18 ⟨0, .standard⟩
      = lagrange (tapeOracles [0, 1]) .standard 18 ⟨0, .standard⟩ := by
  obtain ⟨⟨hfits, happart, -⟩, ⟨-, hresidues⟩, hasks⟩ := candidates_fit (by decide) (by decide)
    (show (18 : ℤ) = 2 ^ 1 * (9 : ℕ) by norm_num) (tapeOracles [0, 1]) .standard
    (show (⟨0, .standard⟩ : SearchState).cache = (SearchCache.ofLimits 4096 10000).after []
      from rfl)
  have hproduct : smallPrimes 18 = 210 := by decide +kernel
  have hmem : 1889 ∈ workerCandidates 18 9 0 3 := by
    refine ⟨0, ⟨le_rfl, by decide +kernel⟩, ?_⟩
    rw [lagrangeCandidate, hproduct]
    norm_num
  have hprime : Nat.Prime 16777381 := by norm_num
  have haux : 16777381 ∈ auxiliaryPrimes :=
    ⟨⟨bitLength_eq_iff.mpr (by norm_num), by norm_num⟩, hprime⟩
  have hsmall : exceedsBits 18 Settings.standard.largeBits = .ok false :=
    toOption_eq_some.mp (by decide +kernel)
  have hagree : ∀ p ∈ {p | Fits 18 9 p},
      fourIsPrime.int p = (tapeOracles [0, 1]).isPrime.int p := by
    intro p hp
    have hne : p.toNat ≠ 4 := by
      have := hp.mod_four
      omega
    simp [PrimeTest.int, fourIsPrime, tapeOracles, hne]
  have hrun := (hasks lagrange (by simp)).1 hsmall fourIsPrime (tapeOracles [0, 1]).isPrime
    (by rintro p ⟨⟩) (by rintro p ⟨⟩) hagree
  exact ⟨⟨rfl, by decide, by norm_num, rfl, hsmall⟩, hfits 0 3 _ hmem,
    happart 3 0 2 (by decide) (by decide) _ hmem, ⟨haux, (hresidues _ haux).1⟩, hrun⟩

end HiddenOrder
