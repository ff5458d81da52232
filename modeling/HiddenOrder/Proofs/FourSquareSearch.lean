import HiddenOrder.Proofs.Challenge
import HiddenOrder.Proofs.Roots
import Mathlib.Data.Nat.Prime.Defs

/-!
# How the searches for four squares end

A search makes trial after trial, and nothing bounds their number but the settings.  What every
trial keeps is therefore all there is: it asks for draws with positive bounds only, it takes roots
modulo numbers above four only, and what it hands out is a quaternion of the norm that was sought.
The sum of the four roots is then the number itself, so the check at the end never refuses, and the
only failures are those of the source and of the trials allowed.  Before the first trial the search
is named by its number, so under a limit on numerals a number beyond it is not searched for at all.

* `SearchFailure` — those failures; `Unnamed` — the numbers that are not searched for.
* `Kept` — what may be known of the caches throughout a search.
* **`sqrtMinusOne_ends`** — a root of minus one that is found is one.
* **`divisorOfNorm_ends`** — a divisor that is handed out has the norm that was sought.
* **`lagrange_ends`**, **`largeLagrange_ends`** — the searches, from any caches.
* **`decompose_of_unnamed`** — a search that cannot be named fails before its first trial.
* **`fourSquares_or_failure`** — both of them, as results.
-/

namespace HiddenOrder

/-- A number whose four squares cannot be searched for: it stands in the name of the search, which is
put together before the first trial, and is too long to be written.  Below nine the odd part decides
and nothing is searched for. -/
structure Unnamed [DigitLimit] (n : ℤ) : Prop where
  large : 8 < (oddPart n.toNat).2
  long : ¬Writable n

/-- The failures of a search for four squares of `n`: the source fails, or the trials that were
allowed are spent; and the search cannot be named.  The last one is no end of the search but of the
steps that it was watched. -/
inductive SearchFailure [DigitLimit] (n : ℤ) : Error → Prop
  | randomness : SearchFailure n .randomnessExhausted
  | trials : SearchFailure n (.trialFailed (.fourSquares n))
  | largeTrials : SearchFailure n (.trialFailed (.largeFourSquares n))
  | unnamed (hn : Unnamed n) : SearchFailure n (.fault .longNumeral)
  | unended : SearchFailure n .outOfSteps

variable {n p : ℤ} {odd : ℕ} {J : SearchCache → Prop} {E : Error → Prop}

/-! ## Draws -/

/-- A number whose square has the remainder of minus one is a root of minus one. -/
lemma dvd_sq_add_one {r : ℤ} (hr : r * r % p = p - 1) : p ∣ r * r + 1 := by
  have hdiv := Int.mul_ediv_add_emod (r * r) p
  exact ⟨r * r / p + 1, by linarith⟩

lemma rootFromDraws_ends [DigitLimit] (o : Oracles) (hE : E .randomnessExhausted) (hp : 5 ≤ p)
    (trials : ℕ) :
    Ends (fun _ => True) (rootFromDraws o p trials) (fun r => ∀ s ∈ r, p ∣ s * s + 1) E := by
  induction trials with
  | zero =>
      refine .pure ?_
      rintro s ⟨⟩
  | succ trials ih =>
      rw [rootFromDraws]
      refine (Entropy.below_ends o.source (by omega) hE).bind fun t _ => ?_
      dsimp only
      split_ifs with hresidue hroot
      · refine .pure ?_
        rintro _ ⟨⟩
        exact dvd_sq_add_one hroot
      · refine .pure ?_
        rintro s ⟨⟩
      · exact ih

/-- **A root of minus one that is found is one.** -/
theorem sqrtMinusOne_ends [DigitLimit] (o : Oracles) (hE : E .randomnessExhausted) (p : ℤ) :
    Ends (fun _ => True) (sqrtMinusOne o p) (fun r => ∀ s ∈ r, 5 ≤ p ∧ p ∣ s * s + 1) E := by
  rw [sqrtMinusOne]
  split_ifs with hclass
  · refine .pure ?_
    rintro s ⟨⟩
  · refine (rootFromDraws_ends o hE (by omega) nonResidueTrials).mono ?_ fun _ he => he
    intro r hr s hs
    exact ⟨by omega, hr s hs⟩

lemma randomPrimeOneModFour_ends_of [DigitLimit] (o : Oracles) (hE : E .randomnessExhausted)
    (hunended : E .outOfSteps) {bits : ℕ} (hbits : 0 < bits) (steps : ℕ) :
    Ends (fun _ => True) (randomPrimeOneModFour o bits steps) (fun l => o.isPrime.int l = true)
      E := by
  induction steps with
  | zero => exact .throw hunended
  | succ steps ih =>
      rw [randomPrimeOneModFour]
      refine (Entropy.bits_ends o.source (by omega) hE).bind fun t _ => ?_
      dsimp only
      split_ifs with hprime
      · exact .pure hprime
      · exact ih

lemma randomPrimeOneModFour_ends [DigitLimit] (o : Oracles) {bits : ℕ} (hbits : 0 < bits)
    (steps : ℕ) :
    Ends (fun _ => True) (randomPrimeOneModFour o bits steps) (fun l => o.isPrime.int l = true)
      (SearchFailure n) :=
  randomPrimeOneModFour_ends_of o .randomness .unended hbits steps

/-! ## What a search keeps -/

/-- The greatest common right divisor of a quaternion and a number, which is written into a
borrowed slot. -/
def scratchGcrd (h : Hurwitz) (odd : ℕ) (pool : ScratchPool Hurwitz) :
    Hurwitz × ScratchPool Hurwitz :=
  pool.borrow fun x pool =>
    let pool := pool.write x (Hurwitz.ofInts odd 0 0 0)
    (Hurwitz.gcrd h (pool.read x), pool)

lemma divisorOfNorm_eq [DigitLimit] (h : Hurwitz) (odd : ℕ) :
    divisorOfNorm h odd = (do
      let d ← Search.quaternions (scratchGcrd h odd)
      if d.norm ≠ odd then pure none
      else
        let h ← Search.ofExcept d.toLipschitz
        pure (some h)) := rfl

/-- Nothing that a search does to its caches makes `J` false. -/
structure Kept (J : SearchCache → Prop) : Prop where
  primes : ∀ c p, J c → J { c with primes := p }
  gaussians : ∀ c a b, J c → J { c with gaussians := (scratchGcd a b c.gaussians).2 }
  quaternions : ∀ c h odd, J c → J { c with quaternions := (scratchGcrd h odd c.quaternions).2 }

lemma Kept.true : Kept fun _ => True := ⟨fun _ _ h => h, fun _ _ _ h => h, fun _ _ _ h => h⟩

lemma primeTwoSquares_ends [DigitLimit]
    (hJ : ∀ c a b, J c → J { c with gaussians := (scratchGcd a b c.gaussians).2 }) (o : Oracles)
    (hE : E .randomnessExhausted) (p : ℤ) :
    Ends (fun s => J s.cache) (primeTwoSquares o p) (fun _ => True) E := by
  rw [primeTwoSquares]
  refine (Ends.draw (sqrtMinusOne_ends o hE p)).bind fun r _ => ?_
  cases r with
  | none => exact .pure trivial
  | some s =>
      refine (Ends.gaussians fun c hc => hJ c ⟨s, 1⟩ ⟨p, 0⟩ hc).bind fun g _ => ?_
      exact .pure trivial

/-- **A divisor that is handed out has the norm that was sought.** -/
theorem divisorOfNorm_ends [DigitLimit]
    (hJ : ∀ c h odd, J c → J { c with quaternions := (scratchGcrd h odd c.quaternions).2 })
    (h : Hurwitz) (odd : ℕ) :
    Ends (fun s => J s.cache) (divisorOfNorm h odd) (fun r => ∀ d ∈ r, d.norm = odd) E := by
  rw [divisorOfNorm_eq]
  refine (Ends.quaternions fun c hc => hJ c h odd hc).bind fun d _ => ?_
  split_ifs with hnorm
  · refine .pure ?_
    rintro d' ⟨⟩
  · obtain ⟨b, hb, -, hbnorm⟩ := d.toLipschitz_ok
    have hlipschitz : ∃ b, d.toLipschitz = .ok b ∧ b.norm = odd :=
      ⟨b, hb, hbnorm.trans (not_not.mp hnorm)⟩
    refine (Ends.ofExcept hlipschitz).bind fun b hb => .pure ?_
    rintro d' ⟨⟩
    exact hb

/-! ## Trials -/

section Trials

variable (hJ : Kept J) (o : Oracles) (odd : ℕ) (pre : ℤ)

include hJ

/-- A trial fails only when the source does. -/
lemma lagrangeTrial_ends_of [DigitLimit] (hE : E .randomnessExhausted) (worker workers : ℕ) :
    Ends (fun s => J s.cache) (lagrangeTrial o odd pre worker workers)
      (fun r => ∀ d ∈ r, d.norm = odd) E := by
  have hnone : ∀ d ∈ (none : Option Hurwitz), d.norm = odd := by
    rintro d ⟨⟩
  have hbound : 0 < lagrangeBound odd workers := Int.natCast_pos.mpr (Nat.succ_pos _)
  rw [lagrangeTrial]
  refine (Ends.draw (Entropy.below_ends o.source hbound hE)).bind fun t _ => ?_
  dsimp only
  split_ifs with hprime
  · refine (primeTwoSquares_ends hJ.gaussians o hE _).bind fun g _ => ?_
    cases g with
    | none => exact .pure hnone
    | some g => exact divisorOfNorm_ends hJ.quaternions _ odd
  · exact .pure hnone

lemma lagrangeTrial_ends [DigitLimit] (worker workers : ℕ) :
    Ends (fun s => J s.cache) (lagrangeTrial o odd pre worker workers)
      (fun r => ∀ d ∈ r, d.norm = odd) (SearchFailure n) :=
  lagrangeTrial_ends_of hJ o odd pre .randomness worker workers

/-- A trial for large numbers fails only when the source does, or the watch over its draws ends. -/
lemma largeTrial_ends_of [DigitLimit] (hE : E .randomnessExhausted) (hunended : E .outOfSteps) :
    Ends (fun s => J s.cache) (largeTrial o odd pre) (fun r => ∀ d ∈ r, d.norm = odd) E := by
  have hnone : ∀ d ∈ (none : Option Hurwitz), d.norm = odd := by
    rintro d ⟨⟩
  have hbits : 0 < auxiliaryBits := by decide
  rw [largeTrial]
  refine (Ends.draw (randomPrimeOneModFour_ends_of o hE hunended hbits o.steps)).bind fun l _ => ?_
  dsimp only
  split_ifs with hprime
  · refine (primeTwoSquares_ends hJ.gaussians o hE _).bind fun ab _ => ?_
    cases ab with
    | none => exact .pure hnone
    | some ab =>
        refine (primeTwoSquares_ends hJ.gaussians o hE l).bind fun cd _ => ?_
        cases cd with
        | none => exact .pure hnone
        | some cd => exact divisorOfNorm_ends hJ.quaternions _ odd
  · exact .pure hnone

lemma largeTrial_ends [DigitLimit] :
    Ends (fun s => J s.cache) (largeTrial o odd pre) (fun r => ∀ d ∈ r, d.norm = odd)
      (SearchFailure n) :=
  largeTrial_ends_of hJ o odd pre .randomness .unended

end Trials

/-! ## Searches -/

section Searches

variable (hJ : Kept J) (o : Oracles) (cfg : Settings)

include hJ

lemma lagrangeSearch_ends [DigitLimit] (n : ℤ) (hlarge : 8 < (oddPart n.toNat).2) (odd : ℕ) :
    Ends (fun s => J s.cache) (lagrangeSearch o cfg n odd) (fun d => d.norm = odd)
      (SearchFailure n) := by
  rw [lagrangeSearch]
  refine (Ends.primes fun c hc => hJ.primes c _ hc).bind fun primorial _ => ?_
  refine .named rfl (fun hlong => .unnamed ⟨hlarge, hlong⟩) fun _ => ?_
  refine .race (fun worker workers => ?_) .trials cfg.workers
  exact .withinTrials (lagrangeTrial_ends hJ o odd _ worker workers) .unended cfg.maxTrials o.steps

lemma largeSearch_ends [DigitLimit] (n : ℤ) (hlarge : 8 < (oddPart n.toNat).2) (odd : ℕ) :
    Ends (fun s => J s.cache) (largeSearch o cfg n odd) (fun d => d.norm = odd)
      (SearchFailure n) := by
  rw [largeSearch]
  refine (Ends.primes fun c hc => hJ.primes c _ hc).bind fun primorial _ => ?_
  refine .named rfl (fun hlong => .unnamed ⟨hlarge, hlong⟩) fun _ => ?_
  refine .race (fun _ _ => ?_) .largeTrials cfg.workers
  exact .withinTrials (largeTrial_ends hJ o odd _) .unended cfg.maxTrials o.steps

lemma decompose_search_ends [DigitLimit] (hn : 0 ≤ n) (large : Bool) :
    Ends (fun s => J s.cache)
      (if large then decompose n (largeSearch o cfg n) else decompose n (lagrangeSearch o cfg n))
      (fun w => w.RootsOf n) (SearchFailure n) := by
  cases large with
  | true => exact decompose_ends hn fun _ hlarge => largeSearch_ends hJ o cfg n hlarge _
  | false => exact decompose_ends hn fun _ hlarge => lagrangeSearch_ends hJ o cfg n hlarge _

omit hJ in
lemma exceedsBits_ok (n : ℤ) {bits : ℤ} (hbits : 0 ≤ bits) :
    exceedsBits n bits = .ok (decide (n < 0 ∨ bits.toNat < bitLength n.toNat)) := by
  rw [exceedsBits, if_neg (not_lt.mpr hbits)]

theorem lagrange_ends [DigitLimit] (hn : 0 ≤ n) (hbits : 0 ≤ cfg.largeBits) :
    Ends (fun s => J s.cache) (lagrange o cfg n) (fun w => w.RootsOf n) (SearchFailure n) := by
  rw [lagrange]
  split_ifs with hpos
  · rw [exceedsBits_ok n hbits]
    exact decompose_search_ends hJ o cfg hn _
  · exact decompose_search_ends hJ o cfg hn false

theorem largeLagrange_ends [DigitLimit] (hn : 0 ≤ n) (hbits : 0 ≤ cfg.largeBits) :
    Ends (fun s => J s.cache) (largeLagrange o cfg n) (fun w => w.RootsOf n)
      (SearchFailure n) := by
  rw [largeLagrange, exceedsBits_ok n hbits]
  exact decompose_search_ends hJ o cfg hn _

end Searches

/-! ## Searches without a name -/

/-- The computation fails with the fault that an integer is too long, wherever it starts. -/
abbrev TooLong {α : Type} (search : Search α) : Prop :=
  Ends (fun _ => True) search (fun _ => False) (· = .fault .longNumeral)

lemma TooLong.fails {α : Type} {search : Search α} (h : TooLong search) (s : SearchState) :
    ∃ s', search s = .error (.fault .longNumeral) s' := by
  rcases h.outcome (s := s) trivial with ⟨-, -, -, hfalse, -⟩ | ⟨_, s', hrun, rfl, -⟩
  · exact hfalse.elim
  · exact ⟨s', hrun⟩

/-- **A search that cannot be named fails before its first trial.** -/
theorem decompose_of_unnamed [DigitLimit] {find : ℕ → Search Hurwitz} (hn : Unnamed n)
    (hfind : ∀ odd, TooLong (find odd)) : TooLong (decompose n find) := by
  have hlarge := hn.large
  have hpos : 0 < n.toNat := by
    have := oddPart_le n.toNat
    omega
  rw [decompose, if_neg (by omega), if_neg (by omega)]
  generalize oddPart n.toNat = split at hlarge
  obtain ⟨e, odd⟩ := split
  exact .ite_bind (fun hsmall => absurd hlarge (by omega)) (fun _ => hfind odd)
    fun _ hfalse => hfalse.elim

section Unnamed

variable [DigitLimit] (o : Oracles) (cfg : Settings)

lemma lagrangeSearch_of_not_writable (hn : ¬Writable n) (odd : ℕ) :
    TooLong (lagrangeSearch o cfg n odd) := by
  rw [lagrangeSearch, exhausted_of_not_writable rfl hn]
  exact (Ends.primes (J := fun _ => True) fun _ _ => trivial).bind fun _ _ => .throw rfl

lemma largeSearch_of_not_writable (hn : ¬Writable n) (odd : ℕ) :
    TooLong (largeSearch o cfg n odd) := by
  rw [largeSearch, exhausted_of_not_writable rfl hn]
  exact (Ends.primes (J := fun _ => True) fun _ _ => trivial).bind fun _ _ => .throw rfl

lemma decompose_search_of_unnamed (hn : Unnamed n) (large : Bool) :
    TooLong (if large then decompose n (largeSearch o cfg n)
      else decompose n (lagrangeSearch o cfg n)) := by
  cases large with
  | true => exact decompose_of_unnamed hn (largeSearch_of_not_writable o cfg hn.long)
  | false => exact decompose_of_unnamed hn (lagrangeSearch_of_not_writable o cfg hn.long)

lemma lagrange_of_unnamed (hbits : 0 ≤ cfg.largeBits) (hn : Unnamed n) :
    TooLong (lagrange o cfg n) := by
  rw [lagrange, exceedsBits_ok n hbits]
  split_ifs
  · exact decompose_search_of_unnamed o cfg hn _
  · exact decompose_search_of_unnamed o cfg hn false

lemma largeLagrange_of_unnamed (hbits : 0 ≤ cfg.largeBits) (hn : Unnamed n) :
    TooLong (largeLagrange o cfg n) := by
  rw [largeLagrange, exceedsBits_ok n hbits]
  exact decompose_search_of_unnamed o cfg hn _

end Unnamed

/-! ## Results -/

/-- **Four squares, or a failure of the source or of the trials.**  Whatever the caches hold and
whatever is drawn, either search returns the four roots of a number that is not negative, or fails
in one of the ways of `SearchFailure`; a number that cannot be written into the name of its search
is the only one with the fault for that, and has no other outcome.  And none of the divisions and
powers on the way is applied to operands that their checked forms refuse. -/
theorem fourSquares_or_failure [DigitLimit] (o : Oracles) (cfg : Settings) {n : ℤ} (hn : 0 ≤ n)
    (hbits : 0 ≤ cfg.largeBits) :
    (∀ search ∈ [lagrange o cfg n, largeLagrange o cfg n], ∀ s,
      (∃ w s', search s = .ok w s' ∧ w.RootsOf n) ∨
        ∃ e s', search s = .error e s' ∧ SearchFailure n e) ∧
    (∀ search ∈ [lagrange o cfg n, largeLagrange o cfg n], Unnamed n → ∀ s, ∃ s',
      search s = .error (.fault .longNumeral) s') ∧
    (∀ a b, Euclid.checkedRun Gaussian.divModChecked Gaussian.isZero (b.norm.toNat.log2 + 2) a b
      = .ok (Gaussian.gcd a b)) ∧
    (∀ a b, Euclid.checkedRun Hurwitz.divModChecked Hurwitz.isZero (b.norm.toNat.log2 + 2) a b
      = .ok (Hurwitz.gcrd a b)) ∧
    ∀ u e p : ℤ, 5 ≤ p → 0 ≤ e → Modular.pow u e p = .ok (powMod u e.toNat p) := by
  have hends : ∀ search ∈ [lagrange o cfg n, largeLagrange o cfg n],
      Ends (fun _ => True) search (fun w => w.RootsOf n) (SearchFailure n) := by
    intro search hsearch
    simp only [List.mem_cons, List.not_mem_nil, or_false] at hsearch
    rcases hsearch with rfl | rfl
    · exact lagrange_ends .true o cfg hn hbits
    · exact largeLagrange_ends .true o cfg hn hbits
  refine ⟨?_, ?_, Gaussian.checkedRun_gcd, Hurwitz.checkedRun_gcrd, ?_⟩
  · intro search hsearch s
    rcases (hends search hsearch).outcome (s := s) trivial with
      ⟨w, s', hrun, hroots, -⟩ | ⟨e, s', hrun, hfailure, -⟩
    · exact .inl ⟨w, s', hrun, hroots⟩
    · exact .inr ⟨e, s', hrun, hfailure⟩
  · intro search hsearch hunnamed
    simp only [List.mem_cons, List.not_mem_nil, or_false] at hsearch
    rcases hsearch with rfl | rfl
    · exact (lagrange_of_unnamed o cfg hbits hunnamed).fails
    · exact (largeLagrange_of_unnamed o cfg hbits hunnamed).fails
  · intro u e p hp he
    rw [Modular.pow, Modular.checkModulus, if_neg (by omega), ok_bind, if_pos he, pure_eq_ok]

open Unlimited in
/-- The number nine is its own odd part, and has to be searched for. -/
theorem fourSquares_or_failure_nine :
    (0 : ℤ) ≤ 9 ∧ 0 ≤ Settings.standard.largeBits ∧
      ∀ search ∈ [lagrange (tapeOracles [0, 1]) .standard 9,
          largeLagrange (tapeOracles [0, 1]) .standard 9],
        ∀ s, (∃ w s', search s = .ok w s' ∧ w.RootsOf 9) ∨
          ∃ e s', search s = .error e s' ∧ SearchFailure 9 e :=
  ⟨by decide, by decide,
    (fourSquares_or_failure (tapeOracles [0, 1]) .standard (by decide) (by decide)).1⟩

end HiddenOrder
