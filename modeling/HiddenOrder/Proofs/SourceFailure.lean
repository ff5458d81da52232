import HiddenOrder.Accumulator.Batch
import HiddenOrder.Group.Setup
import HiddenOrder.Proofs.FailingDraw
import HiddenOrder.Proofs.SafePrime
import HiddenOrder.Proofs.ThreeSquares
import HiddenOrder.Proofs.Unconditional
import HiddenOrder.Protocol.Interval
import HiddenOrder.Protocol.ZKPoKE

/-!
# What a failing source does to an operation

A source can fail at any draw, and a draw can be made anywhere: by a sampling helper, by a trial of
one of several workers, by a search inside a proof.  Whichever it is, no result comes out of a run
that meets it.  The sampling helpers recast the failure as one of the library's own, and nothing
between them and the caller handles failures, so that this is what the caller sees.

There are three qualifications.  Candidates for primes are drawn by other means, and there the
failure of the source is not recast: it comes out of the search for a safe prime, and so out of a
setup, as it is.  In a race of several workers the first failure is the one reported, and it may be
that of a worker that came before the failing draw.  Of the searches only the one without assumptions
has workers that fail for a reason of their own, the refusal of a small prime; the other workers that
fail without the source are those whose watch ended.

* `SourceFailure`, `PrimeSourceFailure` — the failures of runs that meet the failing draw.
* `lagrangeTrial_stops`, `largeTrial_stops`, `unconditionalTrial_stops`, `scanEven_stops` — the
  trials.
* `lagrange_stops`, `unconditional_stops`, `threeSquares_stops`, … — the searches, from their trials
  by `StopsAt.race`.
* `drawFactors`, `setup_eq` — the part of a setup that draws primes.
* **`failsLoudly_of_failsAt`** — all operations.
* **`safePrime_source_fault`** — a failure that is not recast.
-/

namespace HiddenOrder

/-- The failure of the source is reported.  In a race of several workers one that never ended may
stand before it. -/
inductive SourceFailure (workers : ℤ) : Error → Prop where
  | randomness : SourceFailure workers .randomnessExhausted
  | unended (hseveral : 1 < workers) : SourceFailure workers .outOfSteps

/-- The failure of the source while a prime is drawn. -/
inductive PrimeSourceFailure (workers : ℤ) : Error → Prop where
  | source : PrimeSourceFailure workers (.fault .entropySource)
  | unended (hseveral : 1 < workers) : PrimeSourceFailure workers .outOfSteps

section

variable [DigitLimit] {o : Oracles} {k : ℕ} {E : Error → Prop}

/-! ## Trials of the searches -/

section Trials

lemma divisorOfNorm_stops (d : Hurwitz) (odd : ℕ) :
    StopsAt (Search.Before k) (divisorOfNorm d odd) E := by
  rw [divisorOfNorm_eq]
  refine (StopsAt.quaternions _).bind fun d => ?_
  split_ifs with hnorm
  · exact .pure none
  · exact (StopsAt.ofExcept _).bind fun b => .pure _

variable (h : o.source.FailsAt k) (hE : E .randomnessExhausted)

include h hE

lemma rootFromDraws_stops (p : ℤ) (trials : ℕ) :
    StopsAt (Draw.Before k) (rootFromDraws o p trials) E := by
  induction trials with
  | zero => exact .pure none
  | succ trials ih =>
      rw [rootFromDraws]
      refine (Entropy.below_stops h hE _).bind fun t => ?_
      dsimp only
      split_ifs with hresidue hroot
      · exact .pure _
      · exact .pure none
      · exact ih

lemma primeTwoSquares_stops (p : ℤ) : StopsAt (Search.Before k) (primeTwoSquares o p) E := by
  have hroot : StopsAt (Draw.Before k) (sqrtMinusOne o p) E := by
    rw [sqrtMinusOne]
    split_ifs with hclass
    · exact .pure none
    · exact rootFromDraws_stops h hE p nonResidueTrials
  rw [primeTwoSquares]
  refine hroot.draw.bind fun r => ?_
  cases r with
  | none => exact .pure none
  | some s => exact (StopsAt.gaussians _).bind fun g => .pure _

lemma twoSquares_stops (m : ℤ) : StopsAt (Search.Before k) (twoSquares o m) E := by
  rw [twoSquares]
  refine (StopsAt.squareLimit).bind fun limit => ?_
  split_ifs with hlimit hprime
  · exact (StopsAt.squares _).bind fun found => .pure _
  · exact (primeTwoSquares_stops h hE m).bind fun found => .pure _
  · exact .pure none

lemma lagrangeTrial_stops (odd : ℕ) (pre : ℤ) (worker workers : ℕ) :
    StopsAt (Search.Before k) (lagrangeTrial o odd pre worker workers) E := by
  rw [lagrangeTrial]
  refine (Entropy.below_stops h hE _).draw.bind fun t => ?_
  dsimp only
  split_ifs with hprime
  · refine (primeTwoSquares_stops h hE _).bind fun g => ?_
    cases g with
    | none => exact .pure none
    | some g => exact divisorOfNorm_stops _ odd
  · exact .pure none

lemma randomPrimeOneModFour_stops (bits steps : ℕ) :
    StopsAt (Draw.Before k) (randomPrimeOneModFour o bits steps) E := by
  induction steps with
  | zero => exact .throw _
  | succ steps ih =>
      rw [randomPrimeOneModFour]
      refine (Entropy.bits_stops h hE _).bind fun t => ?_
      dsimp only
      split_ifs with hprime
      · exact .pure _
      · exact ih

lemma largeTrial_stops (odd : ℕ) (pre : ℤ) :
    StopsAt (Search.Before k) (largeTrial o odd pre) E := by
  rw [largeTrial]
  refine (randomPrimeOneModFour_stops h hE auxiliaryBits o.steps).draw.bind fun l => ?_
  dsimp only
  split_ifs with hprime
  · refine (primeTwoSquares_stops h hE _).bind fun ab => ?_
    cases ab with
    | none => exact .pure none
    | some ab =>
        refine (primeTwoSquares_stops h hE l).bind fun cd => ?_
        cases cd with
        | none => exact .pure none
        | some cd => exact divisorOfNorm_stops _ odd
  · exact .pure none

omit h hE in
lemma takeOutAll_stops (small : List ℕ) (state : Gaussian × ℕ) :
    StopsAt (Search.Before k) (takeOutAll small state) E := by
  have htakeOut : ∀ q steps state, StopsAt (Search.Before k) (takeOut q steps state) E := by
    intro q steps
    induction steps with
    | zero => exact fun state => .pure state
    | succ steps ih =>
        rintro ⟨acc, rest⟩
        rw [takeOut]
        split_ifs with hdvd
        · refine (StopsAt.squares _).bind fun found => ?_
          cases found with
          | none => exact .throw _
          | some roots => exact ih _
        · exact .pure _
  induction small generalizing state with
  | nil => exact .pure state
  | cons q small ih =>
      rw [takeOutAll]
      exact (htakeOut q _ _).bind fun state => ih state

lemma unconditionalTrial_stops (odd : ℕ) (small : List ℕ) :
    StopsAt (Search.Before k) (unconditionalTrial o odd small) E := by
  have hsquares (r : ℕ) : StopsAt (Search.Before k) (sumOfTwoSquares o small r) E := by
    rw [sumOfTwoSquares]
    refine (takeOutAll_stops small _).bind fun state => ?_
    dsimp only
    split
    · exact .pure _
    · refine (StopsAt.squareLimit).bind fun limit => ?_
      split_ifs with hlimit hprime
      · exact (StopsAt.squares _).bind fun found => .pure _
      · exact (primeTwoSquares_stops h hE _).bind fun found => .pure _
      · exact .pure none
  rw [unconditionalTrial]
  refine (Entropy.below_stops h hE _).draw.bind fun x => ?_
  refine (Entropy.below_stops h hE _).draw.bind fun y => ?_
  dsimp only
  refine .ite_bind (.pure _) (hsquares _) fun zw => ?_
  cases zw with
  | none => exact .pure none
  | some g => exact divisorOfNorm_stops _ odd

lemma scanEven_stops (n : ℤ) (rt stride : ℕ) (trials cnt : ℕ) :
    StopsAt (Search.Before k) (scanEven o n rt stride trials cnt) E := by
  induction trials generalizing cnt with
  | zero => exact .pure none
  | succ trials ih =>
      rw [scanEven]
      split_ifs with hcnt
      · exact .pure none
      · refine (twoSquares_stops h hE _).bind fun found => ?_
        cases found with
        | none => exact ih _
        | some roots => exact (StopsAt.ofExcept _).bind fun w => .pure _

end Trials

/-! ## Races of searches -/

section Searches

lemma decompose_stops {B : SearchState → Prop} {n : ℤ} {find : ℕ → Search Hurwitz}
    (hfind : 8 < (oddPart n.toNat).2 → StopsAt B (find (oddPart n.toNat).2) E) :
    StopsAt B (decompose n find) E := by
  rw [decompose]
  split_ifs with hneg hzero
  · exact .throw _
  · exact .pure _
  · dsimp only
    split_ifs with hsmall
    · exact (StopsAt.pure _).bind fun d => .ofExcept _
    · exact (hfind (by omega)).bind fun d => .ofExcept _

variable (h : o.source.FailsAt k) (cfg : Settings)

include h

lemma lagrangeSearch_stops (n : ℤ) (odd : ℕ) :
    StopsAt (Search.Before k) (lagrangeSearch o cfg n odd) (SourceFailure cfg.workers) := by
  rw [lagrangeSearch]
  refine (StopsAt.primes _).bind fun primorial => ?_
  refine (StopsAt.ofExcept _).bind fun failure => ?_
  exact .race_withinTrials (lagrangeTrial_stops h .randomness odd (primorial * odd))
    (fun _ => lagrangeTrial_ends_of .true o odd (primorial * odd) .randomness) .unended
    (fun _ _ => trivial) _ _ _

lemma largeSearch_stops (n : ℤ) (odd : ℕ) :
    StopsAt (Search.Before k) (largeSearch o cfg n odd) (SourceFailure cfg.workers) := by
  rw [largeSearch]
  refine (StopsAt.primes _).bind fun primorial => ?_
  refine (StopsAt.ofExcept _).bind fun failure => ?_
  exact .race_withinTrials (fun _ _ => largeTrial_stops h .randomness odd (2 * odd * primorial))
    (fun hseveral _ _ => largeTrial_ends_of .true o odd (2 * odd * primorial) .randomness
      (.unended hseveral)) .unended (fun _ _ => trivial) _ _ _

lemma lagrange_stops (n : ℤ) : StopsAt (Search.Before k) (lagrange o cfg n)
    (SourceFailure cfg.workers) := by
  have hsearch : ∀ large : Bool, StopsAt (Search.Before k)
      (if large then decompose n (largeSearch o cfg n) else decompose n (lagrangeSearch o cfg n))
      (SourceFailure cfg.workers) := by
    rintro (_ | _)
    · exact decompose_stops fun _ => lagrangeSearch_stops h cfg n _
    · exact decompose_stops fun _ => largeSearch_stops h cfg n _
  rw [lagrange]
  exact .ite_bind (.ofExcept _) (.pure _) hsearch

lemma largeLagrange_stops (n : ℤ) :
    StopsAt (Search.Before k) (largeLagrange o cfg n) (SourceFailure cfg.workers) := by
  rw [largeLagrange]
  refine (StopsAt.ofExcept _).bind fun large => ?_
  cases large with
  | true => exact decompose_stops fun _ => largeSearch_stops h cfg n _
  | false => exact decompose_stops fun _ => lagrangeSearch_stops h cfg n _

/-- The failures of the search without assumptions.  In a race of several workers one that is refused
a small prime may stand before the others, whatever these fail with. -/
def SourceFailureOrRefused (n limit workers : ℤ) (e : Error) : Prop :=
  SourceFailure workers e ∨
    1 < workers ∧ ∃ q : ℕ, OutOfReach n limit q ∧ Refused limit q e

lemma unconditional_stops (n limit : ℤ) :
    StopsAt (fun s => Search.Before k s ∧ s.cache.Coherent limit) (unconditional o cfg n)
      (SourceFailureOrRefused n limit cfg.workers) := by
  rw [unconditional]
  refine decompose_stops fun hlarge => ?_
  rw [unconditionalSearch]
  have hprimes : Ends (fun s => s.cache.Coherent limit)
      (Search.primes (·.primesBelow (max (bitLength n.toNat) 8 : ℕ)))
      (· = primesBelow (max (bitLength n.toNat) 8 : ℕ))
      (SourceFailureOrRefused n limit cfg.workers) :=
    .primes_of_coherent fun c hc => hc.primesBelow _
  refine ((StopsAt.primes _).and hprimes).bind_of_ends hprimes (fun _ hs => hs.2) ?_
  rintro _ rfl
  by_cases hname : Writable n
  · rw [exhausted_of_writable rfl hname]
    have hstops := (unconditionalTrial_stops (E := SourceFailureOrRefused n limit cfg.workers) h
      (.inl .randomness) (oddPart n.toNat).2 (splitPrimes (max (bitLength n.toNat) 8))).and
      (unconditionalTrial_ends_of_outOfReach (E := fun _ => True) o trivial hlarge
        fun q (_ : OutOfReach n limit q) => trivial)
    exact .race_withinTrials (fun _ _ => hstops)
      (fun hseveral _ _ => unconditionalTrial_ends_of_outOfReach o (.inl .randomness) hlarge
        fun q hq => .inr ⟨hseveral, q, hq, hq.refused hname⟩)
      (fun hseveral => .inl (.unended hseveral)) (fun _ hs => hs.2) _ _ _
  · rw [exhausted_of_not_writable rfl hname]
    exact .throw _

end Searches

section Three

/-- A number that is not negative is not refused, whatever the cache of squares holds. -/
lemma twoSquares_ends (o : Oracles) (hE : E .randomnessExhausted) {m : ℤ} (hm : 0 ≤ m) :
    Ends (fun _ => True) (twoSquares o m) (fun _ => True) E := by
  intro s hs
  have hlimit : squareLimit s = .ok s.cache.squares.limit s := rfl
  rw [twoSquares, bind_run_of_ok hlimit]
  split_ifs with hle hprime
  · obtain ⟨found, s', hfound⟩ : ∃ found s', Search.squares (·.twoSquares m) s = .ok found s' := by
      have hrange : ¬(m < 0 ∨ s.cache.squares.limit < m) := by omega
      rw [Search.squares, SquareCache.twoSquares, if_neg hrange]
      cases s.cache.squares.answers.find? m.toNat with
      | some answer => exact ⟨_, _, rfl⟩
      | none => exact ⟨_, _, rfl⟩
    rw [bind_run_of_ok hfound]
    exact ⟨trivial, trivial⟩
  · have htwo := primeTwoSquares_ends (J := fun _ => True) (fun _ _ _ _ => trivial) o hE m
    exact (htwo.bind fun found _ => .pure trivial) s hs
  · exact ⟨trivial, trivial⟩

/-- A scan fails only when the source does: what it asks for is never negative. -/
lemma scanEven_ends (o : Oracles) (hE : E .randomnessExhausted) {n : ℤ} {rt : ℕ}
    (hrt : (2 * rt : ℤ) * (2 * rt) ≤ n) (stride trials cnt : ℕ) :
    Ends (fun _ => True) (scanEven o n rt stride trials cnt) (fun _ => True) E := by
  refine (scanEven_ends_of (P := fun _ => True) hrt (fun x hx => ?_) stride trials cnt).mono
    (fun _ _ => trivial) fun _ he => he
  rw [examine]
  refine (twoSquares_ends o hE (sub_nonneg.mpr hx)).bind fun found _ => ?_
  cases found with
  | none => exact .pure fun _ _ => trivial
  | some roots =>
      obtain ⟨w, hw, -⟩ := ThreeInt.of_ok x roots.1 roots.2
      exact (Ends.ofExcept (P := fun _ => True) ⟨w, hw, trivial⟩).bind fun _ _ =>
        .pure fun _ _ => trivial

variable (h : o.source.FailsAt k) (cfg : Settings)

include h

lemma threeSquares_stops (n : ℤ) :
    StopsAt (Search.Before k) (threeSquares o cfg n) (SourceFailure cfg.workers) := by
  rw [threeSquares]
  split_ifs with hclass
  · exact .throw _
  · have hsqrt := sq_two_mul_half_sqrt_le (show 0 ≤ n by omega)
    refine (StopsAt.ofExcept _).bind fun failure => ?_
    have hrace : StopsAt (Search.Before k) (race (fun worker workers =>
        scanEven o n (sqrt n.toNat / 2) workers (scanTrials cfg.maxTrials (sqrt n.toNat / 2)) worker)
        cfg.workers failure) (SourceFailure cfg.workers) := by
      have hscan (worker workers : ℕ) := scanEven_stops (E := SourceFailure cfg.workers) h
        .randomness n (sqrt n.toNat / 2) workers (scanTrials cfg.maxTrials (sqrt n.toNat / 2)) worker
      refine .race hscan (fun _ worker workers => ?_) _
      exact (hscan worker workers).failsWith
        (scanEven_ends o .randomness hsqrt workers _ worker) fun _ _ => trivial
    refine hrace.bind fun w => ?_
    split_ifs with hsum
    · exact .pure w
    · exact .throw _

lemma threeSquaresOfQuadruple_stops (n : ℤ) :
    StopsAt (Search.Before k) (threeSquaresOfQuadruple o cfg n) (SourceFailure cfg.workers) := by
  rw [threeSquaresOfQuadruple]
  split_ifs with hn
  · exact .throw _
  · exact threeSquares_stops h cfg (4 * n + 1)

end Three

/-! ## Draws of the other operations -/

section Operations

variable (h : o.source.FailsAt k) (hE : E .randomnessExhausted)

include h hE

lemma findGenerator_stops (t : Trapdoor) (steps : ℕ) :
    StopsAt (Draw.Before k) (t.findGenerator o steps) E := by
  induction steps with
  | zero => exact .throw _
  | succ steps ih =>
      rw [Trapdoor.findGenerator]
      refine (Entropy.range_stops h hE _ _).bind fun g => ?_
      refine (StopsAt.drawOfExcept _).bind fun ok => ?_
      cases ok with
      | true => exact .pure g
      | false => exact ih

lemma chooseGenerators_stops (t : Trapdoor) :
    StopsAt (Draw.Before k) (chooseGenerators o t) E := by
  rw [chooseGenerators]
  refine (findGenerator_stops h hE t o.steps).bind fun G => ?_
  refine (Entropy.range_stops h hE _ _).bind fun r => ?_
  exact (StopsAt.drawOfExcept _).bind fun H => .drawOfExcept _

lemma randomCommitment_stops (pp : GroupParameters) (x : ℤ) :
    StopsAt (Draw.Before k) (randomCommitment o.source pp x) E := by
  rw [randomCommitment]
  refine (Entropy.range_stops h hE _ _).bind fun r => ?_
  exact (StopsAt.drawOfExcept _).bind fun c => .pure _

lemma accumulateBlinded_stops (cfg : Settings) (elements : List Element) (encoding : Encoding)
    (pp : GroupParameters) (budget : Option ℤ) :
    StopsAt (Draw.Before k) (accumulateBlinded o cfg elements encoding pp budget) E := by
  have hbase : ∀ steps, StopsAt (Draw.Before k) (blindedBase o pp steps) E := by
    intro steps
    induction steps with
    | zero => exact .throw _
    | succ steps ih =>
        rw [blindedBase]
        refine (Entropy.bits_stops h hE _).bind fun r => ?_
        refine (StopsAt.drawOfExcept _).bind fun base => ?_
        split_ifs with hone
        · exact .pure base
        · exact ih
  rw [accumulateBlinded]
  exact (hbase o.steps).bind fun base => .drawOfExcept _

lemma zkpoke_stops (pp : GroupParameters) (u w x : ℤ) (securityParam : Option ℤ) :
    StopsAt (Draw.Before k) (ZKPoKE.prove o pp u w x securityParam) E := by
  rw [ZKPoKE.prove]
  refine (StopsAt.drawOfExcept _).bind fun power => ?_
  split_ifs with hfalse
  · exact .throw _
  · refine (StopsAt.drawOfExcept _).bind fun B => ?_
    refine (Entropy.range_stops h hE _ _).bind fun l => ?_
    refine (Entropy.range_stops h hE _ _).bind fun rhoX => ?_
    refine (Entropy.range_stops h hE _ _).bind fun rhoK => ?_
    exact .drawOfExcept _

lemma drawMasks_stops (N kappa mBound : ℤ) :
    StopsAt (Draw.Before k) (NonNegative.drawMasks o N kappa mBound) E := by
  rw [NonNegative.drawMasks]
  refine ((Entropy.range_stops h hE _ _).times 4).bind fun m => ?_
  refine (StopsAt.drawOfExcept _).bind fun sBound => ?_
  refine ((Entropy.range_stops h hE _ _).times 4).bind fun s => ?_
  exact (Entropy.range_stops h hE _ _).bind fun rest => .pure _

omit hE

lemma nonNegative_stops (cfg : Settings) (pp : GroupParameters) (x r : ℤ) :
    StopsAt (Search.Before k) (NonNegative.prove o cfg pp x r) (SourceFailure cfg.workers) := by
  rw [NonNegative.prove]
  split_ifs with hneg hbits
  · exact .throw _
  · exact .throw _
  · refine (StopsAt.ofExcept _).bind fun C => ?_
    refine (lagrange_stops h cfg x).bind fun w => ?_
    refine ((Entropy.range_stops h .randomness _ _).times 4).draw.bind fun rs => ?_
    refine (StopsAt.ofExcept _).bind fun cs => ?_
    refine (StopsAt.ofExcept _).bind fun mBound => ?_
    exact (drawMasks_stops h .randomness _ _ _).draw.bind fun masks => .ofExcept _

lemma interval_stops (cfg : Settings) (pp : GroupParameters) (x r a b : ℤ) :
    StopsAt (Search.Before k) (Interval.prove o cfg pp x r a b)
      (SourceFailure cfg.workers) := by
  rw [Interval.prove]
  split_ifs with hrange
  · refine (nonNegative_stops h cfg pp (x - a) r).bind fun lower => ?_
    exact (nonNegative_stops h cfg pp (b - x) (-r)).bind fun upper => .pure _
  · exact .throw _

end Operations

/-! ## Primes -/

/-- The factors of a setup: two different safe primes. -/
def drawFactors (o : Oracles) (cfg : Settings) (bits : ℤ) : Draw Trapdoor := do
  let p ← safePrime o cfg (bits / 2)
  let again := safePrime o cfg (bits - bits / 2)
  let q ← again
  let q ← distinctFrom p again o.steps q
  pure ⟨p, q⟩

/-- A setup draws the factors, and then chooses the generators. -/
lemma setup_eq (cfg : Settings) {bits : ℤ} (hbits : 32 ≤ bits) :
    setup o cfg bits = (do
      let t ← drawFactors o cfg bits
      let pp ← chooseGenerators o t
      pure (pp, t)) := by
  rw [setup, if_neg (by rw [leastSetupBits]; omega)]
  simp only [drawFactors, bind_assoc, pure_bind]

section Primes

variable (h : o.source.FailsAt k) (cfg : Settings)

include h

lemma safePrime_stops (bits : ℤ) :
    StopsAt (Draw.Before k) (safePrime o cfg bits) (PrimeSourceFailure cfg.workers) := by
  rw [safePrime]
  split_ifs with hbits
  · exact .throw _
  · rw [leastSetupBits] at hbits
    have htrial : StopsAt (Draw.Before k) (safePrimeTrial o bits.toNat)
        (PrimeSourceFailure cfg.workers) := by
      rw [safePrimeTrial]
      refine (Entropy.prime_stops h .source _ _ _).bind fun c => ?_
      split_ifs with hsieved hsafe
      · exact .pure none
      · exact .pure _
      · exact .pure none
    refine (StopsAt.drawOfExcept _).bind fun failure => ?_
    exact .race_withinTrials (fun _ _ => htrial)
      (fun hseveral _ _ => safePrimeTrial_ends o .source (.unended hseveral) (by omega)) .unended
      (fun _ _ => trivial) _ _ _

lemma drawFactors_stops (bits : ℤ) :
    StopsAt (Draw.Before k) (drawFactors o cfg bits) (PrimeSourceFailure cfg.workers) := by
  have hdistinct : ∀ p steps q, StopsAt (Draw.Before k)
      (distinctFrom p (safePrime o cfg (bits - bits / 2)) steps q)
      (PrimeSourceFailure cfg.workers) := by
    intro p steps
    induction steps with
    | zero =>
        intro q
        rw [distinctFrom]
        split_ifs with hne
        · exact .pure q
        · exact .throw _
    | succ steps ih =>
        intro q
        rw [distinctFrom]
        split_ifs with hne
        · exact .pure q
        · exact (safePrime_stops h cfg _).bind fun q => ih q
  rw [drawFactors]
  refine (safePrime_stops h cfg _).bind fun p => ?_
  refine (safePrime_stops h cfg _).bind fun q => ?_
  exact (hdistinct p o.steps q).bind fun q => .pure _

lemma setup_stops (bits : ℤ) : StopsAt (Draw.Before k) (setup o cfg bits) fun e =>
    e = .randomnessExhausted ∨ PrimeSourceFailure cfg.workers e := by
  by_cases hbits : 32 ≤ bits
  · rw [setup_eq cfg hbits]
    refine ((drawFactors_stops h cfg bits).mono fun _ => .inr).bind fun t => ?_
    exact (chooseGenerators_stops h (.inl rfl) t).bind fun pp => .pure _
  · rw [setup, if_pos (by rw [leastSetupBits]; omega)]
    exact .throw _

end Primes

/-! ## All operations -/

/-- What the operations do when the source fails at draw `k`.  From any draw up to that one each of
them ends before it, or it fails in the way that is named. -/
structure FailsLoudly (o : Oracles) (k : ℕ) : Prop where
  lagrange : ∀ cfg n,
    StopsAt (Search.Before k) (HiddenOrder.lagrange o cfg n) (SourceFailure cfg.workers)
  largeLagrange : ∀ cfg n,
    StopsAt (Search.Before k) (HiddenOrder.largeLagrange o cfg n) (SourceFailure cfg.workers)
  /-- From coherent caches, as all caches in use are. -/
  unconditional : ∀ cfg n limit,
    StopsAt (fun s => Search.Before k s ∧ s.cache.Coherent limit)
      (HiddenOrder.unconditional o cfg n) (SourceFailureOrRefused n limit cfg.workers)
  threeSquares : ∀ cfg n,
    StopsAt (Search.Before k) (HiddenOrder.threeSquares o cfg n) (SourceFailure cfg.workers)
  threeSquaresOfQuadruple : ∀ cfg n,
    StopsAt (Search.Before k) (HiddenOrder.threeSquaresOfQuadruple o cfg n)
      (SourceFailure cfg.workers)
  nonNegative : ∀ cfg pp x r,
    StopsAt (Search.Before k) (NonNegative.prove o cfg pp x r) (SourceFailure cfg.workers)
  interval : ∀ cfg pp x r a b,
    StopsAt (Search.Before k) (Interval.prove o cfg pp x r a b) (SourceFailure cfg.workers)
  zkpoke : ∀ pp u w x securityParam,
    StopsAt (Draw.Before k) (ZKPoKE.prove o pp u w x securityParam) (· = .randomnessExhausted)
  randomCommitment : ∀ pp x,
    StopsAt (Draw.Before k) (HiddenOrder.randomCommitment o.source pp x) (· = .randomnessExhausted)
  accumulateBlinded : ∀ cfg elements encoding pp budget,
    StopsAt (Draw.Before k) (HiddenOrder.accumulateBlinded o cfg elements encoding pp budget)
      (· = .randomnessExhausted)
  findGenerator : ∀ (t : Trapdoor) steps,
    StopsAt (Draw.Before k) (t.findGenerator o steps) (· = .randomnessExhausted)
  /-- The failure while a prime is drawn is not recast. -/
  safePrime : ∀ cfg bits,
    StopsAt (Draw.Before k) (HiddenOrder.safePrime o cfg bits) (PrimeSourceFailure cfg.workers)
  setup : ∀ cfg bits,
    StopsAt (Draw.Before k) (HiddenOrder.setup o cfg bits) fun e =>
      e = .randomnessExhausted ∨ PrimeSourceFailure cfg.workers e
  /-- A setup draws primes, and nothing else, before it chooses the generators. -/
  setupStages : ∀ cfg bits, 32 ≤ bits → HiddenOrder.setup o cfg bits = do
    let t ← HiddenOrder.drawFactors o cfg bits
    let pp ← HiddenOrder.chooseGenerators o t
    pure (pp, t)
  drawFactors : ∀ cfg bits,
    StopsAt (Draw.Before k) (HiddenOrder.drawFactors o cfg bits) (PrimeSourceFailure cfg.workers)
  chooseGenerators : ∀ t,
    StopsAt (Draw.Before k) (HiddenOrder.chooseGenerators o t) (· = .randomnessExhausted)

/-- **A source that fails is noticed**, at whatever draw and by whatever operation.  The failure is
recast everywhere but in the draws of primes. -/
theorem failsLoudly_of_failsAt (h : o.source.FailsAt k) : FailsLoudly o k where
  lagrange := lagrange_stops h
  largeLagrange := largeLagrange_stops h
  unconditional := unconditional_stops h
  threeSquares := threeSquares_stops h
  threeSquaresOfQuadruple := threeSquaresOfQuadruple_stops h
  nonNegative := nonNegative_stops h
  interval := interval_stops h
  zkpoke := zkpoke_stops h rfl
  randomCommitment := randomCommitment_stops h rfl
  accumulateBlinded := accumulateBlinded_stops h rfl
  findGenerator := findGenerator_stops h rfl
  safePrime := safePrime_stops h
  setup := setup_stops h
  setupStages cfg _ hbits := setup_eq cfg hbits
  drawFactors := drawFactors_stops h
  chooseGenerators := chooseGenerators_stops h rfl

end

open Unlimited in
/-- A search for a generator modulo `23 * 47`: what the first draw gives is refused, and there is no
second one. -/
theorem failsLoudly_of_failsAt_three : (tapeOracles [3]).source.FailsAt 1 ∧
    FailsLoudly (tapeOracles [3]) 1 ∧
    Trapdoor.findGenerator (tapeOracles [3]) ⟨23, 47⟩ 2 0 = .error .randomnessExhausted 2 := by
  have h : (tapeOracles [3]).source.FailsAt 1 := fun _ => rfl
  have hdraw : (tapeOracles [3]).source.range 2 ((⟨23, 47⟩ : Trapdoor).N - 1) 0 = .ok 5 1 := rfl
  have hverdict : (⟨23, 47⟩ : Trapdoor).isGenerator 5 = .ok false := by cbv
  refine ⟨h, failsLoudly_of_failsAt h, ?_⟩
  rw [Trapdoor.findGenerator, bind_run_of_ok hdraw,
    bind_run_of_ok (Draw.ofExcept_run_eq_ok.mpr ⟨hverdict, rfl⟩)]
  rfl

open Unlimited in
/-- A source that fails at once, while a safe prime is drawn. -/
theorem safePrime_source_fault : (tapeOracles []).source.FailsAt 0 ∧
    safePrime (tapeOracles []) .standard 16 0 = .error (.fault .entropySource) 1 :=
  ⟨fun _ => rfl, rfl⟩

end HiddenOrder
