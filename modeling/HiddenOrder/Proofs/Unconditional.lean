import HiddenOrder.Proofs.Draws
import HiddenOrder.Proofs.History
import Mathlib.NumberTheory.LSeries.PrimesInAP
import Mathlib.NumberTheory.SumTwoSquares

/-!
# The search for four squares without assumptions

The search completes two drawn squares by two more, and finds those by taking small primes out of
what is missing.  Which primes are small is decided by the number of bits of the input; the
decomposition of each of them is asked of the cache of squares, which has a limit of its own.  Up to
that limit the cache answers, and it always has a decomposition, because the primes taken out are
sums of two squares; above it the number is refused, and the refusal ends the search.

So a search that can be named is safe exactly when no prime that may have to be taken out is above
the limit.  That these are all of them, and not only some, is a matter of finding draws: a prime of
the class one modulo four that leaves the remainder of minus one, multiplied by the small prime, is
a sum of two squares, and for the draw of these two just the small prime is missing.

* `OutOfReach` — a prime that may have to be taken out and is above the limit.
* **`unconditional_ends`** — how the search ends, from any coherent caches.
* **`unconditional_of_draws`** — draws for which it is refused.
* **`unconditional_safe_iff`** — when it is safe.
-/

namespace HiddenOrder

variable {n limit : ℤ} {E : Error → Prop}

/-- The failures that are expected of the search: the source fails, or the trials that were allowed
are spent.  The last one is no end of the search but of the steps that it was watched. -/
inductive UnconditionalFailure (n : ℤ) : Error → Prop
  | randomness : UnconditionalFailure n .randomnessExhausted
  | trials : UnconditionalFailure n (.trialFailed (.unconditionalFourSquares n))
  | unended : UnconditionalFailure n .outOfSteps

/-- A prime that is taken out of what is missing: a sum of two squares. -/
def IsSplit (q : ℕ) : Prop := q.Prime ∧ (q = 2 ∨ q % 4 = 1)

/-- A prime that may have to be taken out in the search for `n`, and that the cache of squares
refuses. -/
structure OutOfReach (n limit : ℤ) (q : ℕ) : Prop where
  split : IsSplit q
  lt_bound : q < max (bitLength n.toNat) 8
  /-- For an odd part of at most eight there is no search. -/
  large : 8 < (oddPart n.toNat).2
  /-- What is missing is a remainder modulo the odd part. -/
  lt_odd : q < (oddPart n.toNat).2
  beyond : limit < q

/-- The failures with which a prime that is out of reach is refused: the refusal, or the fault in its
place when the limit, which may be far below zero, cannot be written into it. -/
inductive Refused [DigitLimit] (limit : ℤ) (q : ℕ) : Error → Prop
  | range : Refused limit q (.precondition (.squareRange q limit))
  | unwritten (hlimit : ¬Writable limit) : Refused limit q (.fault .longNumeral)

/-- A prime that may have to be taken out is no longer than the number. -/
lemma OutOfReach.refused [DigitLimit] {q : ℕ} (hq : OutOfReach n limit q) (hn : Writable n) :
    Refused limit q (refuse (.squareRange q limit)) := by
  have hlt := hq.lt_odd
  have hle := oddPart_le n.toNat
  have hwritable : Writable q := hn.of_natAbs_le (by omega)
  rw [refuse_of_two rfl]
  split_ifs with hfits
  · exact .range
  · exact .unwritten fun hlimit => hfits ⟨hwritable, hlimit⟩

/-! ## Sums of two squares -/

lemma IsSplit.exists_squares {q : ℕ} (hq : IsSplit q) : ∃ x y, x * x + y * y = q := by
  have := Fact.mk hq.1
  obtain ⟨x, y, hxy⟩ := Nat.Prime.sq_add_sq (p := q) (by rcases hq.2 with h | h <;> omega)
  exact ⟨x, y, by rw [← hxy, sq, sq]⟩

/-- The small primes of a search. -/
def splitPrimes (bound : ℕ) : List ℕ := (primesBelow bound).filter fun q => q == 2 || q % 4 == 1

lemma mem_splitPrimes {bound q : ℕ} : q ∈ splitPrimes bound ↔ q < bound ∧ IsSplit q := by
  rw [splitPrimes, List.mem_filter, mem_primesBelow, IsSplit, Nat.cast_lt, Bool.or_eq_true,
    beq_iff_eq, beq_iff_eq, and_assoc]

/-! ## Steps -/

namespace Ends

variable {α : Type}

lemma primes_of_coherent {use : PrimeCache → α × PrimeCache} {a : α}
    (huse : ∀ c : PrimeCache, c.Truthful → (use c).1 = a ∧ (use c).2.Truthful) :
    Ends (fun s => s.cache.Coherent limit) (Search.primes use) (· = a) E := by
  intro s hs
  obtain ⟨c, hc, hrun⟩ := Search.primes_of_coherent huse hs
  rw [hrun]
  exact ⟨rfl, hc⟩

lemma squares_of_coherent [DigitLimit] {m : ℤ} {P : Option (ℕ × ℕ) → Prop}
    (hrefused : m < 0 ∨ limit < m → E (refuse (.squareRange m limit)))
    (hfound : P (twoSquareRoots m.toNat (sqrt m.toNat))) :
    Ends (fun s => s.cache.Coherent limit) (Search.squares (·.twoSquares m)) P E := by
  intro s hs
  obtain ⟨c, hc, hrun⟩ := Search.squares_of_coherent m hs
  rw [hrun]
  split_ifs with hrange
  · exact ⟨hrefused hrange, hc⟩
  · exact ⟨hfound, hc⟩

lemma squareLimit : Ends (fun s => s.cache.Coherent limit) squareLimit (· = limit) E :=
  fun _ hs => ⟨hs.squares.limit_eq, hs⟩

end Ends

/-! ## What is missing -/

section Missing

variable (o : Oracles) {odd q : ℕ}

/-- A prime that is taken out has a decomposition, so the only failure is a refusal. -/
lemma takeOut_ends [DigitLimit] (hq : IsSplit q)
    (hrefused : q < odd → limit < q → E (refuse (.squareRange q limit))) (steps : ℕ)
    {state : Gaussian × ℕ} (hstate : 0 < state.2 ∧ state.2 < odd) :
    Ends (fun s => s.cache.Coherent limit) (takeOut q steps state)
      (fun state => 0 < state.2 ∧ state.2 < odd) E := by
  induction steps generalizing state with
  | zero => exact .pure hstate
  | succ steps ih =>
      obtain ⟨acc, rest⟩ := state
      rw [takeOut]
      split_ifs with hdvd
      · have hpos := hq.1.pos
        have hle : q ≤ rest := Nat.le_of_dvd hstate.1 (Nat.dvd_of_mod_eq_zero hdvd)
        have hroots : (twoSquareRoots q (sqrt q)).isSome :=
          twoSquareRoots_isSome_iff.mpr hq.exists_squares
        refine (Ends.squares_of_coherent (m := q) (P := fun r => r.isSome) ?_ hroots).bind
          fun r hr => ?_
        · intro hrange
          exact hrefused (by omega) (by omega)
        · obtain ⟨roots, rfl⟩ := Option.isSome_iff_exists.mp hr
          refine ih ⟨Nat.div_pos hle hpos, ?_⟩
          exact (Nat.div_le_self rest q).trans_lt hstate.2
      · exact .pure hstate

lemma takeOutAll_ends [DigitLimit] {small : List ℕ} (hsmall : ∀ q ∈ small, IsSplit q ∧
      (q < odd → limit < q → E (refuse (.squareRange q limit)))) {state : Gaussian × ℕ}
    (hstate : 0 < state.2 ∧ state.2 < odd) :
    Ends (fun s => s.cache.Coherent limit) (takeOutAll small state)
      (fun state => 0 < state.2 ∧ state.2 < odd) E := by
  induction small generalizing state with
  | nil => exact .pure hstate
  | cons q small ih =>
      obtain ⟨hq, hrest⟩ := List.forall_mem_cons.mp hsmall
      rw [takeOutAll]
      exact (takeOut_ends hq.1 hq.2 _ hstate).bind fun state hstate => ih hrest hstate

/-- What is left after the small primes is never refused. -/
lemma sumOfTwoSquares_ends [DigitLimit] (hE : E .randomnessExhausted) {small : List ℕ}
    (hsmall : ∀ q ∈ small, IsSplit q ∧
      (q < odd → limit < q → E (refuse (.squareRange q limit)))) {r : ℕ} (hr : 0 < r ∧ r < odd) :
    Ends (fun s => s.cache.Coherent limit) (sumOfTwoSquares o small r) (fun _ => True) E := by
  rw [sumOfTwoSquares]
  refine (takeOutAll_ends hsmall hr).bind fun state hstate => ?_
  dsimp only
  split
  · exact .pure trivial
  · refine Ends.squareLimit.bind fun limit' hlimit => ?_
    obtain rfl : limit' = limit := hlimit
    split_ifs with hle
    · refine (Ends.squares_of_coherent (P := fun _ => True) ?_ trivial).bind fun found _ =>
        .pure trivial
      intro hrange
      omega
    · exact (primeTwoSquares_ends (fun _ a b hc => hc.scratchGcd a b) o hE _).bind
        fun found _ => .pure trivial
    · exact .pure trivial

end Missing

/-! ## The search -/

section Search

variable (o : Oracles) (cfg : Settings)

lemma unconditionalTrial_ends [DigitLimit] (hE : E .randomnessExhausted) {odd : ℕ} (hodd : 0 < odd)
    {small : List ℕ} (hsmall : ∀ q ∈ small, IsSplit q ∧
      (q < odd → limit < q → E (refuse (.squareRange q limit)))) :
    Ends (fun s => s.cache.Coherent limit) (unconditionalTrial o odd small)
      (fun r => ∀ d ∈ r, d.norm = odd) E := by
  have hbound : (0 : ℤ) < odd := Int.natCast_pos.mpr hodd
  rw [unconditionalTrial]
  refine (Ends.draw (Entropy.below_ends o.source hbound hE)).bind fun x _ => ?_
  refine (Ends.draw (Entropy.below_ends o.source hbound hE)).bind fun y _ => ?_
  dsimp only
  generalize -(x * x + y * y) = missing
  have hlow := Int.emod_nonneg missing hbound.ne'
  have hhigh := Int.emod_lt_of_pos missing hbound
  refine .ite_bind (P := fun _ => True) (fun _ => .pure trivial)
    (fun hne => sumOfTwoSquares_ends o hE hsmall (by omega)) fun zw _ => ?_
  cases zw with
  | none =>
      refine .pure ?_
      rintro d ⟨⟩
  | some g => exact divisorOfNorm_ends (fun _ h odd hc => hc.scratchGcrd h odd) _ odd

/-- The primes of a search that a trial can be refused are those out of reach. -/
lemma unconditionalTrial_ends_of_outOfReach [DigitLimit] (hE : E .randomnessExhausted)
    (hlarge : 8 < (oddPart n.toNat).2)
    (hrefused : ∀ q : ℕ, OutOfReach n limit q → E (refuse (.squareRange q limit))) :
    Ends (fun s => s.cache.Coherent limit)
      (unconditionalTrial o (oddPart n.toNat).2 (splitPrimes (max (bitLength n.toNat) 8)))
      (fun r => ∀ d ∈ r, d.norm = (oddPart n.toNat).2) E := by
  refine unconditionalTrial_ends o hE (by omega) fun q hq => ?_
  obtain ⟨hbound, hsplit⟩ := mem_splitPrimes.mp hq
  exact ⟨hsplit, fun hodd hbeyond => hrefused q ⟨hsplit, hbound, hlarge, hodd, hbeyond⟩⟩

/-- The failures of the search: the expected ones, the refusals of primes that are out of reach, and
the fault of a search that cannot be named. -/
inductive ExpectedOrRefused [DigitLimit] (n limit : ℤ) : Error → Prop
  | expected {e : Error} (he : UnconditionalFailure n e) : ExpectedOrRefused n limit e
  | refused {q : ℕ} {e : Error} (hq : OutOfReach n limit q) (he : Refused limit q e) :
      ExpectedOrRefused n limit e
  | unnamed (hn : Unnamed n) : ExpectedOrRefused n limit (.fault .longNumeral)

/-- **How the search ends**, from any coherent caches: with four roots, or in one of the expected
ways, or with the refusal of a prime that is out of reach, or without a name. -/
theorem unconditional_ends [DigitLimit] (hn : 0 ≤ n) (limit : ℤ) :
    Ends (fun s => s.cache.Coherent limit) (unconditional o cfg n) (fun w => w.RootsOf n)
      (ExpectedOrRefused n limit) := by
  refine decompose_ends hn fun _ hlarge => ?_
  rw [unconditionalSearch]
  refine (Ends.primes_of_coherent fun c hc => hc.primesBelow _).bind ?_
  rintro _ rfl
  refine .named rfl (fun hlong => .unnamed ⟨hlarge, hlong⟩) fun hname => ?_
  refine .race (fun _ _ => ?_) (.expected .trials) cfg.workers
  have htrial := unconditionalTrial_ends_of_outOfReach (E := ExpectedOrRefused n limit) o
    (.expected .randomness) hlarge fun q hreach => .refused hreach (hreach.refused hname)
  exact .withinTrials htrial (.expected .unended) cfg.maxTrials o.steps

/-- A search that cannot be named does not begin. -/
lemma unconditional_of_unnamed [DigitLimit] (hn : Unnamed n) : TooLong (unconditional o cfg n) := by
  refine decompose_of_unnamed hn fun odd => ?_
  rw [unconditionalSearch, exhausted_of_not_writable rfl hn.long]
  exact (Ends.primes (J := fun _ => True) fun _ _ => trivial).bind fun _ _ => .throw rfl

end Search

/-! ## Refusals -/

section Refusal

variable {q : ℕ} {s : SearchState}

/-- A prime other than `q` is not taken out of `q`. -/
lemma takeOut_of_ne [DigitLimit] {p : ℕ} (hp : p.Prime) (hq : q.Prime) (hne : p ≠ q) (steps : ℕ)
    (acc : Gaussian) : takeOut p steps (acc, q) = pure (acc, q) := by
  cases steps with
  | zero => rw [takeOut]
  | succ steps =>
      have hdvd : ¬q % p = 0 := fun h =>
        hne ((Nat.prime_dvd_prime_iff_eq hp hq).mp (Nat.dvd_of_mod_eq_zero h))
      rw [takeOut, if_neg hdvd]

/-- A prime above the limit is not taken out of itself. -/
lemma takeOut_self [DigitLimit] (hq : q.Prime) (hlimit : limit < q) (hs : s.cache.Coherent limit)
    (acc : Gaussian) : ∃ s', takeOut q (bitLength q) (acc, q) s
      = .error (refuse (.squareRange q limit)) s' := by
  obtain ⟨c, -, hrun⟩ := Search.squares_of_coherent q hs
  rw [if_pos (.inr hlimit)] at hrun
  rw [bitLength, if_neg hq.ne_zero, takeOut, if_pos (Nat.mod_self q)]
  exact ⟨_, bind_run_of_error hrun⟩

/-- **The prime that is missing is refused** when its turn comes. -/
lemma takeOutAll_refused [DigitLimit] (hq : q.Prime) (hlimit : limit < q) {small : List ℕ}
    (hmem : q ∈ small) (hsmall : ∀ p ∈ small, p.Prime) (hs : s.cache.Coherent limit)
    (acc : Gaussian) :
    ∃ s', takeOutAll small (acc, q) s = .error (refuse (.squareRange q limit)) s' := by
  induction small with
  | nil => cases hmem
  | cons p small ih =>
      obtain ⟨hp, hrest⟩ := List.forall_mem_cons.mp hsmall
      rw [takeOutAll]
      by_cases hpq : p = q
      · rw [hpq]
        obtain ⟨s', hrun⟩ := takeOut_self hq hlimit hs acc
        exact ⟨s', bind_run_of_error hrun⟩
      · rw [takeOut_of_ne hp hq hpq]
        exact ih ((List.mem_cons.mp hmem).resolve_left (Ne.symm hpq)) hrest

/-- One trial for which the prime is missing. -/
lemma unconditionalTrial_refused [DigitLimit] {o : Oracles} {odd : ℕ} {x y : ℤ} {i j : ℕ}
    (hq : q.Prime) (hlimit : limit < q) {small : List ℕ} (hmem : q ∈ small)
    (hsmall : ∀ p ∈ small, p.Prime) (hs : s.cache.Coherent limit)
    (hx : o.source.below odd s.draws = .ok x i) (hy : o.source.below odd i = .ok y j)
    (hmissing : -(x * x + y * y) % (odd : ℤ) = q) :
    ∃ s', unconditionalTrial o odd small s = .error (refuse (.squareRange q limit)) s' := by
  obtain ⟨s', hrun⟩ := takeOutAll_refused (s := ⟨j, s.cache⟩) hq hlimit hmem hsmall hs ⟨1, 0⟩
  refine ⟨s', ?_⟩
  rw [unconditionalTrial, bind_run_of_ok (Search.draw_run_of_ok hx),
    bind_run_of_ok (Search.draw_run_of_ok (s := ⟨i, s.cache⟩) hy)]
  dsimp only
  rw [hmissing, if_neg (by exact_mod_cast hq.ne_zero), Int.toNat_natCast, sumOfTwoSquares]
  exact bind_run_of_error (bind_run_of_error hrun)

/-- **Draws for which the search is refused**: those for which just the prime that is out of reach
is missing. -/
theorem unconditional_of_draws [DigitLimit] {o : Oracles} {cfg : Settings} {x y : ℤ} {i j : ℕ}
    (hq : OutOfReach n limit q) (hname : Writable n) (hsteps : 0 < o.steps)
    (hcfg : cfg.maxTrials = none) (hs : s.cache.Coherent limit)
    (hx : o.source.below (oddPart n.toNat).2 s.draws = .ok x i)
    (hy : o.source.below (oddPart n.toNat).2 i = .ok y j)
    (hmissing : -(x * x + y * y) % ((oddPart n.toNat).2 : ℤ) = q) :
    ∃ s', unconditional o cfg n s = .error (refuse (.squareRange q limit)) s' := by
  have hlarge := hq.large
  have hle := oddPart_le n.toNat
  have hmem := mem_splitPrimes.mpr ⟨hq.lt_bound, hq.split⟩
  obtain ⟨c, hc, hprimes⟩ : ∃ c : SearchCache, c.Coherent limit ∧
      Search.primes (·.primesBelow (max (bitLength n.toNat) 8 : ℕ)) s
        = .ok (primesBelow (max (bitLength n.toNat) 8 : ℕ)) ⟨s.draws, c⟩ :=
    Search.primes_of_coherent (fun c hc => hc.primesBelow _) hs
  obtain ⟨s', htrial⟩ := unconditionalTrial_refused (s := ⟨s.draws, c⟩) hq.split.1 hq.beyond hmem
    (fun p hp => (mem_splitPrimes.mp hp).2.1) hc hx hy hmissing
  have hworker : withinTrials cfg.maxTrials o.steps .outOfSteps
      (unconditionalTrial o (oddPart n.toNat).2 (splitPrimes (max (bitLength n.toNat) 8)))
      ⟨s.draws, c⟩ = .error (refuse (.squareRange q limit)) s' := by
    rw [hcfg, withinTrials]
    exact attempt_of_error htrial hsteps
  obtain ⟨s'', hrace⟩ : ∃ s'', race (fun _ _ => withinTrials cfg.maxTrials o.steps .outOfSteps
        (unconditionalTrial o (oddPart n.toNat).2 (splitPrimes (max (bitLength n.toNat) 8))))
      cfg.workers (.trialFailed (.unconditionalFourSquares n)) ⟨s.draws, c⟩
        = .error (refuse (.squareRange q limit)) s'' :=
    race_of_first_error hworker
  refine ⟨s'', ?_⟩
  rw [unconditional, decompose, if_neg (by omega), if_neg (by omega)]
  dsimp only
  rw [if_neg (by omega)]
  refine bind_run_of_error ?_
  rw [unconditionalSearch, bind_run_of_ok hprimes, exhausted_of_writable rfl hname]
  exact hrace

end Refusal

/-! ## When the search is safe -/

/-- **There are such draws.**  A prime `p` of the class one modulo four with the remainder of minus
one is a sum of two squares, and so is `q · p`, which leaves the remainder of `-q`. -/
theorem exists_missing {odd q : ℕ} (hodd : odd % 2 = 1) (hq : IsSplit q) (hlt : q < odd) :
    ∃ x y : ℕ, (x < odd ∧ y < odd) ∧ -((x : ℤ) * x + y * y) % odd = q := by
  obtain ⟨a, ha⟩ : ∃ a, 2 * odd = a + 1 := ⟨2 * odd - 1, by omega⟩
  have ha' : (2 * odd : ℤ) = a + 1 := by exact_mod_cast ha
  have hcoprime : a.Coprime (4 * odd) := by
    refine Nat.isCoprime_iff_coprime.mp ⟨a, 1 - odd, ?_⟩
    push_cast
    linear_combination (-2 * odd - a + 1 : ℤ) * ha'
  obtain ⟨p, -, hp, hmod⟩ := Nat.forall_exists_prime_gt_and_modEq 0 (by omega) hcoprime
  have hclass : p % 4 = 1 := by
    have h : p % 4 = a % 4 := hmod.of_mul_right odd
    omega
  have hremainder : (p : ℤ) ≡ -1 [ZMOD odd] := by
    have h : (p : ℤ) ≡ a [ZMOD odd] := Int.natCast_modEq_iff.mpr (hmod.of_mul_left 4)
    exact h.trans (Int.modEq_iff_dvd.mpr ⟨-2, by linarith⟩)
  obtain ⟨u, v, huv⟩ := hq.exists_squares
  obtain ⟨u', v', huv'⟩ := IsSplit.exists_squares ⟨hp, .inr hclass⟩
  rw [← sq, ← sq] at huv huv'
  obtain ⟨x, y, hxy⟩ := Nat.sq_add_sq_mul huv.symm huv'.symm
  refine ⟨x % odd, y % odd, ⟨Nat.mod_lt x (by omega), Nat.mod_lt y (by omega)⟩, ?_⟩
  have hreduce (z : ℕ) : ((z % odd : ℕ) : ℤ) * (z % odd : ℕ) ≡ z * z [ZMOD odd] := by
    have h : ((z % odd : ℕ) : ℤ) ≡ z [ZMOD odd] := Int.natCast_modEq_iff.mpr (Nat.mod_modEq z odd)
    exact h.mul h
  have hmissing : -(((x % odd : ℕ) : ℤ) * (x % odd : ℕ) + (y % odd : ℕ) * (y % odd : ℕ))
      ≡ q [ZMOD odd] := by
    have hsum : (x * x + y * y : ℤ) = q * p := by
      rw [← sq, ← sq]
      exact_mod_cast hxy.symm
    calc -(((x % odd : ℕ) : ℤ) * (x % odd : ℕ) + (y % odd : ℕ) * (y % odd : ℕ))
        ≡ -(x * x + y * y) [ZMOD odd] := ((hreduce x).add (hreduce y)).neg
      _ ≡ -(q * -1) [ZMOD odd] := by
          rw [hsum]
          exact (hremainder.mul_left q).neg
      _ ≡ q [ZMOD odd] := by rw [mul_neg_one, neg_neg]
  rw [hmissing, Int.emod_eq_of_lt (Int.natCast_nonneg q) (by exact_mod_cast hlt)]

/-- A run that ended with the four roots of `n`, or with a failure that has `E`. -/
def RootsOr (E : Error → Prop) (n : ℤ) (r : EStateM.Result Error SearchState FourInt) : Prop :=
  (∃ w s', r = .ok w s' ∧ w.RootsOf n) ∨ ∃ e s', r = .error e s' ∧ E e

lemma not_rootsOr_of_error {r : EStateM.Result Error SearchState FourInt} {e : Error}
    {s : SearchState} (hr : r = .error e s) (he : ¬E e) : ¬RootsOr E n r := by
  rintro (⟨w, s', hok, -⟩ | ⟨e', s', herror, he'⟩)
  · rw [hr] at hok
    cases hok
  · rw [hr] at herror
    cases herror
    exact he he'

lemma below_of_tape [DigitLimit] {tape : List ℤ} {bound i : ℕ} {z : ℤ} (hz : 0 ≤ z ∧ z < bound)
    (htape : tape[i]? = some z) : (tapeOracles tape).source.below bound i = .ok z (i + 1) :=
  Entropy.below_of_answer hz.1 hz.2 htape

/-- A prime that is out of reach is refused for some draws, in any bundle of caches. -/
lemma OutOfReach.exists_refusal [DigitLimit] {q : ℕ} {c : SearchCache} (hq : OutOfReach n limit q)
    (hname : Writable n) (hc : c.Coherent limit) : ∃ (x y : ℕ) (s' : SearchState),
      unconditional (tapeOracles [x, y]) .standard n ⟨0, c⟩
        = .error (refuse (.squareRange q limit)) s' := by
  have hlarge := hq.large
  have hle := oddPart_le n.toNat
  obtain ⟨-, hodd⟩ := oddPart_spec (n := n.toNat) (by omega)
  obtain ⟨x, y, ⟨hx, hy⟩, hmissing⟩ := exists_missing hodd hq.split hq.lt_odd
  exact ⟨x, y, unconditional_of_draws hq hname Nat.one_pos rfl hc
    (below_of_tape (z := x) ⟨Int.natCast_nonneg x, by omega⟩ rfl)
    (below_of_tape (z := y) ⟨Int.natCast_nonneg y, by omega⟩ rfl) hmissing⟩

/-- **When the search is safe.**  Whatever is drawn, and in whichever bundle of caches, the search
for four squares of a number that is not negative ends with the roots, in one of the expected ways,
with the refusal of a prime that is out of reach, or because the number is too long for the name of
the search.  The last two never happen exactly when the search can be named and there is no such
prime: when the odd part of the number is at most eight, or the number can be written and the limit
for squares is at least every prime, two or of the class one modulo four, below the number of bits
(or eight, if there are fewer) and below the odd part. -/
theorem unconditional_safe_iff [DigitLimit] (hn : 0 ≤ n) (limit : ℤ) :
    (∀ (o : Oracles) (cfg : Settings) (primeLimit : ℤ) (history : List Event) (draws : ℕ),
      RootsOr (ExpectedOrRefused n limit) n
        (unconditional o cfg n ⟨draws, (SearchCache.ofLimits primeLimit limit).after history⟩)) ∧
    ((∀ (o : Oracles) (cfg : Settings) (primeLimit : ℤ) (history : List Event) (draws : ℕ),
      RootsOr (UnconditionalFailure n) n
        (unconditional o cfg n ⟨draws, (SearchCache.ofLimits primeLimit limit).after history⟩)) ↔
      ¬Unnamed n ∧ ∀ q, ¬OutOfReach n limit q) := by
  have hcoherent (primeLimit : ℤ) (history : List Event) :=
    (SearchCache.coherent_ofLimits primeLimit limit).after history
  have hends : ∀ (o : Oracles) (cfg : Settings) (primeLimit : ℤ) (history : List Event) (draws : ℕ),
      RootsOr (ExpectedOrRefused n limit) n
        (unconditional o cfg n ⟨draws, (SearchCache.ofLimits primeLimit limit).after history⟩) := by
    intro o cfg primeLimit history draws
    rcases (unconditional_ends o cfg hn limit).outcome (s := ⟨draws, _⟩)
      (hcoherent primeLimit history) with ⟨w, s', hrun, hroots, -⟩ | ⟨e, s', hrun, he, -⟩
    · exact .inl ⟨w, s', hrun, hroots⟩
    · exact .inr ⟨e, s', hrun, he⟩
  refine ⟨hends, ?_, ?_⟩
  · intro hsafe
    have hnamed : ¬Unnamed n := by
      intro hunnamed
      obtain ⟨s', hrun⟩ := (unconditional_of_unnamed (tapeOracles []) .standard hunnamed).fails
        ⟨0, (SearchCache.ofLimits 0 limit).after []⟩
      exact not_rootsOr_of_error hrun nofun (hsafe (tapeOracles []) .standard 0 [] 0)
    refine ⟨hnamed, fun q hq => ?_⟩
    have hname : Writable n := by
      by_contra hlong
      exact hnamed ⟨hq.large, hlong⟩
    obtain ⟨x, y, s', hrun⟩ := hq.exists_refusal hname (hcoherent 0 [])
    refine not_rootsOr_of_error hrun ?_ (hsafe (tapeOracles [x, y]) .standard 0 [] 0)
    -- neither the refusal nor the fault in its place is expected
    rcases refuse_cases (.squareRange q limit) with hrefuse | hrefuse
    · exact hrefuse ▸ nofun
    · exact hrefuse ▸ nofun
  · rintro ⟨hnamed, hreach⟩ o cfg primeLimit history draws
    rcases hends o cfg primeLimit history draws with hroots | ⟨e, s', hrun, he⟩
    · exact .inl hroots
    · cases he with
      | expected he => exact .inr ⟨_, s', hrun, he⟩
      | refused hq => exact (hreach _ hq).elim
      | unnamed hn => exact (hnamed hn).elim

open Unlimited in
/-- For the number eleven the primes below eight matter, and the usual limit is far above them. -/
theorem unconditional_safe_iff_eleven :
    (0 : ℤ) ≤ 11 ∧ ∀ (o : Oracles) (cfg : Settings) (primeLimit : ℤ) (history : List Event)
      (draws : ℕ), RootsOr (UnconditionalFailure 11) 11
        (unconditional o cfg 11 ⟨draws, (SearchCache.ofLimits primeLimit 10000).after history⟩) := by
  refine ⟨by decide, (unconditional_safe_iff (by decide) 10000).2.mpr
    ⟨fun hn => hn.long (writable_off 11), fun q hq => ?_⟩⟩
  have hbits : max (bitLength (11 : ℤ).toNat) 8 = 8 := by decide
  have hbound := hq.lt_bound
  have hbeyond := hq.beyond
  omega

open Unlimited in
/-- **A refusal**: two is missing, and the limit for squares is one. -/
theorem unconditional_refuses_two :
    ∃ s', unconditional (tapeOracles [3, 0]) .standard 11 ⟨0, .ofLimits 4096 1⟩
      = .error (.precondition (.squareRange 2 1)) s' := by
  have hodd : (oddPart (11 : ℤ).toNat).2 = 11 := by cbv
  have hreach : OutOfReach 11 1 2 :=
    ⟨⟨Nat.prime_two, .inl rfl⟩, by decide, by rw [hodd]; decide, by rw [hodd]; decide, by decide⟩
  rw [← refuse_off]
  exact unconditional_of_draws hreach (writable_off 11) Nat.one_pos rfl
    (SearchCache.coherent_ofLimits 4096 1)
    (below_of_tape (z := 3) (by rw [hodd]; decide) rfl)
    (below_of_tape (z := 0) (by rw [hodd]; decide) rfl) (by rw [hodd]; decide)

end HiddenOrder
