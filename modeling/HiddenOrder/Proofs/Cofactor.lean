import HiddenOrder.Proofs.Trials
import HiddenOrder.Proofs.Unconditional
import Mathlib.Data.Nat.Factorization.Basic

/-!
# Two squares by taking out primes

To write `r` as a sum of two squares, small primes that are such sums are divided out of it as often
as they go, and each time the result so far is multiplied by a Gaussian integer with the prime as
its norm.  At every moment the norm of the result times what is left is `r`.  So when the cofactor,
which none of the primes divides, is itself written as a sum of two squares, the result is one for
`r`; and nothing can go wrong on the way, as long as the cache of squares answers for the primes.

The cofactor is one, or is looked up, or has to be a prime; only in the last case is it a matter of
luck whether there is a result.

* `cofactor` — what is left of a number when some primes have been divided out of it.
* `takeOut_run`, **`takeOutAll_run`** — the primes taken out: the cofactor is left, and the product
  is kept.
* **`primeTwoSquares_run_of_answers`** — a source that answers gives nothing, or two squares.
* `sumOfTwoSquares_of_le`, `sumOfTwoSquares_of_lt` — the cofactor looked up, and tried as a prime.
* **`sumOfTwoSquares_of_answers`** — two squares of `r`, and always for some cofactors.
-/

namespace HiddenOrder

variable {o : Oracles} {limit : ℤ} {s : SearchState} {q : ℕ}

/-! ## The cofactor -/

/-- What is left of `r` when each of some primes has been divided out of it, as often as it
divides. -/
def cofactor (small : List ℕ) (r : ℕ) : ℕ := small.foldl (fun rest q => ordCompl[q] rest) r

/-- A number within the limit is answered by the cache of squares: with roots, if it has any. -/
lemma squares_run [DigitLimit] {m : ℕ} (hlimit : (m : ℤ) ≤ limit) (hs : s.cache.Coherent limit) :
    ∃ (found : Option (ℕ × ℕ)) (c : SearchCache), c.Coherent limit ∧
      Search.squares (·.twoSquares m) s = .ok found ⟨s.draws, c⟩ ∧
      (∀ a b, found = some (a, b) → Gaussian.norm ⟨a, b⟩ = m) ∧
      ((∃ x y, x * x + y * y = m) → found ≠ none) := by
  obtain ⟨c, hc, hrun⟩ := Search.squares_of_coherent m hs
  rw [if_neg (by omega), Int.toNat_natCast] at hrun
  refine ⟨_, c, hc, hrun, fun a b hroots => ?_, fun hsum => ?_⟩
  · have hsum := eq_of_twoSquareRoots (sqrt_eq m ▸ Nat.sqrt_le m) hroots
    show (a * a + b * b : ℤ) = m
    exact_mod_cast hsum
  · exact Option.isSome_iff_ne_none.mp (twoSquareRoots_isSome_iff.mpr hsum)

/-- **A prime is taken out as often as it divides**, and the product of the norm and of what is left
stays the same. -/
lemma takeOut_run [DigitLimit] (hq : IsSplit q) (hlimit : (q : ℤ) ≤ limit) {steps rest : ℕ}
    (hpos : 0 < rest) (hsteps : rest < 2 ^ steps) (hs : s.cache.Coherent limit) (acc : Gaussian) :
    ∃ (acc' : Gaussian) (c : SearchCache), c.Coherent limit ∧
      takeOut q steps (acc, rest) s = .ok (acc', ordCompl[q] rest) ⟨s.draws, c⟩ ∧
      acc'.norm * (ordCompl[q] rest : ℕ) = acc.norm * rest := by
  induction steps generalizing rest acc s with
  | zero => omega
  | succ steps ih =>
      rw [takeOut]
      by_cases hdvd : q ∣ rest
      · obtain ⟨found, c, hc, hrun, hnorm, hfound⟩ := squares_run hlimit hs
        obtain ⟨⟨a, b⟩, rfl⟩ := Option.ne_none_iff_exists'.mp (hfound hq.exists_squares)
        have hle := Nat.le_of_dvd hpos hdvd
        have hhalf : rest / q ≤ rest / 2 := Nat.div_le_div_left hq.1.two_le Nat.two_pos
        obtain ⟨acc', c', hc', hrest, hproduct⟩ := ih (s := ⟨s.draws, c⟩)
          (Nat.div_pos hle hq.1.pos) (by omega) hc (acc * ⟨a, b⟩)
        rw [Nat.ordCompl_div_of_dvd hq.1 hdvd] at hrest hproduct
        rw [if_pos (Nat.mod_eq_zero_of_dvd hdvd), bind_run_of_ok hrun]
        refine ⟨acc', c', hc', hrest, ?_⟩
        rw [hproduct, Gaussian.norm_mul, hnorm a b rfl, mul_assoc]
        exact_mod_cast congrArg (acc.norm * ·) (congrArg Nat.cast (Nat.mul_div_cancel' hdvd))
      · have hself : ordCompl[q] rest = rest :=
          (Nat.ordCompl_eq_self_iff_zero_or_not_dvd rest hq.1).mpr (.inr hdvd)
        rw [if_neg (mt Nat.dvd_of_mod_eq_zero hdvd), hself]
        exact ⟨acc, s.cache, hs, rfl, rfl⟩

/-- **All of the primes taken out** leave the cofactor. -/
theorem takeOutAll_run [DigitLimit] {small : List ℕ}
    (hsmall : ∀ q ∈ small, IsSplit q ∧ (q : ℤ) ≤ limit) {rest : ℕ} (hpos : 0 < rest)
    (hs : s.cache.Coherent limit) (acc : Gaussian) :
    0 < cofactor small rest ∧ ∃ (acc' : Gaussian) (c : SearchCache), c.Coherent limit ∧
      takeOutAll small (acc, rest) s = .ok (acc', cofactor small rest) ⟨s.draws, c⟩ ∧
      acc'.norm * cofactor small rest = acc.norm * rest := by
  induction small generalizing rest acc s with
  | nil => exact ⟨hpos, acc, s.cache, hs, rfl, rfl⟩
  | cons q small ih =>
      obtain ⟨⟨hq, hlimit⟩, hrest⟩ := List.forall_mem_cons.mp hsmall
      have hbits : rest < 2 ^ bitLength rest := by
        rw [bitLength, if_neg hpos.ne']
        exact Nat.lt_log2_self
      obtain ⟨acc₁, c₁, hc₁, hrun₁, hproduct₁⟩ := takeOut_run hq hlimit hpos hbits hs acc
      obtain ⟨hpos', acc', c', hc', hrun', hproduct'⟩ := ih (s := ⟨s.draws, c₁⟩) hrest
        (Nat.ordCompl_pos q hpos.ne') hc₁ acc₁
      refine ⟨hpos', acc', c', hc', ?_, hproduct'.trans hproduct₁⟩
      rw [takeOutAll, bind_run_of_ok hrun₁]
      exact hrun'

/-! ## A prime cofactor -/

/-- From a source that answers the draws for a root come to an end. -/
lemma rootFromDraws_of_answers [DigitLimit] (hsource : o.source.Answers) {p : ℤ} (hp : 5 ≤ p)
    (trials i : ℕ) : ∃ r j, rootFromDraws o p trials i = .ok r j := by
  induction trials generalizing i with
  | zero => exact ⟨none, i, rfl⟩
  | succ trials ih =>
      obtain ⟨t, -, hdraw⟩ := Entropy.below_run (i := i) hsource (show 0 < p - 3 by omega)
      rw [rootFromDraws, bind_run_of_ok hdraw]
      dsimp only
      split_ifs
      · exact ⟨_, _, rfl⟩
      · exact ⟨_, _, rfl⟩
      · exact ih (i + 1)

/-- **From a source that answers there come two squares**, or nothing; whatever the number. -/
theorem primeTwoSquares_run_of_answers [DigitLimit] (hsource : o.source.Answers) (p : ℤ)
    (hs : s.cache.Coherent limit) : ∃ (found : Option Gaussian) (s' : SearchState),
      s'.cache.Coherent limit ∧ primeTwoSquares o p s = .ok found s' ∧
      ∀ g ∈ found, g.norm = p := by
  obtain ⟨root, j, hroot⟩ : ∃ r j, sqrtMinusOne o p s.draws = .ok r j := by
    rw [sqrtMinusOne]
    split_ifs with hclass
    · exact ⟨none, s.draws, rfl⟩
    · exact rootFromDraws_of_answers hsource (by omega) _ _
  cases root with
  | none =>
      refine ⟨none, ⟨j, s.cache⟩, hs, ?_, by simp⟩
      rw [primeTwoSquares, bind_run_of_ok (Search.draw_run_of_ok hroot)]
      rfl
  | some r =>
      refine ⟨some (gaussianOfRoot r p), ⟨j, _⟩, hs.scratchGcd ⟨r, 1⟩ ⟨p, 0⟩,
        primeTwoSquares_of_root hs.pools.gaussians hroot, ?_⟩
      rintro g ⟨⟩
      exact norm_gaussianOfRoot hroot

/-! ## Two squares -/

lemma squareLimit_run (hs : s.cache.Coherent limit) : squareLimit s = .ok limit s := by
  rw [squareLimit, hs.squares.limit_eq]

/-- A Gaussian integer times one with what is left as its norm. -/
lemma norm_mul_of_product {acc g : Gaussian} {rest r : ℕ} (hproduct : acc.norm * rest = r)
    (hg : g.norm = rest) : (acc * g).norm = r := by
  rw [Gaussian.norm_mul, hg, hproduct]

section Rest

variable {small : List ℕ} {r rest : ℕ} {acc : Gaussian} {c : SearchCache}

/-- A cofactor within the limit is looked up, and what is found for it is completed. -/
lemma sumOfTwoSquares_of_le [DigitLimit]
    (htaken : takeOutAll small (⟨1, 0⟩, r) s = .ok (acc, rest) ⟨s.draws, c⟩)
    (hproduct : acc.norm * rest = r) (hc : c.Coherent limit) (hne : rest ≠ 1)
    (hle : (rest : ℤ) ≤ limit) : ∃ (found : Option Gaussian) (s' : SearchState),
      sumOfTwoSquares o small r s = .ok found s' ∧ s'.cache.Coherent limit ∧
      (∀ g ∈ found, g.norm = r) ∧ ((∃ x y, x * x + y * y = rest) → found ≠ none) := by
  obtain ⟨found, c', hc', hlookup, hnorm, hfound⟩ := squares_run (s := ⟨s.draws, c⟩) hle hc
  rw [sumOfTwoSquares, bind_run_of_ok htaken]
  dsimp only
  rw [if_neg hne, bind_run_of_ok (squareLimit_run hc), if_pos hle, bind_run_of_ok hlookup]
  refine ⟨_, ⟨s.draws, c'⟩, rfl, hc', fun g hg => ?_, fun hsum => ?_⟩
  · obtain ⟨⟨a, b⟩, hroots, rfl⟩ := Option.map_eq_some_iff.mp hg
    exact norm_mul_of_product hproduct (hnorm a b hroots)
  · rw [Ne, Option.map_eq_none_iff]
    exact hfound hsum

/-- A cofactor beyond the limit has to be a prime, and may still give nothing. -/
lemma sumOfTwoSquares_of_lt [DigitLimit] (hsource : o.source.Answers)
    (htaken : takeOutAll small (⟨1, 0⟩, r) s = .ok (acc, rest) ⟨s.draws, c⟩)
    (hproduct : acc.norm * rest = r) (hc : c.Coherent limit) (hne : rest ≠ 1)
    (hlt : limit < rest) : ∃ (found : Option Gaussian) (s' : SearchState),
      sumOfTwoSquares o small r s = .ok found s' ∧ s'.cache.Coherent limit ∧
      ∀ g ∈ found, g.norm = r := by
  rw [sumOfTwoSquares, bind_run_of_ok htaken]
  dsimp only
  rw [if_neg hne, bind_run_of_ok (squareLimit_run hc), if_neg hlt.not_ge]
  by_cases hprime : isPrimeOneModFour o rest = true
  · obtain ⟨found, s', hs', hsearch, hnorm⟩ :=
      primeTwoSquares_run_of_answers (s := ⟨s.draws, c⟩) hsource rest hc
    rw [if_pos hprime, bind_run_of_ok hsearch]
    refine ⟨_, s', rfl, hs', fun g hg => ?_⟩
    obtain ⟨g', hg', rfl⟩ := Option.map_eq_some_iff.mp hg
    exact norm_mul_of_product hproduct (hnorm g' hg')
  · rw [if_neg hprime]
    exact ⟨none, ⟨s.draws, c⟩, rfl, hc, by simp⟩

end Rest

/-- **Two squares of `r`.**  Let each of the small primes be two or of the class one modulo four,
and within the limit of the cache of squares; the cache may have any past, and the source answers to
every draw.  Then the search returns, with nothing or with a Gaussian integer of norm `r`, and it
does not return with nothing when the cofactor is one, or a sum of two squares within the limit. -/
theorem sumOfTwoSquares_of_answers [DigitLimit] (hsource : o.source.Answers) {small : List ℕ}
    (hsmall : ∀ q ∈ small, IsSplit q ∧ (q : ℤ) ≤ limit) {r : ℕ} (hr : 1 ≤ r) :
    (∀ s : SearchState, s.cache.Coherent limit → ∃ (found : Option Gaussian) (s' : SearchState),
      sumOfTwoSquares o small r s = .ok found s' ∧ s'.cache.Coherent limit ∧
      (∀ g ∈ found, g.norm = r) ∧
      (cofactor small r = 1 ∨
        (cofactor small r : ℤ) ≤ limit ∧ (∃ x y, x * x + y * y = cofactor small r) →
          found ≠ none)) ∧
    ∀ primeLimit history, ((SearchCache.ofLimits primeLimit limit).after history).Coherent limit := by
  refine ⟨fun s hs => ?_, fun primeLimit history =>
    (SearchCache.coherent_ofLimits primeLimit limit).after history⟩
  obtain ⟨hpos, acc, c, hc, hrun, hproduct⟩ := takeOutAll_run hsmall hr hs ⟨1, 0⟩
  replace hproduct : acc.norm * cofactor small r = r := by
    rw [hproduct, Gaussian.norm]
    ring
  by_cases hone : cofactor small r = 1
  · rw [sumOfTwoSquares, bind_run_of_ok hrun]
    dsimp only
    rw [if_pos hone]
    refine ⟨some acc, ⟨s.draws, c⟩, rfl, hc, ?_, fun _ => Option.some_ne_none acc⟩
    rintro g ⟨⟩
    rwa [hone, Nat.cast_one, mul_one] at hproduct
  rcases le_or_gt (cofactor small r : ℤ) limit with hle | hlt
  · obtain ⟨found, s', hsearch, hs', hnorm, hfound⟩ :=
      sumOfTwoSquares_of_le hrun hproduct hc hone hle
    exact ⟨found, s', hsearch, hs', hnorm, fun hsum => hfound (hsum.resolve_left hone).2⟩
  · obtain ⟨found, s', hsearch, hs', hnorm⟩ :=
      sumOfTwoSquares_of_lt hsource hrun hproduct hc hone hlt
    refine ⟨found, s', hsearch, hs', hnorm, ?_⟩
    -- what is beyond the limit is nothing that was promised a result
    rintro (h | ⟨h, -⟩)
    · exact absurd h hone
    · exact absurd h hlt.not_ge

open Unlimited in
/-- Ninety is twice five times nine, and nine is no prime but three squared and nothing. -/
theorem sumOfTwoSquares_of_answers_ninety :
    parityOracles.source.Answers ∧ (∀ q ∈ [2, 5], IsSplit q ∧ (q : ℤ) ≤ 10000) ∧ 1 ≤ 90 ∧
      SearchCache.standard.Coherent 10000 ∧ cofactor [2, 5] 90 = 9 ∧
      ∃ (g : Gaussian) (s' : SearchState),
        sumOfTwoSquares parityOracles [2, 5] 90 ⟨0, .standard⟩ = .ok (some g) s' ∧
        g.norm = (90 : ℕ) := by
  have hsource : parityOracles.source.Answers := fun _ _ _ => Option.some_ne_none _
  have hsmall : ∀ q ∈ [2, 5], IsSplit q ∧ (q : ℤ) ≤ 10000 := by
    simp [IsSplit, Nat.prime_two, Nat.prime_five]
  have htwo : ordCompl[2] 90 = 45 :=
    Nat.ordCompl_pow_mul_of_not_dvd (m := 45) 1 Nat.prime_two (by decide)
  have hfive : ordCompl[5] 45 = 9 :=
    Nat.ordCompl_pow_mul_of_not_dvd (m := 9) 1 Nat.prime_five (by decide)
  have hcofactor : cofactor [2, 5] 90 = 9 := by
    rw [cofactor, List.foldl_cons, List.foldl_cons, List.foldl_nil, htwo, hfive]
  obtain ⟨hreturns, hcoherent⟩ := sumOfTwoSquares_of_answers hsource hsmall (r := 90) (by decide)
  have hstandard : SearchCache.standard.Coherent 10000 := hcoherent 4096 []
  obtain ⟨found, s', hrun, -, hnorm, hfound⟩ := hreturns ⟨0, .standard⟩ hstandard
  have hsome : found ≠ none := hfound (by
    rw [hcofactor]
    exact .inr ⟨by decide, 3, 0, rfl⟩)
  obtain ⟨g, rfl⟩ := Option.ne_none_iff_exists'.mp hsome
  exact ⟨hsource, hsmall, by decide, hstandard, hcofactor, g, s', hrun, hnorm g rfl⟩

end HiddenOrder
