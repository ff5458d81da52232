import HiddenOrder.Proofs.Coherent
import HiddenOrder.Proofs.TwoRuns
import HiddenOrder.Squares.Three

/-!
# Searches do not depend on what was searched before

A bundle of caches is handed from search to search, and every search leaves something behind in it:
a longer list of primes, products and decompositions, slots with old values.  None of this shows.
What a search asks of the caches has one answer whatever they remember, and it leaves them in a
state of which the same can be said, whether it succeeds, fails or is refused.  So a search in a
bundle with a past gives the same as one in a new bundle, down to the number of draws; only the
limit of the cache of squares, which is set when the bundle is made, is seen.

* `AlikeUpTo` — equally many draws, and coherent caches with the same limit.
* `Respects.primes`, `Respects.squares`, `Respects.gaussians`, `Respects.quaternions` — the uses of
  the caches.
* **`Query`** — the searches; **`Query.respects`** — none of them sees what is remembered.
* `Event`, `SearchCache.after` — the pasts of a bundle.
* **`history_independent`** — two bundles with the same limit give the same.
-/

namespace HiddenOrder

variable {limit : ℤ}

/-- Equally many draws were made, and both bundles are coherent with the same limit for squares. -/
structure AlikeUpTo (limit : ℤ) (s s' : SearchState) : Prop where
  draws : s.draws = s'.draws
  left : s.cache.Coherent limit
  right : s'.cache.Coherent limit

/-! ## The steps of a search -/

namespace Respects

variable {α : Type}

lemma draw (d : Draw α) : Respects (AlikeUpTo limit) (Search.draw d) := by
  rintro s s' ⟨hdraws, hleft, hright⟩
  rw [Search.draw, Search.draw, hdraws]
  cases d s'.draws with
  | ok a n => exact .ok a ⟨rfl, hleft, hright⟩
  | error e n => exact .error e ⟨rfl, hleft, hright⟩

lemma ofExcept (r : Except Error α) : Respects (AlikeUpTo limit) (Search.ofExcept r) := by
  cases r with
  | ok a => exact .pure a
  | error e => exact .throw e

lemma squareLimit : Respects (AlikeUpTo limit) squareLimit := by
  rintro s s' ⟨hdraws, hleft, hright⟩
  rw [HiddenOrder.squareLimit, HiddenOrder.squareLimit, hleft.squares.limit_eq,
    hright.squares.limit_eq]
  exact .ok limit ⟨hdraws, hleft, hright⟩

lemma primes {use : PrimeCache → α × PrimeCache} (a : α)
    (huse : ∀ c : PrimeCache, c.Truthful → (use c).1 = a ∧ (use c).2.Truthful) :
    Respects (AlikeUpTo limit) (Search.primes use) := by
  rintro s s' ⟨hdraws, hleft, hright⟩
  obtain ⟨c, hc, hrun⟩ := Search.primes_of_coherent huse hleft
  obtain ⟨c', hc', hrun'⟩ := Search.primes_of_coherent huse hright
  rw [hrun, hrun']
  exact .ok a ⟨hdraws, hc, hc'⟩

lemma squares [DigitLimit] (m : ℤ) :
    Respects (AlikeUpTo limit) (Search.squares (·.twoSquares m)) := by
  rintro s s' ⟨hdraws, hleft, hright⟩
  obtain ⟨c, hc, hrun⟩ := Search.squares_of_coherent m hleft
  obtain ⟨c', hc', hrun'⟩ := Search.squares_of_coherent m hright
  rw [hrun, hrun']
  split_ifs
  · exact .error _ ⟨hdraws, hc, hc'⟩
  · exact .ok _ ⟨hdraws, hc, hc'⟩

lemma gaussians (a b : Gaussian) :
    Respects (AlikeUpTo limit) (Search.gaussians (scratchGcd a b)) := by
  rintro s s' ⟨hdraws, hleft, hright⟩
  have ha := (ScratchPool.scratchGcd_ok hleft.pools.gaussians a b).1
  have ha' := (ScratchPool.scratchGcd_ok hright.pools.gaussians a b).1
  rw [Search.gaussians, Search.gaussians]
  dsimp only
  rw [ha, ha']
  exact .ok _ ⟨hdraws, hleft.scratchGcd a b, hright.scratchGcd a b⟩

lemma quaternions (h : Hurwitz) (odd : ℕ) :
    Respects (AlikeUpTo limit) (Search.quaternions (scratchGcrd h odd)) := by
  rintro s s' ⟨hdraws, hleft, hright⟩
  have ha := (ScratchPool.scratchGcrd_ok hleft.pools.quaternions h odd).1
  have ha' := (ScratchPool.scratchGcrd_ok hright.pools.quaternions h odd).1
  rw [Search.quaternions, Search.quaternions]
  dsimp only
  rw [ha, ha']
  exact .ok _ ⟨hdraws, hleft.scratchGcrd h odd, hright.scratchGcrd h odd⟩

end Respects

/-! ## Trials -/

section Trials

variable (o : Oracles)

lemma primeTwoSquares_respects [DigitLimit] (p : ℤ) :
    Respects (AlikeUpTo limit) (primeTwoSquares o p) := by
  rw [primeTwoSquares]
  refine (Respects.draw _).bind fun r => ?_
  cases r with
  | none => exact .pure none
  | some s => exact (Respects.gaussians _ _).bind fun g => .pure _

lemma divisorOfNorm_respects [DigitLimit] (h : Hurwitz) (odd : ℕ) :
    Respects (AlikeUpTo limit) (divisorOfNorm h odd) := by
  rw [divisorOfNorm_eq]
  refine (Respects.quaternions h odd).bind fun d => ?_
  split_ifs
  · exact .pure none
  · exact (Respects.ofExcept _).bind fun h => .pure _

lemma twoSquares_respects [DigitLimit] (m : ℤ) : Respects (AlikeUpTo limit) (twoSquares o m) := by
  rw [twoSquares]
  refine Respects.squareLimit.bind fun limit => ?_
  split_ifs
  · exact (Respects.squares m).bind fun found => .pure _
  · exact (primeTwoSquares_respects o m).bind fun found => .pure _
  · exact .pure none

lemma lagrangeTrial_respects [DigitLimit] (odd : ℕ) (pre : ℤ) (worker workers : ℕ) :
    Respects (AlikeUpTo limit) (lagrangeTrial o odd pre worker workers) := by
  rw [lagrangeTrial]
  refine (Respects.draw _).bind fun t => ?_
  dsimp only
  split_ifs
  · refine (primeTwoSquares_respects o _).bind fun g => ?_
    cases g with
    | none => exact .pure none
    | some g => exact divisorOfNorm_respects _ odd
  · exact .pure none

lemma largeTrial_respects [DigitLimit] (odd : ℕ) (pre : ℤ) :
    Respects (AlikeUpTo limit) (largeTrial o odd pre) := by
  rw [largeTrial]
  refine (Respects.draw _).bind fun l => ?_
  dsimp only
  split_ifs
  · refine (primeTwoSquares_respects o _).bind fun ab => ?_
    cases ab with
    | none => exact .pure none
    | some ab =>
        refine (primeTwoSquares_respects o l).bind fun cd => ?_
        cases cd with
        | none => exact .pure none
        | some cd => exact divisorOfNorm_respects _ odd
  · exact .pure none

lemma takeOut_respects [DigitLimit] (q steps : ℕ) (state : Gaussian × ℕ) :
    Respects (AlikeUpTo limit) (takeOut q steps state) := by
  induction steps generalizing state with
  | zero => exact .pure state
  | succ steps ih =>
      obtain ⟨acc, rest⟩ := state
      rw [takeOut]
      split_ifs
      · refine (Respects.squares q).bind fun found => ?_
        cases found with
        | none => exact .throw _
        | some roots => exact ih _
      · exact .pure _

lemma takeOutAll_respects [DigitLimit] (small : List ℕ) (state : Gaussian × ℕ) :
    Respects (AlikeUpTo limit) (takeOutAll small state) := by
  induction small generalizing state with
  | nil => exact .pure state
  | cons q small ih =>
      rw [takeOutAll]
      exact (takeOut_respects q _ state).bind ih

lemma sumOfTwoSquares_respects [DigitLimit] (small : List ℕ) (r : ℕ) :
    Respects (AlikeUpTo limit) (sumOfTwoSquares o small r) := by
  rw [sumOfTwoSquares]
  refine (takeOutAll_respects small _).bind fun state => ?_
  dsimp only
  split
  · exact .pure _
  · refine Respects.squareLimit.bind fun limit => ?_
    split_ifs
    · exact (Respects.squares _).bind fun found => .pure _
    · exact (primeTwoSquares_respects o _).bind fun found => .pure _
    · exact .pure none

lemma unconditionalTrial_respects [DigitLimit] (odd : ℕ) (small : List ℕ) :
    Respects (AlikeUpTo limit) (unconditionalTrial o odd small) := by
  rw [unconditionalTrial]
  refine (Respects.draw _).bind fun x => (Respects.draw _).bind fun y => ?_
  refine .ite_bind (.pure _) (sumOfTwoSquares_respects o small _) fun zw => ?_
  cases zw with
  | none => exact .pure none
  | some g => exact divisorOfNorm_respects _ odd

lemma scanEven_respects [DigitLimit] (n : ℤ) (rt stride trials cnt : ℕ) :
    Respects (AlikeUpTo limit) (scanEven o n rt stride trials cnt) := by
  induction trials generalizing cnt with
  | zero => exact .pure none
  | succ trials ih =>
      rw [scanEven]
      split_ifs
      · exact .pure none
      · refine (twoSquares_respects o _).bind fun found => ?_
        cases found with
        | none => exact ih _
        | some roots => exact (Respects.ofExcept _).bind fun w => .pure _

end Trials

/-! ## Searches -/

section Searches

variable (o : Oracles) (cfg : Settings) (n : ℤ)

lemma decompose_respects [DigitLimit] {find : ℕ → Search Hurwitz}
    (hfind : ∀ odd, Respects (AlikeUpTo limit) (find odd)) :
    Respects (AlikeUpTo limit) (decompose n find) := by
  rw [decompose]
  split_ifs
  · exact .throw _
  · exact .pure _
  · exact .ite_bind (.pure _) (hfind _) fun h => .ofExcept _

lemma lagrangeSearch_respects [DigitLimit] (odd : ℕ) :
    Respects (AlikeUpTo limit) (lagrangeSearch o cfg n odd) := by
  rw [lagrangeSearch]
  refine (Respects.primes _ fun c hc => hc.product _ _).bind fun primorial => ?_
  refine (Respects.ofExcept _).bind fun failure => ?_
  refine .race (fun worker workers => ?_) _ _
  exact (lagrangeTrial_respects o odd _ worker workers).withinTrials _ _ _

lemma largeSearch_respects [DigitLimit] (odd : ℕ) :
    Respects (AlikeUpTo limit) (largeSearch o cfg n odd) := by
  rw [largeSearch]
  refine (Respects.primes _ fun c hc => hc.product _ _).bind fun primorial => ?_
  refine (Respects.ofExcept _).bind fun failure => ?_
  exact .race (fun _ _ => (largeTrial_respects o odd _).withinTrials _ _ _) _ _

lemma unconditionalSearch_respects [DigitLimit] (odd : ℕ) :
    Respects (AlikeUpTo limit) (unconditionalSearch o cfg n odd) := by
  rw [unconditionalSearch]
  refine (Respects.primes _ fun c hc => hc.primesBelow _).bind fun primes => ?_
  refine (Respects.ofExcept _).bind fun failure => ?_
  exact .race (fun _ _ => (unconditionalTrial_respects o odd _).withinTrials _ _ _) _ _

lemma decompose_search_respects [DigitLimit] (large : Bool) : Respects (AlikeUpTo limit)
    (if large then decompose n (largeSearch o cfg n)
      else decompose n (lagrangeSearch o cfg n)) := by
  cases large with
  | true => exact decompose_respects n (largeSearch_respects o cfg n)
  | false => exact decompose_respects n (lagrangeSearch_respects o cfg n)

lemma lagrange_respects [DigitLimit] : Respects (AlikeUpTo limit) (lagrange o cfg n) := by
  rw [lagrange]
  split_ifs
  · exact (Respects.ofExcept _).bind (decompose_search_respects o cfg n)
  · exact decompose_search_respects o cfg n false

lemma largeLagrange_respects [DigitLimit] : Respects (AlikeUpTo limit) (largeLagrange o cfg n) := by
  rw [largeLagrange]
  exact (Respects.ofExcept _).bind (decompose_search_respects o cfg n)

lemma threeSquares_respects [DigitLimit] : Respects (AlikeUpTo limit) (threeSquares o cfg n) := by
  rw [threeSquares]
  split_ifs
  · exact .throw _
  · refine (Respects.ofExcept _).bind fun failure => ?_
    refine (Respects.race (fun worker workers => scanEven_respects o n _ _ _ _) _ _).bind
      fun w => ?_
    split_ifs
    · exact .pure w
    · exact .throw _

end Searches

/-! ## Bundles with a past -/

/-- What a bundle of caches can be asked. -/
inductive Query where
  /-- Four squares, by a prime in a progression. -/
  | lagrange (cfg : Settings) (n : ℤ)
  /-- Four squares, by a prime just below a multiple if the number is large. -/
  | largeLagrange (cfg : Settings) (n : ℤ)
  /-- Four squares without assumptions on primes. -/
  | unconditional (cfg : Settings) (n : ℤ)
  /-- Three squares. -/
  | threeSquares (cfg : Settings) (n : ℤ)
  /-- Two squares. -/
  | twoSquares (m : ℤ)

namespace Query

/-- The kind of result that is asked for. -/
def Answer : Query → Type
  | lagrange _ _ | largeLagrange _ _ | unconditional _ _ => FourInt
  | threeSquares _ _ => ThreeInt
  | twoSquares _ => Option (ℤ × ℤ)

/-- The search for it. -/
def run [DigitLimit] (o : Oracles) : (query : Query) → Search query.Answer
  | lagrange cfg n => HiddenOrder.lagrange o cfg n
  | largeLagrange cfg n => HiddenOrder.largeLagrange o cfg n
  | unconditional cfg n => HiddenOrder.unconditional o cfg n
  | threeSquares cfg n => HiddenOrder.threeSquares o cfg n
  | twoSquares m => HiddenOrder.twoSquares o m

/-- **No search sees what is remembered.** -/
theorem respects [DigitLimit] (o : Oracles) (query : Query) :
    Respects (AlikeUpTo limit) (query.run o) := by
  cases query with
  | lagrange cfg n => exact lagrange_respects o cfg n
  | largeLagrange cfg n => exact largeLagrange_respects o cfg n
  | unconditional cfg n => exact decompose_respects n (unconditionalSearch_respects o cfg n)
  | threeSquares cfg n => exact threeSquares_respects o cfg n
  | twoSquares m => exact twoSquares_respects o m

end Query

/-- What happens to a bundle of caches. -/
inductive Event where
  /-- A search, with oracles of its own, after so many draws from their source. -/
  | search (o : Oracles) (draws : ℕ) (query : Query)
  /-- The answers are forgotten. -/
  | clear

/-- What is seen of a search: the result or the failure, and the number of draws. -/
def outcome {α : Type} : EStateM.Result Error SearchState α → Except Error α × ℕ
  | .ok a s => (.ok a, s.draws)
  | .error e s => (.error e, s.draws)

lemma EndAlike.coherent {α : Type} {r r' : EStateM.Result Error SearchState α}
    (h : EndAlike (AlikeUpTo limit) r r') : (endState r).cache.Coherent limit := by
  cases h with
  | ok a hs => exact hs.left
  | error e hs => exact hs.left

lemma EndAlike.outcome_eq {α : Type} {r r' : EStateM.Result Error SearchState α}
    (h : EndAlike (AlikeUpTo limit) r r') : outcome r = outcome r' := by
  cases h with
  | ok a hs => rw [outcome, outcome, hs.draws]
  | error e hs => rw [outcome, outcome, hs.draws]

namespace SearchCache

/-- The bundle after one event; a search that fails has used it as well. -/
def step [DigitLimit] (c : SearchCache) : Event → SearchCache
  | .search o draws query => (endState (query.run o ⟨draws, c⟩)).cache
  | .clear => c.clear

/-- The bundle after some events. -/
def after [DigitLimit] (c : SearchCache) (history : List Event) :
    SearchCache := history.foldl step c

variable {c : SearchCache}

/-- One event leaves a coherent bundle coherent. -/
lemma Coherent.step [DigitLimit] (h : c.Coherent limit) (event : Event) :
    (c.step event).Coherent limit := by
  cases event with
  | search o draws query =>
      exact (query.respects o ⟨draws, c⟩ ⟨draws, c⟩ ⟨rfl, h, h⟩).coherent
  | clear => exact h.clear

/-- **Whatever happens to a bundle, it stays coherent.** -/
theorem Coherent.after [DigitLimit] (h : c.Coherent limit) (history : List Event) :
    (c.after history).Coherent limit := by
  induction history generalizing c with
  | nil => exact h
  | cons event history ih => exact ih (h.step event)

/-- The pools of a bundle have nothing lent between searches. -/
lemma sound_after [DigitLimit] (primeLimit squareLimit : ℤ) (history : List Event) :
    ((ofLimits primeLimit squareLimit).after history).Sound :=
  ((coherent_ofLimits primeLimit squareLimit).after history).pools

end SearchCache

/-- **Searches do not depend on what was searched before.**  Two bundles made with the same limit
for squares, and with any limits for primes, give the same result or the same failure with the same
number of draws, whatever each of them went through. -/
theorem history_independent [DigitLimit] (squareLimit primeLimit primeLimit' : ℤ)
    (history history' : List Event) (o : Oracles) (draws : ℕ) (query : Query) :
    outcome (query.run o
        ⟨draws, (SearchCache.ofLimits primeLimit squareLimit).after history⟩)
      = outcome (query.run o
        ⟨draws, (SearchCache.ofLimits primeLimit' squareLimit).after history'⟩) := by
  have hleft := (SearchCache.coherent_ofLimits primeLimit squareLimit).after history
  have hright := (SearchCache.coherent_ofLimits primeLimit' squareLimit).after history'
  exact EndAlike.outcome_eq (query.respects o _ _ ⟨rfl, hleft, hright⟩)

end HiddenOrder
