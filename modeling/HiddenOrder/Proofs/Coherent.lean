import HiddenOrder.Proofs.ScratchPool
import HiddenOrder.Proofs.Sieve

/-!
# What caches answer

A cache answers with what it remembers, or works the answer out.  It makes no difference which, as
long as all that is remembered was worked out in the same way: a table holds values of one function
of its keys, and the list of primes reaches as far as it claims to.  New caches are such, using them
keeps them so, and forgetting does too.

The limit of the prime list is not observable, since a list that was sieved further and cut off is
the list that was sieved less far.  The limit of the cache of squares is: it is the bound above
which numbers are refused.

* `Memo.Recalls` — a table holds values of a function.
* `PrimeCache.Truthful`, `SquareCache.Truthful` — what the caches hold is what they would work out.
* **`PrimeCache.Truthful.primesBelow`**, **`PrimeCache.Truthful.product`**,
  **`SquareCache.Truthful.twoSquares`** — the answers, whatever is remembered.
* **`SearchCache.Coherent`** — a bundle of such caches, with a given limit for squares, and pools of
  which nothing is lent.
* `Search.primes_of_coherent`, **`Search.squares_of_coherent`** — what a search is answered.
-/

namespace HiddenOrder

/-! ## Tables -/

namespace Memo

variable {κ υ : Type} [DecidableEq κ] {m : Memo κ υ} {f : κ → υ} {key : κ} {answer : υ}

/-- Every remembered answer is the value of the function. -/
def Recalls (m : Memo κ υ) (f : κ → υ) : Prop :=
  ∀ key answer, m.find? key = some answer → answer = f key

lemma recalls_empty (f : κ → υ) : (empty : Memo κ υ).Recalls f := by
  intro key answer h
  cases h

lemma Recalls.insert (h : m.Recalls f) (key : κ) : (m.insert key (f key)).Recalls f := by
  intro key' answer hfound
  rw [find?_insert] at hfound
  split_ifs at hfound with hkey
  · cases hfound
    rw [hkey]
  · exact h key' answer hfound

end Memo

/-! ## Primes -/

/-- A list that was sieved further and cut off is the list that was sieved less far. -/
lemma filter_primesBelow {limit bound : ℤ} (h : bound ≤ limit) :
    (primesBelow limit).filter (fun p : ℕ => decide ((p : ℤ) < bound)) = primesBelow bound := by
  refine ((pairwise_primesBelow limit).filter _).eq_of_mem_iff (pairwise_primesBelow bound)
    fun p => ?_
  rw [List.mem_filter, mem_primesBelow, mem_primesBelow, decide_eq_true_eq]
  constructor
  · rintro ⟨⟨-, hprime⟩, hlt⟩
    exact ⟨hlt, hprime⟩
  · rintro ⟨hlt, hprime⟩
    exact ⟨⟨by omega, hprime⟩, hlt⟩

/-- The product of the primes below a bound, or of the odd ones. -/
def productBelow (key : ℤ × Bool) : ℤ :=
  ((primesBelow key.1).filter fun p => !(key.2 && p == 2)).foldl
    (fun (n : ℤ) (p : ℕ) => n * p) 1

namespace PrimeCache

variable {c : PrimeCache}

/-- The list reaches up to the limit, and what is remembered are products. -/
structure Truthful (c : PrimeCache) : Prop where
  primes : c.primes = HiddenOrder.primesBelow c.limit
  products : c.products.Recalls productBelow

lemma truthful_ofLimit (limit : ℤ) : (ofLimit limit).Truthful :=
  ⟨rfl, Memo.recalls_empty _⟩

namespace Truthful

lemma clear (h : c.Truthful) : c.clear.Truthful := ⟨h.primes, Memo.recalls_empty _⟩

lemma reach (h : c.Truthful) (bound : ℤ) :
    (c.reach bound).Truthful ∧ bound ≤ (c.reach bound).limit := by
  rw [PrimeCache.reach]
  split_ifs with hlimit
  · exact ⟨⟨rfl, h.products⟩, le_max_left _ _⟩
  · exact ⟨h, not_lt.mp hlimit⟩

/-- **The primes below a bound** do not depend on how far the list reached before. -/
theorem primesBelow (h : c.Truthful) (bound : ℤ) :
    (c.primesBelow bound).1 = HiddenOrder.primesBelow bound ∧ (c.primesBelow bound).2.Truthful := by
  obtain ⟨htruthful, hbound⟩ := h.reach bound
  refine ⟨?_, htruthful⟩
  rw [PrimeCache.primesBelow, htruthful.primes]
  exact filter_primesBelow hbound

/-- **The product of the primes below a bound** does not depend on what was multiplied before. -/
theorem product (h : c.Truthful) (bound : ℤ) (oddOnly : Bool) :
    (c.product bound oddOnly).1 = productBelow (if oddOnly then bound else max bound 8, oddOnly) ∧
      (c.product bound oddOnly).2.Truthful := by
  rw [PrimeCache.product]
  generalize (if oddOnly then bound else max bound 8) = bound
  obtain ⟨hprimes, htruthful⟩ := h.primesBelow bound
  cases hfound : c.products.find? (bound, oddOnly) with
  | some answer => exact ⟨h.products _ _ hfound, h⟩
  | none =>
      have hanswer : ((c.primesBelow bound).1.filter fun p => !(oddOnly && p == 2)).foldl
          (fun (n : ℤ) (p : ℕ) => n * p) 1 = productBelow (bound, oddOnly) := by
        rw [hprimes, productBelow]
      refine ⟨hanswer, htruthful.primes, ?_⟩
      dsimp only
      rw [hanswer]
      exact htruthful.products.insert (bound, oddOnly)

end Truthful

end PrimeCache

/-! ## Squares -/

namespace SquareCache

variable {c : SquareCache} {limit : ℤ}

/-- The limit is the given one, and what is remembered are decompositions. -/
structure Truthful (limit : ℤ) (c : SquareCache) : Prop where
  limit_eq : c.limit = limit
  answers : c.answers.Recalls fun m => twoSquareRoots m (sqrt m)

lemma truthful_ofLimit (limit : ℤ) : (ofLimit limit).Truthful limit :=
  ⟨rfl, Memo.recalls_empty _⟩

namespace Truthful

lemma clear (h : c.Truthful limit) : c.clear.Truthful limit := ⟨h.limit_eq, Memo.recalls_empty _⟩

/-- **The decomposition of a number** does not depend on what was decomposed before. -/
theorem twoSquares [DigitLimit] (h : c.Truthful limit) (m : ℤ) :
    (c.twoSquares m).1 = (if m < 0 ∨ limit < m then .error (refuse (.squareRange m limit))
        else .ok (twoSquareRoots m.toNat (sqrt m.toNat))) ∧
      (c.twoSquares m).2.Truthful limit := by
  rw [SquareCache.twoSquares, h.limit_eq]
  split_ifs with hrange
  · exact ⟨rfl, h⟩
  · cases hfound : c.answers.find? m.toNat with
    | some answer =>
        refine ⟨?_, h⟩
        rw [h.answers _ _ hfound]
    | none => exact ⟨rfl, rfl, h.answers.insert m.toNat⟩

end Truthful

end SquareCache

/-! ## The bundle -/

namespace SearchCache

variable {c : SearchCache} {limit : ℤ}

/-- Both caches are truthful, the one of squares with the given limit, and of the pools nothing is
lent. -/
structure Coherent (limit : ℤ) (c : SearchCache) : Prop where
  primes : c.primes.Truthful
  squares : c.squares.Truthful limit
  pools : c.Sound

lemma coherent_ofLimits (primeLimit squareLimit : ℤ) :
    (ofLimits primeLimit squareLimit).Coherent squareLimit where
  primes := PrimeCache.truthful_ofLimit primeLimit
  squares := SquareCache.truthful_ofLimit squareLimit
  pools := sound_ofLimits primeLimit squareLimit

namespace Coherent

lemma setPrimes (h : c.Coherent limit) {primes : PrimeCache} (hprimes : primes.Truthful) :
    Coherent limit { c with primes } :=
  ⟨hprimes, h.squares, ⟨h.pools.gaussians, h.pools.quaternions⟩⟩

lemma setSquares (h : c.Coherent limit) {squares : SquareCache}
    (hsquares : squares.Truthful limit) : Coherent limit { c with squares } :=
  ⟨h.primes, hsquares, ⟨h.pools.gaussians, h.pools.quaternions⟩⟩

lemma setGaussians (h : c.Coherent limit) {gaussians : ScratchPool Gaussian}
    (hgaussians : gaussians.Holds []) : Coherent limit { c with gaussians } :=
  ⟨h.primes, h.squares, ⟨hgaussians, h.pools.quaternions⟩⟩

lemma setQuaternions (h : c.Coherent limit) {quaternions : ScratchPool Hurwitz}
    (hquaternions : quaternions.Holds []) : Coherent limit { c with quaternions } :=
  ⟨h.primes, h.squares, ⟨h.pools.gaussians, hquaternions⟩⟩

lemma scratchGcd (h : c.Coherent limit) (a b : Gaussian) :
    Coherent limit { c with gaussians := (scratchGcd a b c.gaussians).2 } :=
  h.setGaussians (ScratchPool.scratchGcd_ok h.pools.gaussians a b).2

lemma scratchGcrd (h : c.Coherent limit) (q : Hurwitz) (odd : ℕ) :
    Coherent limit { c with quaternions := (scratchGcrd q odd c.quaternions).2 } :=
  h.setQuaternions (ScratchPool.scratchGcrd_ok h.pools.quaternions q odd).2

lemma clear (h : c.Coherent limit) : c.clear.Coherent limit :=
  ⟨h.primes.clear, h.squares.clear, ⟨h.pools.gaussians, h.pools.quaternions⟩⟩

end Coherent

end SearchCache

/-! ## Uses of a coherent bundle -/

namespace Search

variable {α : Type} {limit : ℤ} {s : SearchState}

/-- A use of the primes that truthful caches give one answer to. -/
lemma primes_of_coherent {use : PrimeCache → α × PrimeCache} {a : α}
    (huse : ∀ c : PrimeCache, c.Truthful → (use c).1 = a ∧ (use c).2.Truthful)
    (hs : s.cache.Coherent limit) :
    ∃ c : SearchCache, c.Coherent limit ∧ Search.primes use s = .ok a ⟨s.draws, c⟩ := by
  obtain ⟨ha, hkept⟩ := huse _ hs.primes
  refine ⟨_, hs.setPrimes hkept, ?_⟩
  rw [← ha]
  rfl

/-- **A decomposition** is looked up or worked out, or refused; which of the first two does not
show. -/
theorem squares_of_coherent [DigitLimit] (m : ℤ) (hs : s.cache.Coherent limit) :
    ∃ c : SearchCache, c.Coherent limit ∧ Search.squares (·.twoSquares m) s =
      if m < 0 ∨ limit < m then .error (refuse (.squareRange m limit)) ⟨s.draws, c⟩
      else .ok (twoSquareRoots m.toNat (sqrt m.toNat)) ⟨s.draws, c⟩ := by
  obtain ⟨ha, hkept⟩ := hs.squares.twoSquares m
  refine ⟨_, hs.setSquares hkept, ?_⟩
  rw [Search.squares]
  dsimp only
  rw [ha]
  split_ifs <;> rfl

end Search

end HiddenOrder
