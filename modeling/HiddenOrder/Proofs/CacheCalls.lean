import HiddenOrder.Proofs.Coherent
import Mathlib.Algebra.BigOperators.Group.Finset.Basic

/-!
# Caches on their own

A cache is used by calls, one after another, and now and then what it remembers is forgotten.  Every
such past leaves it truthful, so a call is answered as if it were the first one.  What the answers
are is said without the cache: the primes below a bound, their products, and the decomposition into
two squares with the largest root.

* `PrimeCache.Call`, `SquareCache.Call` — the calls that change a cache.
* `PrimeCache.Truthful.after`, `SquareCache.Truthful.after` — a cache stays truthful.
* **`prod_primesBelow`** — a product over the list of primes is one over a set of them.
* **`PrimeCache.primes_after_calls`** — primes and products, after any calls.
* **`SquareCache.squares_after_calls`** — decompositions and refusals, after any calls; a refusal
  needs a text, so its numbers have to be within the limit on numerals.
-/

namespace HiddenOrder

/-! ## Products of primes -/

lemma foldl_mul_eq_prod {ps : List ℕ} (h : ps.Nodup) :
    ps.foldl (fun (n : ℤ) (p : ℕ) => n * p) 1 = ∏ p ∈ ps.toFinset, (p : ℤ) := by
  rw [List.prod_toFinset _ h, List.prod_eq_foldl, List.foldl_map]

/-- **The product over some of the primes below a bound**, whichever of them are chosen. -/
theorem prod_primesBelow (bound : ℤ) (chosen : ℕ → Bool) :
    ((primesBelow bound).filter chosen).foldl (fun (n : ℤ) (p : ℕ) => n * p) 1
      = ∏ p ∈ Finset.range bound.toNat with p.Prime ∧ chosen p = true, (p : ℤ) := by
  have hnodup : (primesBelow bound).Nodup := (pairwise_primesBelow bound).imp fun h => h.ne
  rw [foldl_mul_eq_prod (hnodup.filter chosen)]
  congr 1
  ext p
  rw [List.mem_toFinset, List.mem_filter, mem_primesBelow, Finset.mem_filter, Finset.mem_range,
    and_assoc]
  refine and_congr_left fun _ => ?_
  omega

lemma productBelow_all (bound : ℤ) :
    productBelow (bound, false) = ∏ p ∈ Finset.range bound.toNat with p.Prime, (p : ℤ) := by
  rw [productBelow, prod_primesBelow]
  simp

/-- Two is the only prime that is not odd. -/
lemma productBelow_odd (bound : ℤ) :
    productBelow (bound, true)
      = ∏ p ∈ Finset.range bound.toNat with p.Prime ∧ Odd p, (p : ℤ) := by
  rw [productBelow, prod_primesBelow]
  congr 1
  refine Finset.filter_congr fun p _ => and_congr_right fun hp => ?_
  rw [Bool.true_and, Bool.not_eq_true', beq_eq_false_iff_ne]
  refine ⟨hp.odd_of_ne_two, ?_⟩
  rintro hodd rfl
  exact absurd hodd (by decide)

/-! ## Calls of the prime cache -/

namespace PrimeCache

/-- What the prime cache can be asked to do. -/
inductive Call where
  /-- The primes below a bound. -/
  | primesBelow (bound : ℤ)
  /-- The product of the primes below a bound, or of the odd ones. -/
  | product (bound : ℤ) (oddOnly : Bool)
  /-- The products are forgotten. -/
  | clear

/-- The cache after a call. -/
def step (c : PrimeCache) : Call → PrimeCache
  | .primesBelow bound => (c.primesBelow bound).2
  | .product bound oddOnly => (c.product bound oddOnly).2
  | .clear => c.clear

/-- The cache after some calls. -/
def after (c : PrimeCache) (calls : List Call) : PrimeCache := calls.foldl step c

variable {c : PrimeCache}

lemma Truthful.step (h : c.Truthful) (call : Call) : (c.step call).Truthful := by
  cases call with
  | primesBelow bound => exact (h.primesBelow bound).2
  | product bound oddOnly => exact (h.product bound oddOnly).2
  | clear => exact h.clear

lemma Truthful.after (h : c.Truthful) (calls : List Call) : (c.after calls).Truthful :=
  List.foldlRecOn calls _ h fun _ hc call _ => hc.step call

/-- **Primes and products** do not depend on what the cache was asked before, nor on the bound that
it was made with. -/
theorem primes_after_calls (limit : ℤ) (calls : List Call) (bound : ℤ) :
    (((ofLimit limit).after calls).primesBelow bound).1 = HiddenOrder.primesBelow bound ∧
      (((ofLimit limit).after calls).product bound false).1
        = ∏ p ∈ Finset.range (max bound 8).toNat with p.Prime, (p : ℤ) ∧
      (((ofLimit limit).after calls).product bound true).1
        = ∏ p ∈ Finset.range bound.toNat with p.Prime ∧ Odd p, (p : ℤ) := by
  have h := (truthful_ofLimit limit).after calls
  refine ⟨(h.primesBelow bound).1, ?_, ?_⟩
  · rw [(h.product bound false).1]
    exact productBelow_all (max bound 8)
  · rw [(h.product bound true).1]
    exact productBelow_odd bound

end PrimeCache

/-! ## Calls of the cache of squares -/

namespace SquareCache

/-- What the cache of squares can be asked to do. -/
inductive Call where
  /-- The decomposition of a number. -/
  | twoSquares (m : ℤ)
  /-- The decompositions are forgotten. -/
  | clear

/-- The cache after a call, be it answered or refused. -/
def step [DigitLimit] (c : SquareCache) : Call → SquareCache
  | .twoSquares m => (c.twoSquares m).2
  | .clear => c.clear

/-- The cache after some calls. -/
def after [DigitLimit] (c : SquareCache) (calls : List Call) : SquareCache := calls.foldl step c

variable {c : SquareCache} {limit m : ℤ}

lemma Truthful.step [DigitLimit] (h : c.Truthful limit) (call : Call) :
    (c.step call).Truthful limit := by
  cases call with
  | twoSquares m => exact (h.twoSquares m).2
  | clear => exact h.clear

lemma Truthful.after [DigitLimit] (h : c.Truthful limit) (calls : List Call) :
    (c.after calls).Truthful limit :=
  List.foldlRecOn calls _ h fun _ hc call _ => hc.step call

/-- A refusal leaves the cache as it is. -/
lemma twoSquares_of_outside [DigitLimit] (h : m < 0 ∨ c.limit < m) :
    c.twoSquares m = (.error (refuse (.squareRange m c.limit)), c) := by
  rw [twoSquares, if_pos h]

/-- **Decompositions** do not depend on what the cache was asked before.  A number in its range has
an answer: the decomposition with the largest root, or nothing when there is none.  Another number
is refused, or is too long for the text of the refusal, and the cache stays as it is. -/
theorem squares_after_calls [DigitLimit] (limit : ℤ) (calls : List Call) (m : ℤ) :
    (0 ≤ m ∧ m ≤ limit → ∃ answer, (((ofLimit limit).after calls).twoSquares m).1 = .ok answer ∧
      (answer = none ↔ ¬∃ x y : ℤ, x * x + y * y = m) ∧
      ∀ a b, answer = some (a, b) → LargestRoots m a b) ∧
    (m < 0 ∨ limit < m → ((ofLimit limit).after calls).twoSquares m
      = (.error (if Writable m ∧ Writable limit then .precondition (.squareRange m limit)
          else .fault .longNumeral), (ofLimit limit).after calls)) ∧
    ∀ others, (((ofLimit limit).after others).twoSquares m).1
      = (((ofLimit limit).after calls).twoSquares m).1 := by
  have h (calls : List Call) := (truthful_ofLimit limit).after calls
  refine ⟨fun hm => ⟨twoSquareRoots m.toNat (sqrt m.toNat), ?_, ?_, ?_⟩, fun hm => ?_,
    fun others => ?_⟩
  · rw [((h calls).twoSquares m).1, if_neg (by omega)]
  · exact twoSquareRoots_eq_none_iff hm.1
  · exact fun a b => largestRoots_of_twoSquareRoots hm.1
  · have hlimit := (h calls).limit_eq
    rw [twoSquares_of_outside (hlimit.symm ▸ hm), hlimit, refuse_of_two rfl]
  · rw [((h others).twoSquares m).1, ((h calls).twoSquares m).1]

open Unlimited in
/-- Fifty is seven squared and one squared, besides being twice five squared; three is no sum of two
squares, and that is remembered as well. -/
theorem squares_after_calls_fifty :
    ((0 : ℤ) ≤ 50 ∧ (50 : ℤ) ≤ 100 ∧ (100 : ℤ) < 101) ∧
    LargestRoots 50 7 1 ∧
    (((ofLimit 100).after [.twoSquares 3, .twoSquares 50, .clear, .twoSquares 3]).twoSquares 50).1
      = .ok (some (7, 1)) ∧
    (((ofLimit 100).after [.twoSquares 3, .twoSquares 101]).twoSquares 3).1 = .ok none ∧
    ((ofLimit 100).after [.twoSquares 3]).twoSquares 101
      = (.error (.precondition (.squareRange 101 100)), (ofLimit 100).after [.twoSquares 3]) := by
  obtain ⟨hanswer, -⟩ := squares_after_calls 100
    [.twoSquares 3, .twoSquares 50, .clear, .twoSquares 3] 50
  have hrun : (((ofLimit 100).after
      [.twoSquares 3, .twoSquares 50, .clear, .twoSquares 3]).twoSquares 50).1
        = .ok (some (7, 1)) := toOption_eq_some.mp (by decide +kernel)
  obtain ⟨answer, hfound, -, hroots⟩ := hanswer (by decide)
  rw [hrun] at hfound
  cases hfound
  refine ⟨by decide, hroots 7 1 rfl, hrun, ?_, ?_⟩
  · exact toOption_eq_some.mp (by decide +kernel)
  · rw [(squares_after_calls 100 [.twoSquares 3] 101).2.1 (by decide),
      if_pos ⟨writable_off 101, writable_off 100⟩]

end SquareCache

end HiddenOrder
