import HiddenOrder.Cache.Memo
import HiddenOrder.Number.Product
import HiddenOrder.Number.Sieve

/-!
# The prime cache

The four-square searches multiply the primes below the number of bits of their input, for inputs of
every size.  The cache keeps one sieved list, which it lengthens on demand, and the products it has
already made.

* **`PrimeCache`** — the sieved list with its bound, and the products.
* **`PrimeCache.primesBelow`** — the primes below a bound; a bound beyond the list makes a new list
  of at least twice the old bound.
* **`PrimeCache.product`** — the product of the primes below a bound, at least `2 · 3 · 5 · 7`, or
  of the odd primes below it.
-/

namespace HiddenOrder

/-- Sieved primes, and the products made of them. -/
structure PrimeCache where
  /-- The bound of the list. -/
  limit : Int
  /-- The primes below the bound. -/
  primes : List Nat
  /-- Products by bound, and by whether the prime two was left out. -/
  products : Memo (Int × Bool) Int

namespace PrimeCache

/-- A cache that has sieved up to a bound and multiplied nothing. -/
def ofLimit (limit : Int) : PrimeCache := ⟨limit, HiddenOrder.primesBelow limit, .empty⟩

/-- The cache with its list reaching up to a bound. -/
def reach (c : PrimeCache) (bound : Int) : PrimeCache :=
  if c.limit < bound then
    let limit := max bound (2 * c.limit)
    { c with limit, primes := HiddenOrder.primesBelow limit }
  else c

/-- The primes below a bound. -/
def primesBelow (c : PrimeCache) (bound : Int) : List Nat × PrimeCache :=
  let c := c.reach bound
  (c.primes.filter fun p => decide ((p : Int) < bound), c)

/-- The product of the primes below a bound.  With the prime two it is never less than that of the
primes below eight; without it no minimum applies. -/
def product (c : PrimeCache) (bound : Int) (oddOnly : Bool) : Int × PrimeCache :=
  let bound := if oddOnly then bound else max bound 8
  match c.products.find? (bound, oddOnly) with
  | some answer => (answer, c)
  | none =>
    let (primes, c) := c.primesBelow bound
    let factors := primes.filter fun p => !(oddOnly && p == 2)
    let answer := factors.foldl (fun (n : Int) (p : Nat) => n * p) 1
    (answer, { c with products := c.products.insert (bound, oddOnly) answer })

/-- The cache with its products forgotten; the list stays. -/
def clear (c : PrimeCache) : PrimeCache := { c with products := .empty }

end PrimeCache

end HiddenOrder
