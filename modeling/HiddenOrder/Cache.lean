import HiddenOrder.Cache.Primes
import HiddenOrder.Cache.ScratchPool
import HiddenOrder.Cache.Squares
import HiddenOrder.Ring.Hurwitz

/-!
# What a search may keep between trials

One bundle holds all that a search is allowed to remember: primes and their products, sums of two
squares, and scratch slots for the two rings.  It is made by the caller and handed from search to
search; there is no other store, so two bundles never have anything in common.

* **`SearchCache`** — the bundle.
* `SearchCache.ofLimits` — a new bundle.
* `SearchCache.clear` — the bundle with the remembered answers forgotten; the pools stay.
-/

namespace HiddenOrder

/-- The caches and pools of one line of searches. -/
structure SearchCache where
  /-- Primes and their products. -/
  primes : PrimeCache
  /-- Sums of two squares. -/
  squares : SquareCache
  /-- Scratch slots for Gaussian integers. -/
  gaussians : ScratchPool Gaussian
  /-- Scratch slots for quaternions. -/
  quaternions : ScratchPool Hurwitz

namespace SearchCache

/-- The number of slots a pool keeps when nothing else is asked for. -/
def poolSize : Int := 64

/-- A new bundle, its primes sieved up to one limit and its sums of squares kept up to another. -/
def ofLimits (primeLimit squareLimit : Int) : SearchCache where
  primes := .ofLimit primeLimit
  squares := .ofLimit squareLimit
  gaussians := .empty 0 poolSize
  quaternions := .empty 0 poolSize

/-- The bundle with the limits that serve for most inputs. -/
def standard : SearchCache := ofLimits 4096 10000

/-- The bundle with its answers forgotten. -/
def clear (c : SearchCache) : SearchCache :=
  { c with primes := c.primes.clear, squares := c.squares.clear }

end SearchCache

end HiddenOrder
