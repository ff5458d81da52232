import HiddenOrder.Cache
import HiddenOrder.Oracles

/-!
# Searches

A search draws and remembers.  Its state is the number of draws made and the caches it works with,
and both survive its failure: the next search goes on with the same caches, and a failed search
has still used up its draws.

* **`SearchState`**, **`Search`** — the state and the computation.
* `Search.draw` — a computation that only draws, as a search.
* `Search.primes`, `Search.squares`, `Search.gaussians`, `Search.quaternions` — a use of one part
  of the caches.
-/

namespace HiddenOrder

/-- The draws made so far, and the caches. -/
structure SearchState where
  /-- How many draws have been made. -/
  draws : Nat
  /-- What is remembered. -/
  cache : SearchCache

/-- A computation that draws and remembers. -/
abbrev Search := EStateM Error SearchState

namespace Search

variable {α : Type}

/-- A computation that only draws. -/
def draw (d : Draw α) : Search α := fun s =>
  match d s.draws with
  | .ok a n => .ok a { s with draws := n }
  | .error e n => .error e { s with draws := n }

/-- A result that needs neither draws nor caches. -/
def ofExcept (r : Except Error α) : Search α :=
  match r with
  | .ok a => pure a
  | .error e => throw e

/-- A use of the prime cache. -/
def primes (use : PrimeCache → α × PrimeCache) : Search α := fun s =>
  let (a, c) := use s.cache.primes
  .ok a { s with cache := { s.cache with primes := c } }

/-- A use of the cache of sums of two squares. -/
def squares (use : SquareCache → Except Error α × SquareCache) : Search α := fun s =>
  let (r, c) := use s.cache.squares
  let s := { s with cache := { s.cache with squares := c } }
  match r with
  | .ok a => .ok a s
  | .error e => .error e s

/-- A use of the pool of Gaussian integers. -/
def gaussians (use : ScratchPool Gaussian → α × ScratchPool Gaussian) : Search α := fun s =>
  let (a, p) := use s.cache.gaussians
  .ok a { s with cache := { s.cache with gaussians := p } }

/-- A use of the pool of quaternions. -/
def quaternions (use : ScratchPool Hurwitz → α × ScratchPool Hurwitz) : Search α := fun s =>
  let (a, p) := use s.cache.quaternions
  .ok a { s with cache := { s.cache with quaternions := p } }

end Search

end HiddenOrder
