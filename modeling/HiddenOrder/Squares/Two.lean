import HiddenOrder.Search

/-!
# Two squares

A prime that is one more than a multiple of four is a sum of two squares, and this is how they are
found: a square root `s` of minus one modulo the prime `p`, and then the greatest common divisor of
`s + i` and `p` in the Gaussian integers, whose norm is `p`.

* **`sqrtMinusOne`** — the root, by drawing numbers until one of them is not a square; none after
  ten draws.
* **`primeTwoSquares`** — the Gaussian integer of norm `p`, or none.
* **`twoSquares`** — the roots of any number: looked up when it is small, by way of
  `primeTwoSquares` when it is a large prime, none otherwise.
-/

namespace HiddenOrder

/-- How many numbers are drawn in the search for one that is not a square. -/
def nonResidueTrials : Nat := 10

variable [DigitLimit]

/-- A square root of minus one modulo `p` from at most so many draws. -/
def rootFromDraws (o : Oracles) (p : Int) : (trials : Nat) → Draw (Option Int)
  | 0 => pure none
  | trials + 1 => do
    let t ← o.source.below (p - 3)
    let u := 2 + t
    let half := ((p - 1) / 2).toNat
    if powMod u half p = p - 1 then
      let s := powMod u (half / 2) p
      pure (if s * s % p = p - 1 then some s else none)
    else rootFromDraws o p trials

/-- A square root of minus one modulo a prime `p` of the class one modulo four; none when ten draws
give squares only, and none without a draw for other `p`. -/
def sqrtMinusOne (o : Oracles) (p : Int) : Draw (Option Int) :=
  if p < 5 ∨ p % 4 ≠ 1 then pure none else rootFromDraws o p nonResidueTrials

/-- The greatest common divisor of two Gaussian integers, worked out in two borrowed slots. -/
def scratchGcd (a b : Gaussian) (pool : ScratchPool Gaussian) : Gaussian × ScratchPool Gaussian :=
  pool.borrow fun x pool => pool.borrow fun y pool =>
    let pool := (pool.write x a).write y b
    (Gaussian.gcd (pool.read x) (pool.read y), pool)

/-- A Gaussian integer of norm `p`, for a prime `p` of the class one modulo four; none when no root
of minus one was found, or when the divisor has another norm. -/
def primeTwoSquares (o : Oracles) (p : Int) : Search (Option Gaussian) := do
  match ← Search.draw (sqrtMinusOne o p) with
  | none => pure none
  | some s =>
    let g ← Search.gaussians (scratchGcd ⟨s, 1⟩ ⟨p, 0⟩)
    pure (if g.norm = p then some g else none)

/-- Whether a number qualifies for `primeTwoSquares`. -/
def isPrimeOneModFour (o : Oracles) (m : Int) : Bool := decide (m % 4 = 1) && o.isPrime.int m

/-- The limit of the cache of sums of two squares. -/
def squareLimit : Search Int := fun s => .ok s.cache.squares.limit s

/-- Two numbers whose squares have the sum `m`. -/
def twoSquares (o : Oracles) (m : Int) : Search (Option (Int × Int)) := do
  let limit ← squareLimit
  if m ≤ limit then
    let found ← Search.squares (·.twoSquares m)
    pure (found.map fun (a, b) => ((a : Int), (b : Int)))
  else if isPrimeOneModFour o m then
    let found ← primeTwoSquares o m
    pure (found.map fun g => (g.re, g.im))
  else pure none

end HiddenOrder
