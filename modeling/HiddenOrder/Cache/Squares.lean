import HiddenOrder.Cache.Memo
import HiddenOrder.Number.Root

/-!
# The cache of sums of two squares

Which small numbers are sums of two squares is found by trying, and remembered.

* **`twoSquareRoots`** — the decomposition `m = a² + b²` with the largest `a`, by descending from
  the square root of `m` as long as `a² ≥ m / 2`; none when there is none.
* **`SquareCache`** — a limit, and the answers found so far.
* **`SquareCache.twoSquares`** — the decomposition of a number between zero and the limit.
-/

namespace HiddenOrder

/-- The first decomposition of `m` whose larger root is `a` or less, and not below the smaller. -/
def twoSquareRoots (m : Nat) : (a : Nat) → Option (Nat × Nat)
  | 0 => if m = 0 then some (0, 0) else none
  | a + 1 =>
    let rest := m - (a + 1) * (a + 1)
    if 2 * ((a + 1) * (a + 1)) < m then none
    else if isSquare rest then some (a + 1, sqrt rest)
    else twoSquareRoots m a

/-- Remembered decompositions of the numbers up to a limit. -/
structure SquareCache where
  /-- The largest number the cache answers for. -/
  limit : Int
  /-- The answers so far. -/
  answers : Memo Nat (Option (Nat × Nat))

namespace SquareCache

/-- A cache with nothing in it. -/
def ofLimit (limit : Int) : SquareCache := ⟨limit, .empty⟩

/-- The roots `a ≥ b ≥ 0` of `m = a² + b²`, if there are any; a number outside the range of the
cache is refused. -/
def twoSquares [DigitLimit] (c : SquareCache) (m : Int) :
    Except Error (Option (Nat × Nat)) × SquareCache :=
  if m < 0 ∨ c.limit < m then (.error (refuse (.squareRange m c.limit)), c)
  else
    match c.answers.find? m.toNat with
    | some answer => (.ok answer, c)
    | none =>
      let answer := twoSquareRoots m.toNat (sqrt m.toNat)
      (.ok answer, { c with answers := c.answers.insert m.toNat answer })

/-- The cache with its answers forgotten. -/
def clear (c : SquareCache) : SquareCache := { c with answers := .empty }

end SquareCache

end HiddenOrder
