import HiddenOrder.Race
import HiddenOrder.Settings
import HiddenOrder.Squares.Tuple
import HiddenOrder.Squares.Two

/-!
# Three squares

A number of the class one modulo four is `x² + y² + z²` with `x` even, when it is a sum of three
squares at all with the other two making up a number that can be decomposed.  No randomness is
needed to look: `x` runs downward through the even numbers up to the square root, each worker
taking its own share, and the first `x` for which `n - x²` is a sum of two squares wins.

* **`threeSquares`** — the decomposition of a number of the class one modulo four.
* `threeSquaresOfQuadruple` — the decomposition of `4n + 1`.
-/

namespace HiddenOrder

variable [DigitLimit]

/-- The scan of one worker: `x = 2 (rt - cnt)` for `cnt`, `cnt + stride`, …, so many of them. -/
def scanEven (o : Oracles) (n : Int) (rt stride : Nat) :
    (trials : Nat) → (cnt : Nat) → Search (Option ThreeInt)
  | 0, _ => pure none
  | trials + 1, cnt =>
    if rt < cnt then pure none
    else do
      let x : Int := 2 * (rt - cnt : Nat)
      match ← twoSquares o (n - x * x) with
      | some (a, b) =>
        let w ← Search.ofExcept (ThreeInt.of [x, a, b])
        pure (some w)
      | none => scanEven o n rt stride trials (cnt + stride)

/-- How many trials a scan from `rt` downward may make: never more than there are candidates. -/
def scanTrials (maxTrials : Option Int) (rt : Nat) : Nat :=
  match maxTrials with
  | some most => min most.toNat (rt + 1)
  | none => rt + 1

/-- Three squares with the sum `n`, for `n` of the class one modulo four. -/
def threeSquares (o : Oracles) (cfg : Settings) (n : Int) : Search ThreeInt := do
  if n ≤ 0 ∨ n % 4 ≠ 1 then throw (refuse (.threeSquares n))
  else
    let rt := sqrt n.toNat / 2
    let failure ← Search.ofExcept (exhausted (.threeSquares n))
    let w ← race (fun worker workers =>
        scanEven o n rt workers (scanTrials cfg.maxTrials rt) worker)
      cfg.workers failure
    if w.squareSum = n then pure w
    else throw (unverified (.threeSquares w.toList n))

/-- Three squares with the sum `4n + 1`. -/
def threeSquaresOfQuadruple (o : Oracles) (cfg : Settings) (n : Int) : Search ThreeInt := do
  if n < 0 then throw (refuse (.negative n))
  else threeSquares o cfg (4 * n + 1)

end HiddenOrder
