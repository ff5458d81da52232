import HiddenOrder.Error.Message

/-!
# Integer square roots

* **`sqrt`** — the integer part of the square root of a natural number, by Newton's iteration from
  a power of two that is not below it.  The iteration descends until it no longer improves.
* `isSquare` — whether a number is a perfect square.
* `Root.sqrt` — the root of an integer, with negative numbers refused.
-/

namespace HiddenOrder

/-- Newton's iteration for the square root of `n` from `x`, as long as it descends. -/
def newton (n x : Nat) : Nat :=
  let y := (x + n / x) / 2
  if y < x then newton n y else x
termination_by x

/-- The integer part of the square root of `n`. -/
def sqrt (n : Nat) : Nat :=
  if n = 0 then 0 else newton n (Nat.pow 2 (n.log2 / 2 + 1))

/-- Whether an integer is a perfect square. -/
def isSquare (n : Int) : Bool :=
  decide (0 ≤ n) && decide (sqrt n.toNat * sqrt n.toNat = n.toNat)

/-- The integer part of the square root of an integer that is not negative. -/
def Root.sqrt [DigitLimit] (n : Int) : Except Error Nat :=
  if n < 0 then .error (refuse (.negativeRoot n)) else .ok (HiddenOrder.sqrt n.toNat)

end HiddenOrder
