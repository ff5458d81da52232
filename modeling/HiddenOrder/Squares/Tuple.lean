import HiddenOrder.Error.Message
import HiddenOrder.Number.Jacobi

/-!
# Tuples of roots

The result of a decomposition is a tuple of roots, non-negative and in descending order, so that
equal decompositions are equal tuples.

* **`FourInt`**, **`ThreeInt`** — the tuples.  Their components may be any integers: a tuple that
  was read from a record is kept as it came.
* **`FourInt.of`**, **`ThreeInt.of`** — the tuple of the absolute values, in descending order.
* `FourInt.squareSum`, `ThreeInt.squareSum` — the sum of the squares.
* **`splitTwos`** — a positive number as a power of two times an odd number.
-/

namespace HiddenOrder

/-- A number put into its place in a descending list. -/
def insertDescending (x : Int) : List Int → List Int
  | [] => [x]
  | y :: ys => if y ≤ x then x :: y :: ys else y :: insertDescending x ys

/-- The absolute values of some integers, in descending order. -/
def absDescending (values : List Int) : List Int :=
  values.foldr (fun v sorted => insertDescending v.natAbs sorted) []

/-- Four integers. -/
structure FourInt where
  (w₁ w₂ w₃ w₄ : Int)
deriving DecidableEq, Repr

namespace FourInt

/-- The components in order. -/
def toList (w : FourInt) : List Int := [w.w₁, w.w₂, w.w₃, w.w₄]

/-- The tuple with the given components, if there are four of them. -/
def ofList : List Int → Except Error FourInt
  | [a, b, c, d] => .ok ⟨a, b, c, d⟩
  | _ => .error (.fault .valueCount)

/-- The absolute values of four integers, in descending order. -/
def of (values : List Int) : Except Error FourInt := ofList (absDescending values)

/-- The sum of the squares. -/
def squareSum (w : FourInt) : Int := w.w₁ * w.w₁ + w.w₂ * w.w₂ + w.w₃ * w.w₃ + w.w₄ * w.w₄

end FourInt

/-- Three integers. -/
structure ThreeInt where
  (w₁ w₂ w₃ : Int)
deriving DecidableEq, Repr

namespace ThreeInt

/-- The components in order. -/
def toList (w : ThreeInt) : List Int := [w.w₁, w.w₂, w.w₃]

/-- The tuple with the given components, if there are three of them. -/
def ofList : List Int → Except Error ThreeInt
  | [a, b, c] => .ok ⟨a, b, c⟩
  | _ => .error (.fault .valueCount)

/-- The absolute values of three integers, in descending order. -/
def of (values : List Int) : Except Error ThreeInt := ofList (absDescending values)

/-- The sum of the squares. -/
def squareSum (w : ThreeInt) : Int := w.w₁ * w.w₁ + w.w₂ * w.w₂ + w.w₃ * w.w₃

end ThreeInt

/-- A positive number as `2 ^ e · odd`: the pair `(e, odd)`. -/
def splitTwos [DigitLimit] (n : Int) : Except Error (Nat × Nat) :=
  if n ≤ 0 then .error (refuse (.notPositive n)) else .ok (oddPart n.toNat)

end HiddenOrder
