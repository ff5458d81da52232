import HiddenOrder.Number.Modular
import HiddenOrder.Number.Product

/-!
# Accumulators

A set of positive numbers is accumulated into one group element, the base to the power of their
product.  A proof that a number is among them is the base to the power of the product of the
others: raised to the number itself, it gives the accumulator.

* **`accumulate`** — the accumulator, by a product tree and one exponentiation.
* **`accumulateStepwise`** — the same by one exponentiation for each number.
* **`proveNaive`** — a proof for each number, by the product of all others.
* **`verifyMembership`** — whether a proof is accepted.
* `validate` — the conditions under which there is something to accumulate.

The proofs for all numbers at once are the subject of `HiddenOrder.Accumulator.Tree`.
-/

namespace HiddenOrder

variable [DigitLimit]

/-- Representatives that are not positive are refused, the first of them being reported. -/
def checkRepresentatives : (index : Nat) → List Int → Except Error Unit
  | _, [] => .ok ()
  | i, e :: es =>
    if e ≤ 0 then .error (refuse (.representative i e)) else checkRepresentatives (i + 1) es

/-- A modulus of at least two, a base between zero and the modulus, and positive representatives. -/
def validate (base N : Int) (reps : List Int) : Except Error Unit :=
  if N < 2 then .error (refuse (.modulus N))
  else if ¬(0 < base ∧ base < N) then .error (refuse (.accumulatorBase base))
  else checkRepresentatives 0 reps

/-- The base to the power of the product of some numbers.  For a budget above zero the product is
made of `2 ^ budget` independent parts. -/
def accumulate (base : Int) (reps : List Int) (N budget : Int) : Except Error Int := do
  validate base N reps
  checkBudget budget
  let exponent ← if budget ≠ 0 then splitProduct reps budget else pure (treeProduct reps)
  Modular.pow base exponent N

/-- One exponentiation after another. -/
def raiseAll (N : Int) : Int → List Int → Except Error Int
  | acc, [] => pure acc
  | acc, e :: es => do
    let acc ← Modular.pow acc e N
    raiseAll N acc es

/-- The accumulator by one exponentiation for each number. -/
def accumulateStepwise (base : Int) (reps : List Int) (N : Int) : Except Error Int := do
  validate base N reps
  raiseAll N base reps

/-- The base to the power of the product of all numbers but those at the given positions. -/
def proveAt (base N : Int) (reps : List Int) : List Nat → Except Error (List Int)
  | [] => pure []
  | i :: rest => do
    let w ← Modular.pow base (treeProduct (reps.eraseIdx i)) N
    let ws ← proveAt base N reps rest
    pure (w :: ws)

/-- A proof for each number, by the product of all others. -/
def proveNaive (base N : Int) (reps : List Int) : Except Error (List Int) := do
  validate base N reps
  proveAt base N reps (List.range reps.length)

/-- Whether a proof that `e` is in the accumulator `acc` is accepted: raised to `e` it gives `acc`,
and it is a number between zero and `N`. -/
def verifyMembership (acc e proof N : Int) : Except Error Bool :=
  if N < 2 ∨ e ≤ 0 ∨ ¬(0 < proof ∧ proof < N) then .ok false
  else do
    let power ← Modular.pow proof e N
    pure (decide (power = acc))

end HiddenOrder
