import HiddenOrder.Accumulator.Tree
import HiddenOrder.Group.Parameters
import HiddenOrder.Representative
import HiddenOrder.Settings

/-!
# Accumulators over elements

Elements are encoded, every membership proof is made in one go, and the accumulator falls out of
the first proof, which one more exponentiation by its own number turns into it.

* **`Batch`** — the accumulator with its representatives, proofs and base.
* **`accumulateAndProve`** — over the first generator.
* **`accumulateBlinded`** — over a random power of it.
* **`Accumulator`** — a group, an encoding and a budget, once and for all.
-/

namespace HiddenOrder

/-- An accumulator with all membership proofs. -/
structure Batch where
  /-- The accumulator. -/
  acc : Int
  /-- The numbers that stand for the elements. -/
  representatives : List Int
  /-- A proof for each of them. -/
  proofs : List Int
  /-- The base. -/
  base : Int
deriving DecidableEq, Repr

variable [DigitLimit]

/-- The accumulator over a base, from the representatives and their proofs. -/
def accumulatorOfProofs (base N : Int) (reps proofs : List Int) : Except Error Int :=
  match reps, proofs with
  | e :: _, w :: _ => Modular.pow w e N
  | _, _ => .ok base

/-- The accumulator of some elements over a base, with a proof for each. -/
def accumulateOver (o : Oracles) (elements : List Element) (encoding : Encoding) (base N : Int)
    (budget : Int) : Except Error Batch := do
  let reps ← representatives o encoding elements
  let proofs ← proveMembershipForked base N reps budget
  let acc ← accumulatorOfProofs base N reps proofs
  pure ⟨acc, reps, proofs, base⟩

/-- The budget that applies when none is asked for. -/
def budgetOr (cfg : Settings) (budget : Option Int) : Int :=
  budget.getD cfg.parallelismBudget

/-- The accumulator of some elements over the first generator, with a proof for each. -/
def accumulateAndProve (o : Oracles) (elements : List Element) (encoding : Encoding)
    (pp : GroupParameters) (budget : Option Int) : Except Error Batch :=
  accumulateOver o elements encoding pp.G pp.N (budgetOr .standard budget)

/-- A power of the first generator above one, from at most so many draws. -/
def blindedBase (o : Oracles) (pp : GroupParameters) : (steps : Nat) → Draw Int
  | 0 => throw .outOfSteps
  | steps + 1 => do
    let r ← o.source.bits ((bitLength pp.N.toNat : Int) - 1)
    let base ← Draw.ofExcept (Modular.pow pp.G r pp.N)
    if 1 < base then pure base else blindedBase o pp steps

/-- The accumulator of some elements over a random power of the first generator. -/
def accumulateBlinded (o : Oracles) (cfg : Settings) (elements : List Element)
    (encoding : Encoding) (pp : GroupParameters) (budget : Option Int) : Draw Batch := do
  let base ← blindedBase o pp o.steps
  Draw.ofExcept (accumulateOver o elements encoding base pp.N (budgetOr cfg budget))

/-- A group, an encoding and a parallelism budget. -/
structure Accumulator where
  /-- The group. -/
  parameters : GroupParameters
  /-- How elements become numbers. -/
  encoding : Encoding
  /-- How many levels of a proof tree are forked off. -/
  budget : Int

namespace Accumulator

/-- An accumulator with the given budget, or the usual one. -/
def of (pp : GroupParameters) (encoding : Encoding) (budget : Option Int) : Accumulator :=
  ⟨pp, encoding, budgetOr .standard budget⟩

/-- The number that stands for an element. -/
def encode (a : Accumulator) (o : Oracles) (element : Element) : Except Error Nat :=
  HiddenOrder.encode o a.encoding element

/-- The accumulator of some elements. -/
def accumulate (a : Accumulator) (o : Oracles) (elements : List Element) : Except Error Int := do
  let reps ← representatives o a.encoding elements
  HiddenOrder.accumulate a.parameters.G reps a.parameters.N a.budget

/-- The accumulator of some elements, with a proof for each. -/
def prove (a : Accumulator) (o : Oracles) (elements : List Element) : Except Error Batch :=
  accumulateAndProve o elements a.encoding a.parameters (some a.budget)

/-- The proof for one element, by accumulating all others. -/
def proveElement (a : Accumulator) (o : Oracles) (elements : List Element) (index : Int) :
    Except Error Int :=
  if ¬(0 ≤ index ∧ index < elements.length) then
    .error (refuse (.elementIndex index elements.length))
  else do
    let reps ← representatives o a.encoding (elements.eraseIdx index.toNat)
    HiddenOrder.accumulate a.parameters.G reps a.parameters.N 0

/-- Whether a proof for an element is accepted. -/
def verify (a : Accumulator) (o : Oracles) (acc : Int) (element : Element) (proof : Int) :
    Except Error Bool := do
  let e ← a.encode o element
  verifyMembership acc e proof a.parameters.N

end Accumulator

end HiddenOrder
