import HiddenOrder.Error.Message

/-!
# Entropy

Every random choice of the library is a *draw below a bound*, and every draw has a number.  A
source answers draw `i` below a bound with any integer, or fails; the draw is that integer reduced
to `[0, bound)`.  Making the source a function of the number of the draw makes a computation a
function of its source, and the count of draws part of its result.

* **`Entropy`** — a source.
* **`Draw`** — a computation that draws: its state is the number of draws made so far, kept on
  failure as well as on success.
* `Draw.ofExcept`, `Draw.times` — a computation without draws, and one repeated.
* **`Entropy.next`** — one draw; none when the source fails.  The count moves on either way.
* `Entropy.below`, `Entropy.range`, `Entropy.bits` — one draw, its bounds checked before it is made.
* **`Entropy.prime`** — draws until a number of exactly so many bits is prime.
-/

namespace HiddenOrder

/-- A source of entropy: its answer to draw `i` below `bound`, if it does not fail. -/
abbrev Entropy := (i : Nat) → (bound : Nat) → Option Int

/-- A computation that draws from a source; its state is the number of draws made. -/
abbrev Draw := EStateM Error Nat

namespace Draw

variable {α : Type}

/-- A result that needs no draw. -/
def ofExcept (r : Except Error α) : Draw α :=
  match r with
  | .ok a => pure a
  | .error e => throw e

/-- The results of the same computation, so many times over. -/
def times (d : Draw α) : Nat → Draw (List α)
  | 0 => pure []
  | n + 1 => do
    let a ← d
    let rest ← times d n
    pure (a :: rest)

end Draw

namespace Entropy

/-- One draw below a positive bound; none when the source fails. -/
def next (source : Entropy) (bound : Nat) : Draw (Option Nat) := fun i =>
  .ok ((source i bound).map fun t => (t % (bound : Int)).toNat) (i + 1)

/-- One draw below a bound, the failure of the source being an error of its own. -/
def take (source : Entropy) (bound : Nat) : Draw Nat := do
  match ← source.next bound with
  | some t => pure t
  | none => throw .randomnessExhausted

variable [DigitLimit]

/-- A number in `[0, bound)`. -/
def below (source : Entropy) (bound : Int) : Draw Int := do
  if bound ≤ 0 then throw (refuse (.samplingBound bound))
  let t ← source.take bound.toNat
  pure t

/-- A number in the closed interval from `low` to `high`. -/
def range (source : Entropy) (low high : Int) : Draw Int := do
  if high < low then throw (refuse (.samplingRange low high))
  let t ← source.below (high - low + 1)
  pure (low + t)

/-- A number of at most `k` bits. -/
def bits (source : Entropy) (k : Int) : Draw Int := do
  if k ≤ 0 then throw (refuse (.bitCount k))
  let t ← source.take (Nat.pow 2 k.toNat)
  pure t

/-- A prime with exactly `k` bits: a draw of `k` bits is made odd and given its highest bit, until
it is prime.  The failure of the source is a fault here, and so many draws are made at most. -/
def prime (isPrime : Nat → Bool) (source : Entropy) (k : Nat) : (steps : Nat) → Draw Nat
  | 0 => throw .outOfSteps
  | steps + 1 => do
    match ← source.next (Nat.pow 2 k) with
    | none => throw (.fault .entropySource)
    | some t =>
      let v := t ||| Nat.pow 2 (k - 1) ||| 1
      if isPrime v then pure v else prime isPrime source k steps

end Entropy

end HiddenOrder
