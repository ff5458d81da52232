import HiddenOrder.Number.Modular
import HiddenOrder.Protocol.Received
import HiddenOrder.Transcript.Challenges

/-!
# Proofs of exponentiation

The statement is `base ^ x = C` modulo `mod`, and `x` is public but far too long to be redone.  The
challenge is a prime `l`; the prover hands over `Q = base ^ (x / l)`, and the verifier needs two
short powers only: `Q ^ l · base ^ (x mod l) = C`.

* **`PoE.Proof`**, **`PoE.prove`**, **`PoE.verify`**.
* `PoE.Received`, **`PoE.check`** — a proof as it was received, and the verification of it.
-/

namespace HiddenOrder

namespace PoE

/-- A proof of exponentiation. -/
structure Proof where
  /-- The power of the base by the quotient. -/
  Q : Int
deriving DecidableEq, Repr

variable [DigitLimit]

/-- A proof of `base ^ x = C` modulo `mod`; false statements are refused. -/
def prove (o : Oracles) (base mod C x : Int) : Except Error Proof := do
  if x < 0 then throw (refuse (.poeExponent x))
  else
    let power ← Modular.pow base x mod
    if power ≠ C % mod then throw (refuse .poeStatement)
    else
      let l ← Challenge.poe o base mod C x
      let Q ← Modular.pow base (x / l) mod
      pure ⟨Q⟩

/-- A proof of exponentiation as it was received. -/
structure Received where
  /-- The power of the base by the quotient. -/
  Q : Option Datum
deriving DecidableEq, Repr

/-- A proof in its proper form, as it is received. -/
def Proof.received (proof : Proof) : Received := ⟨some (.int proof.Q)⟩

/-- Whether a received proof of `base ^ x = C` modulo `mod` is accepted. -/
def check (o : Oracles) (base mod C x : Int) (proof : Received) : Except Error Bool := do
  if x < 0 ∨ mod < 2 then pure false
  else
    let l ← Challenge.poe o base mod C x
    let Q ← presentInt proof.Q
    let a ← Modular.pow Q l mod
    let b ← Modular.pow base (x % l) mod
    let lhs ← Modular.mul a b mod
    pure (decide (lhs = C % mod))

/-- Whether a proof of `base ^ x = C` modulo `mod` is accepted. -/
def verify (o : Oracles) (base mod C x : Int) (proof : Proof) : Except Error Bool :=
  check o base mod C x proof.received

end PoE

end HiddenOrder
