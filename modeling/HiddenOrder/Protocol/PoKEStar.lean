import HiddenOrder.Number.Modular
import HiddenOrder.Protocol.Received
import HiddenOrder.Protocol.Verdict
import HiddenOrder.Transcript.Challenges

/-!
# Proofs of knowledge of an exponent

The statement is that the prover knows an `x` with `G ^ x = C` modulo `N`.  For the prime challenge
`l` the prover divides, `x = q · l + r`, and hands over `Q = G ^ q` and `r`; the verifier checks
`Q ^ l · G ^ r = C` without learning `q`, and that `r` is a remainder.

* **`PoKEStar.Proof`**, **`PoKEStar.prove`**, **`PoKEStar.verify`**.
* `PoKEStar.Received`, **`PoKEStar.check`** — a proof as it was received, and the verification of
  it.
-/

namespace HiddenOrder

namespace PoKEStar

/-- A proof of knowledge of an exponent. -/
structure Proof where
  /-- The power of the base by the quotient. -/
  Q : Int
  /-- The remainder. -/
  r : Int
deriving DecidableEq, Repr

variable [DigitLimit]

/-- A proof of knowledge of `x` with `G ^ x = C` modulo `N`; false statements are refused. -/
def prove (o : Oracles) (G N C x : Int) : Except Error Proof := do
  let power ← Modular.pow G x N
  if power ≠ C % N then throw (refuse .pokeStarStatement)
  else
    let l ← Challenge.pokeStar o G N C
    let Q ← Modular.pow G (x / l) N
    pure ⟨Q, x % l⟩

/-- A proof of knowledge of an exponent as it was received. -/
structure Received where
  /-- The power of the base by the quotient. -/
  Q : Option Datum
  /-- The remainder. -/
  r : Option Datum
deriving DecidableEq, Repr

/-- A proof in its proper form, as it is received. -/
def Proof.received (proof : Proof) : Received := ⟨some (.int proof.Q), some (.int proof.r)⟩

/-- Whether the equation `Q ^ l · G ^ r = C` holds. -/
def equation (G N C : Int) (l : Nat) (r : Int) (proof : Received) : Except Error Bool := do
  let Q ← presentInt proof.Q
  let a ← Modular.pow Q l N
  let b ← Modular.pow G r N
  let lhs ← Modular.mul a b N
  pure (decide (lhs = C % N))

/-- Whether a received proof of knowledge of an exponent is accepted. -/
def check (o : Oracles) (G N C : Int) (proof : Received) : Except Error Bool := do
  if N < 2 then pure false
  else
    let l ← Challenge.pokeStar o G N C
    let r ← presentInt proof.r
    if ¬(0 ≤ r ∧ r < l) then pure false
    else refuted (equation G N C l r proof)

/-- Whether a proof of knowledge of an exponent is accepted. -/
def verify (o : Oracles) (G N C : Int) (proof : Proof) : Except Error Bool :=
  check o G N C proof.received

end PoKEStar

end HiddenOrder
