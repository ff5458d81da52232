import HiddenOrder.Protocol.NonNegative

/-!
# Proofs that a committed value lies in an interval

That `a ≤ x ≤ b` is two statements about values that are not negative, `x - a` and `b - x`, and
commitments to both follow from the commitment `C` to `x`: `C · G ^ (-a)` has the randomness of `C`,
and `G ^ b · C ^ (-1)` its negative.

* **`Interval.commitments`** — the two commitments.
* **`Interval.Proof`**, **`Interval.prove`**, **`Interval.verify`**.
* `Interval.Received`, **`Interval.check`** — a proof as it was received, and the verification of
  it.
-/

namespace HiddenOrder

namespace Interval

/-- A proof that a committed value lies in an interval. -/
structure Proof where
  /-- The value is not below the lower end. -/
  lower : NonNegative.Proof
  /-- The value is not above the upper end. -/
  upper : NonNegative.Proof
deriving DecidableEq, Repr

variable [DigitLimit]

/-- The commitments to `x - a` and to `b - x`, from a commitment to `x`. -/
def commitments (pp : GroupParameters) (C a b : Int) : Except Error (Int × Int) := do
  let Ga ← Modular.pow pp.G (-a) pp.N
  let lower ← Modular.mul C Ga pp.N
  let Gb ← Modular.pow pp.G b pp.N
  let inv ← Modular.pow C (-1) pp.N
  let upper ← Modular.mul Gb inv pp.N
  pure (lower, upper)

/-- A proof that `a ≤ x ≤ b`, for the commitment to `x` with randomness `r`; the two parts share
their caches. -/
def prove (o : Oracles) (cfg : Settings) (pp : GroupParameters) (x r a b : Int) :
    Search Proof := do
  if ¬(a ≤ x ∧ x ≤ b) then throw (refuse (.outsideInterval x a b))
  else
    let lower ← NonNegative.prove o cfg pp (x - a) r
    let upper ← NonNegative.prove o cfg pp (b - x) (-r)
    pure ⟨lower, upper⟩

/-- A proof that a committed value lies in an interval, as it was received. -/
structure Received where
  /-- The value is not below the lower end. -/
  lower : NonNegative.Received
  /-- The value is not above the upper end. -/
  upper : NonNegative.Received
deriving DecidableEq, Repr

/-- A proof in its proper form, as it is received. -/
def Proof.received (proof : Proof) : Received := ⟨proof.lower.received, proof.upper.received⟩

/-- Something received in place of a proof that has neither part. -/
def Received.blank : Received := ⟨.blank, .blank⟩

/-- Whether a received proof that `C` commits to a value between `a` and `b` is accepted.  The upper
part is not looked at when the lower one is refused. -/
def check (o : Oracles) (cfg : Settings) (pp : GroupParameters) (C a b : Int) (proof : Received) :
    Except Error Bool :=
  if b < a then .ok false
  else
    match commitments pp C a b with
    | .error (.precondition _) => .ok false
    | .error e => .error e
    | .ok (lower, upper) => do
      let low ← NonNegative.check o cfg pp lower proof.lower
      if low then NonNegative.check o cfg pp upper proof.upper else pure false

/-- Whether a proof that `C` commits to a value between `a` and `b` is accepted. -/
def verify (o : Oracles) (cfg : Settings) (pp : GroupParameters) (C a b : Int) (proof : Proof) :
    Except Error Bool :=
  check o cfg pp C a b proof.received

end Interval

end HiddenOrder
