import HiddenOrder.Commitment
import HiddenOrder.Number.Shift
import HiddenOrder.Oracles
import HiddenOrder.Protocol.Received
import HiddenOrder.Protocol.Verdict
import HiddenOrder.Settings
import HiddenOrder.Transcript.Challenges

/-!
# Zero-knowledge proofs of knowledge of an exponent

The statement is that the prover knows an `x` with `u ^ x = w`, and nothing else about `x` is to be
learned.  The prover commits to `x` and to a blinding value `k`; the integer challenge `c` joins the
two, and the prime challenge `l` shortens the exponents of both equations:
`Qg ^ l · G ^ rx · H ^ rrho = Ag · z ^ c` and `Qu ^ l · u ^ rx = Au · w ^ c`.

* **`ZKPoKE.Proof`**, **`ZKPoKE.prove`**, **`ZKPoKE.verify`**.
* `ZKPoKE.Received`, **`ZKPoKE.check`** — a proof as it was received, and the verification of it.
* `ZKPoKE.blindingBound` — the bound `N · 2 ^ (2 λ - 2)` of the blinding values.
-/

namespace HiddenOrder

namespace ZKPoKE

/-- A zero-knowledge proof of knowledge of an exponent. -/
structure Proof where
  /-- The commitment to the exponent. -/
  z : Int
  /-- The commitment to the blinding value. -/
  Ag : Int
  /-- The base to the blinding value. -/
  Au : Int
  /-- The commitment to the quotients. -/
  Qg : Int
  /-- The base to the quotient. -/
  Qu : Int
  /-- The remainder of the exponent. -/
  rx : Int
  /-- The remainder of the randomness. -/
  rrho : Int
deriving DecidableEq, Repr

/-- The bound of blinding values for the security parameter `λ`; zero stands for the usual one. -/
def blindingBound (pp : GroupParameters) (securityParam : Option Int) : Except Error Int :=
  let asked := securityParam.getD 0
  let lam := if asked = 0 then Settings.standard.securityParam else asked
  shiftLeft pp.N (2 * lam - 2)

variable [DigitLimit]

/-- The commitments of the first message, for the exponent `x`, the blinding value `k`, and the
randomness of both. -/
def firstMessage (pp : GroupParameters) (u x k rhoX rhoK : Int) :
    Except Error (Int × Int × Int) := do
  let z ← commit pp x rhoX
  let Ag ← commit pp k rhoK
  let Au ← Modular.pow u k pp.N
  pure (z, Ag, Au)

/-- The answer to the challenges, for given blinding values. -/
def respond (o : Oracles) (pp : GroupParameters) (u w x k rhoX rhoK : Int) :
    Except Error Proof := do
  let (z, Ag, Au) ← firstMessage pp u x k rhoX rhoK
  let (c, l) ← Challenge.zkpoke o pp.G pp.H pp.N u w z Ag Au
  let sx := k + c * x
  let srho := rhoK + c * rhoX
  let Qg ← commit pp (sx / l) (srho / l)
  let Qu ← Modular.pow u (sx / l) pp.N
  pure ⟨z, Ag, Au, Qg, Qu, sx % l, srho % l⟩

/-- A proof of knowledge of `x` with `u ^ x = w`; false statements are refused. -/
def prove (o : Oracles) (pp : GroupParameters) (u w x : Int) (securityParam : Option Int) :
    Draw Proof := do
  let power ← Draw.ofExcept (Modular.pow u x pp.N)
  if power ≠ w % pp.N then throw (refuse .zkpokeStatement)
  else
    let B ← Draw.ofExcept (blindingBound pp securityParam)
    let k ← o.source.range (-B) B
    let rhoX ← o.source.range (-B) B
    let rhoK ← o.source.range (-B) B
    Draw.ofExcept (respond o pp u w x k rhoX rhoK)

/-- A zero-knowledge proof as it was received. -/
structure Received where
  /-- The commitment to the exponent. -/
  z : Option Datum
  /-- The commitment to the blinding value. -/
  Ag : Option Datum
  /-- The base to the blinding value. -/
  Au : Option Datum
  /-- The commitment to the quotients. -/
  Qg : Option Datum
  /-- The base to the quotient. -/
  Qu : Option Datum
  /-- The remainder of the exponent. -/
  rx : Option Datum
  /-- The remainder of the randomness. -/
  rrho : Option Datum
deriving DecidableEq, Repr

/-- A proof in its proper form, as it is received. -/
def Proof.received (proof : Proof) : Received where
  z := some (.int proof.z)
  Ag := some (.int proof.Ag)
  Au := some (.int proof.Au)
  Qg := some (.int proof.Qg)
  Qu := some (.int proof.Qu)
  rx := some (.int proof.rx)
  rrho := some (.int proof.rrho)

/-- The challenges for a received proof. -/
def challenges (o : Oracles) (pp : GroupParameters) (u w : Int) (proof : Received) :
    Except Error (Nat × Nat) := do
  let z ← present proof.z
  let Ag ← present proof.Ag
  let Au ← present proof.Au
  Challenge.zkpoke o pp.G pp.H pp.N u w z.entry Ag.entry Au.entry

/-- Whether both equations hold, for given remainders. -/
def equations (pp : GroupParameters) (u w : Int) (c l : Nat) (rx rrho : Int) (proof : Received) :
    Except Error Bool := do
  let N := pp.N
  let Qg ← presentInt proof.Qg
  let lhsG ← Modular.multiPow [Qg, pp.G, pp.H] [(l : Int), rx, rrho] N
  let z ← presentInt proof.z
  let Ag ← presentInt proof.Ag
  let zc ← Modular.pow z c N
  let rhsG ← Modular.mul Ag zc N
  let Qu ← presentInt proof.Qu
  let Qul ← Modular.pow Qu l N
  let ur ← Modular.pow u rx N
  let lhsU ← Modular.mul Qul ur N
  let Au ← presentInt proof.Au
  let wc ← Modular.pow w c N
  let rhsU ← Modular.mul Au wc N
  pure (decide (lhsG = rhsG) && decide (lhsU = rhsU))

/-- Whether a received proof is accepted. -/
def check (o : Oracles) (pp : GroupParameters) (u w : Int) (proof : Received) :
    Except Error Bool := do
  let (c, l) ← challenges o pp u w proof
  let rx ← presentInt proof.rx
  if ¬(0 ≤ rx ∧ rx < l) then pure false
  else
    let rrho ← presentInt proof.rrho
    if ¬(0 ≤ rrho ∧ rrho < l) then pure false
    else refuted (equations pp u w c l rx rrho proof)

/-- Whether a proof is accepted. -/
def verify (o : Oracles) (pp : GroupParameters) (u w : Int) (proof : Proof) :
    Except Error Bool :=
  check o pp u w proof.received

end ZKPoKE

end HiddenOrder
