import HiddenOrder.Commitment
import HiddenOrder.Number.Shift
import HiddenOrder.Protocol.Received
import HiddenOrder.Squares.Four
import HiddenOrder.Transcript.Challenges

/-!
# Proofs that a committed value is not negative

A number is not negative when it is a sum of four squares.  The prover commits to the four roots,
`cᵢ = G ^ xᵢ · H ^ rᵢ`, and shows by masked responses that the roots in these commitments make up
the value in `C`: the masks `mᵢ, sᵢ, s` are committed to first, only a hash `δ` of those
commitments is published, and the verifier computes them again from the responses.

* **`NonNegative.Proof`** — the commitments, the hash, and the responses.
* **`NonNegative.prove`** — a search, because it looks for the four squares.
* **`NonNegative.verify`** — the first message computed again and hashed.
* `NonNegative.Received`, **`NonNegative.check`** — a proof as it was received, and the verification
  of it.
* `hashElements` — the digests of some group elements, one after another.
-/

namespace HiddenOrder

variable [DigitLimit]

/-- The shortest big-endian bytes of an integer, with negative integers refused. -/
def encodeInt (x : Int) : Except Error Bytes :=
  if x < 0 then .error (refuse (.negativeBytes x)) else .ok (Bytes.ofNat x.toNat)

/-- The digests of some integers, one after another. -/
def hashElements (hash : HashFunction) : List Int → Except Error Bytes
  | [] => pure []
  | x :: xs => do
    let bytes ← encodeInt x
    let rest ← hashElements hash xs
    pure ((hash bytes).bytes ++ rest)

namespace NonNegative

/-- The statement that the challenge is about. -/
def statement : String := "c = (g^x)(h^r), x is non-negative"

/-- How many bits a committed value may have for the masks to hide it. -/
def valueBits : Nat := 4096

/-- A proof that a committed value is not negative. -/
structure Proof where
  /-- The commitments to the roots. -/
  commitments : List Int
  /-- The hash of the first message. -/
  delta : Bytes
  /-- The masked roots. -/
  z : List Int
  /-- The masked randomizers of the roots. -/
  t : List Int
  /-- The masked rest of the randomness of the value. -/
  tt : Int
deriving DecidableEq, Repr

/-- The masks of the first message. -/
structure Masks where
  /-- The masks of the roots. -/
  m : List Int
  /-- The masks of their randomizers. -/
  s : List Int
  /-- The mask of the remaining randomness. -/
  rest : Int

/-- Fresh masks for the security parameter `κ`, each bound being made when it is needed. -/
def drawMasks (o : Oracles) (N kappa : Int) (mBound : Int) : Draw Masks := do
  let m ← Draw.times (o.source.range 0 mBound) 4
  let sBound ← Draw.ofExcept (shiftLeft N (2 * kappa))
  let s ← Draw.times (o.source.range 0 sBound) 4
  let rest ← o.source.range 0 (mBound * N)
  pure ⟨m, s, rest⟩

/-- The hash of the first message. -/
def firstMessage (o : Oracles) (pp : GroupParameters) (cs : List Int) (masks : Masks) :
    Except Error Bytes := do
  let ds ← commitAll pp (masks.m.zip masks.s)
  let product ← Modular.multiPow cs masks.m pp.N
  let blind ← Modular.pow pp.H masks.rest pp.N
  let d ← Modular.mul product blind pp.N
  hashElements o.hash (ds ++ [d])

/-- The response `e · value + mask` to the challenge `e`. -/
def mask (e : Nat) (values masks : List Int) : List Int :=
  List.zipWith (fun value mask => e * value + mask) values masks

/-- The sum of the products of two rows, as far as both go. -/
def sumOfProducts : List Int → List Int → Int
  | a :: as, b :: bs => a * b + sumOfProducts as bs
  | _, _ => 0

/-- The proof for given roots, randomizers and masks. -/
def respond (o : Oracles) (pp : GroupParameters) (kappa C r : Int)
    (roots rs cs : List Int) (masks : Masks) : Except Error Proof := do
  let delta ← firstMessage o pp cs masks
  let e ← Challenge.range o statement pp.G pp.H pp.N C cs delta kappa
  let used := sumOfProducts roots rs
  pure {
    commitments := cs
    delta
    z := mask e roots masks.m
    t := mask e rs masks.s
    tt := e * (r - used) + masks.rest }

/-- A proof that `x` is not negative, for the commitment to `x` with randomness `r`. -/
def prove (o : Oracles) (cfg : Settings) (pp : GroupParameters) (x r : Int) : Search Proof := do
  if x < 0 then throw (refuse (.negativeValue x))
  else if valueBits < bitLength x.toNat then throw (refuse (.valueBits valueBits))
  else
    let kappa := cfg.securityParam
    let C ← Search.ofExcept (commit pp x r)
    let w ← lagrange o cfg x
    let rs ← Search.draw (Draw.times (o.source.range 0 pp.N) 4)
    let cs ← Search.ofExcept (commitRoots pp w.toList rs)
    let mBound ← Search.ofExcept (shiftLeft 1 (valueBits / 2 + 2 * kappa))
    let masks ← Search.draw (drawMasks o pp.N kappa mBound)
    Search.ofExcept (respond o pp kappa C r w.toList rs cs masks)

/-- A proof that a committed value is not negative, as it was received. -/
structure Received where
  /-- The commitments to the roots. -/
  commitments : Option Sequence
  /-- The hash of the first message; absent when it is no byte string either. -/
  delta : Option Bytes
  /-- The masked roots. -/
  z : Option Sequence
  /-- The masked randomizers of the roots. -/
  t : Option Sequence
  /-- The masked rest of the randomness of the value. -/
  tt : Option Datum
deriving DecidableEq, Repr

/-- A proof in its proper form, as it is received. -/
def Proof.received (proof : Proof) : Received where
  commitments := some (.ofInts proof.commitments)
  delta := some proof.delta
  z := some (.ofInts proof.z)
  t := some (.ofInts proof.t)
  tt := some (.int proof.tt)

/-- Something received in place of a proof that has none of its fields. -/
def Received.blank : Received := ⟨none, none, none, none, none⟩

/-- The commitment of the first message that belongs to one root, computed from the responses. -/
def recoverRoot (pp : GroupParameters) (e : Nat) (c z t : Datum) : Except Error Int := do
  let z ← z.get
  let t ← t.get
  let c ← c.get
  Modular.multiPow [pp.G, pp.H, c] [z, t, -e] pp.N

/-- The commitments that belong to the roots. -/
def recoverRoots (pp : GroupParameters) (e : Nat) :
    List (Datum × Datum × Datum) → Except Error (List Int)
  | [] => pure []
  | (c, z, t) :: rest => do
    let d ← recoverRoot pp e c z t
    let ds ← recoverRoots pp e rest
    pure (d :: ds)

/-- The commitment that belongs to the value itself. -/
def recoverValue (pp : GroupParameters) (C : Int) (e : Nat) (cs zs : List Datum)
    (tt : Option Datum) : Except Error Int := do
  let cs ← Datum.getAll cs
  let zs ← Datum.getAll zs
  let product ← Modular.multiPow cs zs pp.N
  let tt ← presentInt tt
  let blind ← Modular.multiPow [pp.H, C] [tt, -e] pp.N
  Modular.mul product blind pp.N

/-- The first message, computed again from the responses. -/
def recover (pp : GroupParameters) (C : Int) (e : Nat) (cs zs ts : List Datum)
    (tt : Option Datum) : Except Error (List Int) := do
  let ds ← recoverRoots pp e (cs.zip (zs.zip ts))
  let d ← recoverValue pp C e cs zs tt
  pure (ds ++ [d])

/-- Whether the first message, computed again, has the hash `delta`.  An element that is refused on
the way refutes the proof; the hash of what was computed is taken outside of that. -/
def verdict (o : Oracles) (pp : GroupParameters) (C : Int) (e : Nat) (cs zs ts : List Datum)
    (tt : Option Datum) (delta : Bytes) : Except Error Bool :=
  match recover pp C e cs zs ts tt with
  | .error (.precondition _) => .ok false
  | .error failure => .error failure
  | .ok elements => do
    let again ← hashElements o.hash elements
    pure (decide (again = delta))

/-- Whether received rows of the right length, with the rest of a received proof, are accepted. -/
def checkRows (o : Oracles) (cfg : Settings) (pp : GroupParameters) (C : Int)
    (cs zs ts : List Datum) (tt : Option Datum) (delta : Option Bytes) : Except Error Bool := do
  let opening ← Challenge.rangeOpening statement pp.G pp.H pp.N C cfg.securityParam
  let delta ← present delta
  let e ← Challenge.rangeAfter o opening (cs.map Datum.entry) delta
  verdict o pp C e cs zs ts tt delta

/-- Whether a received proof that `C` commits to a value that is not negative is accepted.  A row of
another length than four refutes it. -/
def check (o : Oracles) (cfg : Settings) (pp : GroupParameters) (C : Int) (proof : Received) :
    Except Error Bool := do
  let cs ← presentRow proof.commitments
  if cs.length ≠ 4 then pure false
  else
    let zs ← presentRow proof.z
    if zs.length ≠ 4 then pure false
    else
      let ts ← presentRow proof.t
      if ts.length ≠ 4 then pure false
      else checkRows o cfg pp C cs zs ts proof.tt proof.delta

/-- Whether a proof that `C` commits to a value that is not negative is accepted. -/
def verify (o : Oracles) (cfg : Settings) (pp : GroupParameters) (C : Int) (proof : Proof) :
    Except Error Bool :=
  check o cfg pp C proof.received

end NonNegative

end HiddenOrder
