import HiddenOrder.Number.Shift
import HiddenOrder.Transcript

/-!
# The challenges of the protocols

Each protocol says its own name first, so that no two of them share a challenge, and then its
statement and the prover's first message.

* **`Challenge.poe`**, **`Challenge.pokeStar`** — a prime for a proof of exponentiation, and for a
  proof of knowledge of an exponent.
* **`Challenge.zkpoke`** — an integer and then a prime for the zero-knowledge proof.
* **`Challenge.range`** — an integer below a power of two for the proof of non-negativity.

The transcripts they start from have names too: what binds a challenge to its inputs is said of
them.
-/

namespace HiddenOrder

namespace Challenge

variable [DigitLimit]

/-- What is said before the challenge of a proof of exponentiation. -/
def poeTranscript (base mod C x : Int) : Except Error Transcript :=
  Transcript.ofEntries [.text "PoE", .number base, .number mod, .number C, .number x]

/-- What is said before the challenge of a proof of knowledge of an exponent. -/
def pokeStarTranscript (G N C : Int) : Except Error Transcript :=
  Transcript.ofEntries [.text "PoKEStar", .number G, .number N, .number C]

/-- What is said before the challenges of the zero-knowledge proof. -/
def zkpokeTranscript (G H N u w : Int) (z Ag Au : Entry) : Except Error Transcript :=
  Transcript.ofEntries
    [.text "ZKPoKE", .number G, .number H, .number N, .number u, .number w, z, Ag, Au]

/-- The statement of a proof of non-negativity, under a bound that the security parameter sets. -/
def rangeOpening (statement : String) (G H N C securityParam : Int) : Except Error Transcript := do
  let bound ← shiftLeft 1 securityParam
  Transcript.withBound [.text statement, .number G, .number H, .number N, .number C] bound

/-- The statement followed by the first message: the commitments to the roots, and the hash. -/
def rangeMessage (opening : Transcript) (commitments : List Entry) (delta : Bytes) :
    Except Error Transcript := do
  let t ← opening.extend commitments
  t.append (.text delta.hex)

/-- The prime challenge for `base ^ x = C`. -/
def poe (o : Oracles) (base mod C x : Int) : Except Error Nat := do
  let t ← poeTranscript base mod C x
  let (l, _) ← t.challenge o true
  pure l

/-- The prime challenge for knowing an `x` with `G ^ x = C`. -/
def pokeStar (o : Oracles) (G N C : Int) : Except Error Nat := do
  let t ← pokeStarTranscript G N C
  let (l, _) ← t.challenge o true
  pure l

/-- The integer challenge and the prime challenge of the zero-knowledge proof. -/
def zkpoke (o : Oracles) (G H N u w : Int) (z Ag Au : Entry) : Except Error (Nat × Nat) := do
  let t ← zkpokeTranscript G H N u w z Ag Au
  let (c, t) ← t.challenge o false
  let (l, _) ← t.challenge o true
  pure (c, l)

/-- The integer challenge of the proof of non-negativity, once the statement has been made. -/
def rangeAfter (o : Oracles) (opening : Transcript) (commitments : List Entry) (delta : Bytes) :
    Except Error Nat := do
  let t ← rangeMessage opening commitments delta
  let (e, _) ← t.challenge o false
  pure e

/-- The integer challenge of the proof of non-negativity. -/
def range (o : Oracles) (statement : String) (G H N C : Int) (commitments : List Int)
    (delta : Bytes) (securityParam : Int) : Except Error Nat := do
  let opening ← rangeOpening statement G H N C securityParam
  rangeAfter o opening (commitments.map .number) delta

end Challenge

end HiddenOrder
