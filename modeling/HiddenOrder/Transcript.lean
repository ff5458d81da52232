import HiddenOrder.Error.Message
import HiddenOrder.Oracles

/-!
# Fiat–Shamir transcripts

A proof is made non-interactive by taking the verifier's challenges from a hash of everything said
so far.  A transcript is the list of what was said, as texts; its challenge is the digest of the
texts written one after another, reduced below a bound and written down in turn.

* **`Entry`**, **`Transcript`** — a text or a number, and a list of texts with a bound of at least
  two.  A number that is too long to be written cannot be said.
* **`Transcript.message`** — the bytes that are hashed.
* **`Transcript.challenge`** — the first acceptable value of the digest chain that starts there:
  a value is acceptable when it is prime, if a prime was asked for, and differs from the last
  entry, so that no challenge is given twice in a row.
* `Transcript.append`, `Transcript.extend`, `Transcript.reset` — what is said in between.
* `Transcript.dump` — the transcript as a text for people.
-/

namespace HiddenOrder

/-- Something said: a text, or a number that stands for its decimal text. -/
inductive Entry where
  /-- A text. -/
  | text (s : String)
  /-- A number. -/
  | number (n : Int)
  /-- The text of some other value, still to be written. -/
  | shown (w : Wording)
deriving DecidableEq, Repr

instance : Coe Int Entry := ⟨.number⟩

variable [DigitLimit]

namespace Entry

/-- The text of an entry. -/
def toText : Entry → Except Error String
  | .text s => .ok s
  | .number n => Decimal.write n
  | .shown w => do
    let t ← w.write
    match t.toString? with
    | some s => pure s
    | none => throw (.fault .unencodable)

/-- The texts of several entries, the first fault deciding. -/
def texts : List Entry → Except Error (List String)
  | [] => .ok []
  | e :: es => do
    let s ← e.toText
    let rest ← texts es
    pure (s :: rest)

end Entry

/-- The texts said so far, and a bound for challenges. -/
structure Transcript where
  /-- The texts, in order. -/
  entries : List String
  /-- Challenges are below this bound. -/
  bound : Nat
  /-- There are at least two challenges. -/
  two_le_bound : 2 ≤ bound
deriving DecidableEq

namespace Transcript

/-- The bound of challenges when no other is asked for. -/
def standardBound : Nat := Nat.pow 2 252

/-- A transcript with the standard bound. -/
def ofEntries (entries : List Entry) : Except Error Transcript := do
  let texts ← Entry.texts entries
  pure ⟨texts, standardBound, by decide +kernel⟩

/-- A transcript with a bound of its own; a bound below two is refused. -/
def withBound (entries : List Entry) (bound : Int) : Except Error Transcript :=
  if h : 2 ≤ bound then do
    let texts ← Entry.texts entries
    pure ⟨texts, bound.toNat, by omega⟩
  else .error (refuse (.challengeBound bound))

/-- The transcript with one more entry. -/
def append (t : Transcript) (entry : Entry) : Except Error Transcript := do
  let text ← entry.toText
  pure { t with entries := t.entries ++ [text] }

/-- The transcript with more entries. -/
def extend (t : Transcript) (entries : List Entry) : Except Error Transcript := do
  let texts ← Entry.texts entries
  pure { t with entries := t.entries ++ texts }

/-- A new list of entries under the old bound. -/
def reset (t : Transcript) (entries : List Entry) : Except Error Transcript := do
  let texts ← Entry.texts entries
  pure { t with entries := texts }

/-- The number of entries. -/
def length (t : Transcript) : Nat := t.entries.length

/-- The bytes that the first digest is taken of: the texts, one after another. -/
def message (t : Transcript) : Bytes := t.entries.flatMap Bytes.utf8

/-- Whether a value may be the next challenge.  What is read off thirty-two bytes is short enough to
be written under every limit. -/
def accepts (t : Transcript) (o : Oracles) (prime : Bool) (value : Nat) : Bool :=
  (!prime || o.isPrime.int value) && t.entries.getLast? != some (toString value)

/-- The next challenge, and the transcript with it written down. -/
def challenge (t : Transcript) (o : Oracles) (prime : Bool) : Except Error (Nat × Transcript) := do
  let value ← Digest.search o.hash (fun d => d.toNat % t.bound) (t.accepts o prime) o.steps
    (o.hash t.message)
  let t ← t.append (.number value)
  pure (value, t)

/-- The transcript as a text: the number of entries, and each of them on a line. -/
def dump (t : Transcript) : String :=
  let heading := "The transcript has " ++ toString t.length ++ " strings as info."
  let lines := t.entries.zipIdx.map fun (e, i) => "Info[" ++ toString i ++ "] = " ++ e
  "\n".intercalate (heading :: lines)

end Transcript

end HiddenOrder
