import HiddenOrder.Oracles
import HiddenOrder.Text

/-!
# Representatives

An accumulator does not hold elements but numbers that stand for them.  Membership of one element
must not follow from that of others, so the numbers are primes, or numbers so large that none of
them divides a product of others.

* **`Element`** — a text or a byte string; anything else is refused.
* **`Encoding`** — the two ways from elements to numbers.
* **`hashToPrime`** — the first prime on the digest chain that starts with the element.
* **`diHash`** — a fixed odd number of 2048 bits plus the digest of the element.
* **`representatives`** — the numbers of a list of elements, in order.
-/

namespace HiddenOrder

/-- Something to be accumulated. -/
inductive Element where
  /-- A text, which stands for its UTF-8 form. -/
  | text (t : Text)
  /-- A byte string. -/
  | bytes (b : Bytes)
  /-- Anything else. -/
  | other (value : Json)

/-- How elements become numbers. -/
inductive Encoding where
  /-- By the first prime on a digest chain. -/
  | hashToPrime
  /-- By a digest and a large offset. -/
  | diHash
  /-- An encoding that does not exist. -/
  | unknown (tag : Int)
deriving DecidableEq, Repr

/-- The encoding with a given tag. -/
def Encoding.ofTag (tag : Int) : Encoding :=
  if tag = 0 then .hashToPrime else if tag = 1 then .diHash else .unknown tag

variable [DigitLimit]

/-- The bytes of an element. -/
def Element.toBytes : Element → Except Error Bytes
  | .text t =>
    match t.toString? with
    | some s => .ok (Bytes.utf8 s)
    | none => .error (.fault .unencodable)
  | .bytes b => .ok b
  | .other value => .error (refuse (.elementKind value))

/-- The offset of the division-intractable hash. -/
def diOffset : Nat :=
  30731438344250145947882657666206403727243332864808664054575262055190442942812700108124167942976653745028212341196692947492080562974589240558404052155436479139607283861572110186639866316589725954212169900473106847592072353357762907262662369230376196184226071545259316873351199416881666739376881925207433619609913435128355340248285568061176332195286623104126482371089555666194830543043595601648501184952472930075767818065617175977748228906417030406830990961578747315754348300610520710090878042950122953510395835606916522592211024941845938097013497415239566963754154588561352876059012472806373183052035005766579987123343

/-- The digest of a byte string as a number. -/
def hashToNat (hash : HashFunction) (b : Bytes) : Nat := (hash b).toNat

/-- The first prime among the digest of a byte string, the digest of that, and so on. -/
def hashToPrime (o : Oracles) (b : Bytes) : Except Error Nat :=
  Digest.search o.hash Digest.toNat (fun n => o.isPrime.int n) o.steps (o.hash b)

/-- The offset plus the digest of a byte string. -/
def diHash (hash : HashFunction) (b : Bytes) : Nat := diOffset + hashToNat hash b

/-- The number that stands for an element. -/
def encode (o : Oracles) (encoding : Encoding) (element : Element) : Except Error Nat :=
  match encoding with
  | .hashToPrime => do
    let b ← element.toBytes
    hashToPrime o b
  | .diHash => do
    let b ← element.toBytes
    pure (diHash o.hash b)
  | .unknown tag => .error (refuse (.encoding tag))

/-- The numbers that stand for some elements, in order. -/
def representatives (o : Oracles) (encoding : Encoding) : List Element → Except Error (List Int)
  | [] => pure []
  | e :: es => do
    let n ← encode o encoding e
    let ns ← representatives o encoding es
    pure ((n : Int) :: ns)

end HiddenOrder
