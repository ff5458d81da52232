import HiddenOrder.Json.Parser
import HiddenOrder.Record
import HiddenOrder.Text.Base64
import HiddenOrder.Text.Decimal

/-!
# Reading records

Reading goes by the shape of the JSON value: a text is an integer, an array a tuple, an object with
the key `b64` bytes, an object with the key `type` a record.  The tag of a record says which fields
it has; they are read in the order of their declaration, and further members are ignored.

* **`Value.decodeField`** — the value of a field.
* **`Value.deserialize`** — the record of a JSON object.
* **`Value.ofJsonText`** — the record of a JSON text.
* `decodeInt`, `decodeInts` — an integer of a text, and the integers of an array of texts.

All members of an object are decoded, each to a value or a failure of its own, before the fields
are picked: what happens to a member that is not picked has no influence.
-/

namespace HiddenOrder

variable [DigitLimit]

/-- The integer that a JSON value spells; only texts do. -/
def decodeInt (j : Json) : Except Error Int :=
  let refused : Except Error Int := .error (refuse (.decimal j))
  match j with
  | .str t =>
    match Decimal.read t with
    | some n => .ok n
    | none => refused
  | _ => refused

/-- The integers that several JSON values spell, the first failure deciding. -/
def decodeIntList : List Json → Except Error (List Int)
  | [] => .ok []
  | j :: rest => do
    let n ← decodeInt j
    let ns ← decodeIntList rest
    pure (n :: ns)

/-- The parts of a JSON value that can be gone through: the items of an array, the characters of a
text, the keys of an object. -/
def parts : Json → Except Error (List Json)
  | .arr items => .ok items
  | .str t => .ok (t.map fun c => .str [c])
  | .obj members => .ok (members.map fun (key, _) => .str key)
  | _ => .error (.fault .wrongKind)

/-- The integers that the parts of a JSON value spell. -/
def decodeInts (j : Json) : Except Error (List Int) := do
  let items ← parts j
  decodeIntList items

namespace Value

/-- The bytes of a JSON value that holds base64. -/
def decodeBytes (j : Json) : Except Error Value :=
  match j with
  | .str t =>
    if t.any (128 ≤ ·) then .error (.fault .foreignBase64)
    else
      match Base64.decode t with
      | some b => .ok (.bytes b)
      | none => .error (.fault .malformedBase64)
  | _ => .error (.fault .wrongKind)

/-- The decoded value of a field, picked by its name. -/
def field (name : String) : List (Text × Except Error Value) → Except Error Value
  | [] => .error (.fault (.missingField name))
  | (key, value) :: rest => if key = Text.ofString name then value else field name rest

/-- Group parameters from the values of their fields.  Each field is looked at in turn, and only an
integer can be compared. -/
def groupOf (N G H : Value) : Except Error Value :=
  match N, G, H with
  | .int n, .int g, .int h => do
    let pp ← GroupParameters.of n g h
    pure (.group pp)
  | .int n, .int g, _ => do
    -- the conditions on the modulus and on the first generator come first
    let _ ← GroupParameters.of n g g
    throw (.fault .wrongKind)
  | .int n, _, _ =>
    if n < 3 then .error (refuse (.groupModulus n)) else .error (.fault .wrongKind)
  | _, _, _ => .error (.fault .wrongKind)

/-- The list of values that a tuple of roots is made of. -/
def rootValues (members : List (Text × Json)) : Except Error (List Int) :=
  match Json.lookup (Text.ofString "values") members with
  | some j => decodeInts j
  | none => .error (.fault (.missingField "values"))

/-- The record with a given tag, from the members of its object and their decoded values. -/
def ofTag (tag : Text) (members : List (Text × Json))
    (decoded : List (Text × Except Error Value)) : Except Error Value :=
  let get := fun name => field name decoded
  if tag = Text.ofString "FourInt" then do
    let values ← rootValues members
    let w ← FourInt.ofList values
    pure (.four w)
  else if tag = Text.ofString "ThreeInt" then do
    let values ← rootValues members
    let w ← ThreeInt.ofList values
    pure (.three w)
  else if tag = Text.ofString "GroupSetup" then do
    let N ← get "N"
    let G ← get "G"
    let H ← get "H"
    groupOf N G H
  else if tag = Text.ofString "PoEProof" then do
    let Q ← get "Q"
    pure (.poe Q)
  else if tag = Text.ofString "PoKEStarProof" then do
    let Q ← get "Q"
    let r ← get "r"
    pure (.pokeStar Q r)
  else if tag = Text.ofString "ZKPoKEProof" then do
    let z ← get "z"
    let Ag ← get "Ag"
    let Au ← get "Au"
    let Qg ← get "Qg"
    let Qu ← get "Qu"
    let rx ← get "rx"
    let rrho ← get "rrho"
    pure (.zkpoke z Ag Au Qg Qu rx rrho)
  else if tag = Text.ofString "NonNegativeProof" then do
    let commitments ← get "commitments"
    let delta ← get "delta"
    let z ← get "z"
    let t ← get "t"
    let tt ← get "tt"
    pure (.nonNegative commitments delta z t tt)
  else if tag = Text.ofString "IntervalProof" then do
    let lower ← get "lower"
    let upper ← get "upper"
    pure (.interval lower upper)
  else .error (refuse (.tag (.str tag)))

/-- The record of an object, from its members and their decoded values.  A missing tag is a null
one, and a tag that is an array or an object cannot even be looked up. -/
def ofMembers (members : List (Text × Json)) (decoded : List (Text × Except Error Value)) :
    Except Error Value :=
  match (Json.lookup (Text.ofString "type") members).getD .null with
  | .str tag => ofTag tag members decoded
  | .arr _ => .error (.fault .wrongKind)
  | .obj _ => .error (.fault .wrongKind)
  | tag => .error (refuse (.tag tag))

mutual

/-- The value of a field. -/
def decodeField : Json → Except Error Value
  | .str t => do
    let n ← decodeInt (.str t)
    pure (.int n)
  | .arr items => do
    let items ← decodeItems items
    pure (.tuple items)
  | .obj members =>
    let decoded := decodeMembers members
    match Json.lookup (Text.ofString "b64") members with
    | some j => decodeBytes j
    | none =>
      match Json.lookup (Text.ofString "type") members with
      | some _ => ofMembers members decoded
      | none => .error (refuse (.fieldValue (.obj members)))
  | j => .error (refuse (.fieldValue j))

/-- The values of the items of a tuple, the first failure deciding. -/
def decodeItems : List Json → Except Error (List Value)
  | [] => .ok []
  | j :: rest => do
    let v ← decodeField j
    let vs ← decodeItems rest
    pure (v :: vs)

/-- Every member of an object with its decoded value, or with the failure to decode it. -/
def decodeMembers : List (Text × Json) → List (Text × Except Error Value)
  | [] => []
  | (key, j) :: rest => (key, decodeField j) :: decodeMembers rest

end

/-- The record of a JSON object. -/
def deserialize : Json → Except Error Value
  | .obj members => ofMembers members (decodeMembers members)
  | _ => .error (.fault .notAnObject)

/-- The record of a JSON text. -/
def ofJsonText (t : Text) : Except Error Value :=
  match Json.parse t with
  | some j => deserialize j
  | none => .error (.fault .malformedJson)

end Value

end HiddenOrder
