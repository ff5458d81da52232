import HiddenOrder.Json.Printer
import HiddenOrder.Record
import HiddenOrder.Text.Base64
import HiddenOrder.Text.Decimal

/-!
# Writing records

An integer is written as a decimal text, so that no reader loses digits; bytes as an object that
holds base64; a tuple as an array; a record as an object with its tag and its fields.  Roots have a
record of their own, but inside another record they are a plain tuple.

* **`Value.encodeField`** — the JSON value of a field.
* **`Value.serialize`** — the JSON object of a record; nothing else has one.
* **`Value.toJsonText`** — the text of that object, its keys in order.
-/

namespace HiddenOrder

namespace Value

variable [DigitLimit]

/-- The JSON value of an integer. -/
def encodeInt (n : Int) : Except Error Json := do
  let s ← Decimal.write n
  pure (Json.ofString s)

/-- The JSON values of several integers, the first fault deciding. -/
def encodeIntList : List Int → Except Error (List Json)
  | [] => .ok []
  | n :: rest => do
    let j ← encodeInt n
    let js ← encodeIntList rest
    pure (j :: js)

/-- The JSON value of a list of integers. -/
def encodeInts (ns : List Int) : Except Error Json := do
  let items ← encodeIntList ns
  pure (.arr items)

/-- The JSON object of a byte string. -/
def encodeBytes (b : Bytes) : Json := .obj [(Text.ofString "b64", .str (Base64.encode b))]

/-- The members of an object, the first failure deciding. -/
def members : List (String × Except Error Json) → Except Error (List (Text × Json))
  | [] => .ok []
  | (name, value) :: rest => do
    let value ← value
    let rest ← members rest
    pure ((Text.ofString name, value) :: rest)

/-- The JSON object of a record with a given tag. -/
def tagged (tag : String) (fields : List (String × Except Error Json)) : Except Error Json := do
  let fields ← members fields
  pure (.obj ((Text.ofString "type", Json.ofString tag) :: fields))

/-- The JSON object of a tuple of roots. -/
def taggedValues (tag : String) (values : List Int) : Except Error Json :=
  tagged tag [("values", encodeInts values)]

mutual

/-- The JSON value of a field.  A truth value counts as an integer. -/
def encodeField : Value → Except Error Json
  | .int n => encodeInt n
  | .bytes b => .ok (encodeBytes b)
  | .tuple items => do
    let items ← encodeItems items
    pure (.arr items)
  | .four w => encodeInts w.toList
  | .three w => encodeInts w.toList
  | .group pp =>
    tagged "GroupSetup"
      [("N", encodeInt pp.N), ("G", encodeInt pp.G), ("H", encodeInt pp.H)]
  | .poe Q => tagged "PoEProof" [("Q", encodeField Q)]
  | .pokeStar Q r => tagged "PoKEStarProof" [("Q", encodeField Q), ("r", encodeField r)]
  | .zkpoke z Ag Au Qg Qu rx rrho =>
    tagged "ZKPoKEProof"
      [("z", encodeField z), ("Ag", encodeField Ag), ("Au", encodeField Au),
       ("Qg", encodeField Qg), ("Qu", encodeField Qu), ("rx", encodeField rx),
       ("rrho", encodeField rrho)]
  | .nonNegative commitments delta z t tt =>
    tagged "NonNegativeProof"
      [("commitments", encodeField commitments), ("delta", encodeField delta),
       ("z", encodeField z), ("t", encodeField t), ("tt", encodeField tt)]
  | .interval lower upper =>
    tagged "IntervalProof" [("lower", encodeField lower), ("upper", encodeField upper)]
  | .foreign (.int n) => encodeInt n
  | .foreign (.bool b) => encodeInt (if b then 1 else 0)
  | .foreign value => .error (refuse (.fieldKind value.kind))

/-- The JSON values of the items of a tuple. -/
def encodeItems : List Value → Except Error (List Json)
  | [] => .ok []
  | v :: rest => do
    let j ← encodeField v
    let js ← encodeItems rest
    pure (j :: js)

end

/-- The JSON object of a record. -/
def serialize : Value → Except Error Json
  | .int _ => .error (refuse (.objectKind "int"))
  | .bytes _ => .error (refuse (.objectKind "bytes"))
  | .tuple _ => .error (refuse (.objectKind "tuple"))
  | .foreign value => .error (refuse (.objectKind value.kind))
  | .four w => taggedValues "FourInt" w.toList
  | .three w => taggedValues "ThreeInt" w.toList
  | record => encodeField record

/-- The text of a record, the keys of every object in order. -/
def toJsonText (v : Value) : Except Error Text := do
  let j ← v.serialize
  j.sorted.print.write

end Value

end HiddenOrder
