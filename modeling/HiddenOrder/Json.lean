import HiddenOrder.Text

/-!
# JSON values

The values a JSON text can spell, kept as they were written: an object is the list of its members
in order, and a number with a fraction or an exponent stays apart from an integer, because only
integers take part in anything the library computes.  A fractional number is never calculated
with; it is carried only far enough to be quoted back in a message.

* **`Json`** — the values.
* **`Fraction`** — the numbers that are not integers, as binary64 parts.
* `Json.get?` — the value of a member.
* `Json.kind` — the one word a message uses for the kind of a value.
-/

namespace HiddenOrder

/-- A number that is not an integer: `± m · 2 ^ q`, or one of the values that stand outside. -/
inductive Fraction where
  /-- The number `m · 2 ^ q`, negated when `negative`. -/
  | finite (negative : Bool) (m : Nat) (q : Int)
  /-- Beyond every finite number. -/
  | infinite (negative : Bool)
  /-- Not a number. -/
  | nan
deriving DecidableEq, Repr

/-- A JSON value. -/
inductive Json where
  /-- The null value. -/
  | null
  /-- A truth value. -/
  | bool (b : Bool)
  /-- An integer of any size. -/
  | int (n : Int)
  /-- A number written with a fraction or an exponent. -/
  | fraction (x : Fraction)
  /-- A text. -/
  | str (t : Text)
  /-- An array. -/
  | arr (items : List Json)
  /-- An object: its members in order, each key once. -/
  | obj (members : List (Text × Json))

namespace Json

/-- The text value of a string. -/
def ofString (s : String) : Json := .str (Text.ofString s)

/-- The value of the member with a given key. -/
def lookup (key : Text) : List (Text × Json) → Option Json
  | [] => none
  | (k, v) :: rest => if k = key then some v else lookup key rest

/-- The member of an object with a given key; none for other values. -/
def get? (j : Json) (key : String) : Option Json :=
  match j with
  | .obj members => lookup (Text.ofString key) members
  | _ => none

/-- The word for the kind of a value, as messages use it. -/
def kind : Json → String
  | .null => "NoneType"
  | .bool _ => "bool"
  | .int _ => "int"
  | .fraction _ => "float"
  | .str _ => "str"
  | .arr _ => "list"
  | .obj _ => "dict"

end Json

end HiddenOrder
