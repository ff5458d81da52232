import HiddenOrder.Json
import HiddenOrder.Number.Binary64
import HiddenOrder.Text.Quoted
import HiddenOrder.Text.Wording

/-!
# Writing JSON

The canonical text of a value is ASCII: characters beyond it are escaped, by a pair of surrogate
halves when one escape is too short.  A space follows every comma and every colon.

* **`Json.print`** — the text of a value, its integers still to be written.
* **`Json.sorted`** — the value with the members of every object in the order of their keys.
-/

namespace HiddenOrder

namespace Json

/-- The escape of a code unit of sixteen bits. -/
def escapeUnit (u : Nat) : Text := 0x5c :: 0x75 :: Text.hexDigits u 4

/-- The form of one character between double quotes. -/
def printChar (c : Nat) : Text :=
  if c = 0x22 ∨ c = 0x5c then [0x5c, c]
  else if c = 0x08 then [0x5c, 0x62]
  else if c = 0x09 then [0x5c, 0x74]
  else if c = 0x0a then [0x5c, 0x6e]
  else if c = 0x0c then [0x5c, 0x66]
  else if c = 0x0d then [0x5c, 0x72]
  else if 0x20 ≤ c ∧ c < 0x7f then [c]
  else if c < 0x10000 then escapeUnit c
  else escapeUnit (0xd800 + (c - 0x10000) / 0x400) ++ escapeUnit (0xdc00 + (c - 0x10000) % 0x400)

/-- A text between double quotes. -/
def printText (t : Text) : Text := 0x22 :: t.flatMap printChar ++ [0x22]

/-- The text of a number that is not an integer. -/
def printFraction (x : Fraction) : Text :=
  Text.ofString <|
    match x with
    | .nan => "NaN"
    | .infinite true => "-Infinity"
    | .infinite false => "Infinity"
    | x => x.text

mutual

/-- The text of a value. -/
def print : Json → Wording
  | .null => ["null"]
  | .bool true => ["true"]
  | .bool false => ["false"]
  | .int n => [n]
  | .fraction x => [.text (printFraction x)]
  | .str t => [.text (printText t)]
  | .arr items => .text [0x5b] :: printItems items ++ [.text [0x5d]]
  | .obj members => .text [0x7b] :: printMembers members ++ [.text [0x7d]]

/-- The texts of the items of an array, with commas between them. -/
def printItems : List Json → Wording
  | [] => []
  | [j] => print j
  | j :: rest => print j ++ .text [0x2c, 0x20] :: printItems rest

/-- The texts of the members of an object, with commas between them. -/
def printMembers : List (Text × Json) → Wording
  | [] => []
  | [(k, v)] => .text (printText k) :: .text [0x3a, 0x20] :: print v
  | (k, v) :: rest =>
    .text (printText k) :: .text [0x3a, 0x20] :: print v ++ .text [0x2c, 0x20] :: printMembers rest

end

/-- A member put into its place among members in the order of their keys. -/
def insertMember (m : Text × Json) : List (Text × Json) → List (Text × Json)
  | [] => [m]
  | m' :: rest => if m.1 < m'.1 then m :: m' :: rest else m' :: insertMember m rest

mutual

/-- The value with the members of every object in the order of their keys. -/
def sorted : Json → Json
  | .arr items => .arr (sortedItems items)
  | .obj members => .obj (sortedMembers members)
  | j => j

/-- The items of an array, each of them sorted. -/
def sortedItems : List Json → List Json
  | [] => []
  | j :: rest => sorted j :: sortedItems rest

/-- The members of an object in the order of their keys, each value sorted. -/
def sortedMembers : List (Text × Json) → List (Text × Json)
  | [] => []
  | (k, v) :: rest => insertMember (k, sorted v) (sortedMembers rest)

end

end Json

end HiddenOrder
