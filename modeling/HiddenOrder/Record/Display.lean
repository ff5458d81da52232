import HiddenOrder.Error.Message
import HiddenOrder.Record

/-!
# The texts of decoded values

A transcript takes down whatever stands where a group element should, so a decoded value of any kind
has a text: an integer its decimal text, bytes a quoted text behind the letter `b`, a tuple its
items in parentheses, and a record its tag with its named fields.

* **`Value.display`** — the text of a value.
* `Bytes.display` — the text of a byte string.
-/

namespace HiddenOrder

/-- The text of a byte string: printable ASCII characters stand for themselves. -/
def Bytes.display (b : Bytes) : Text :=
  0x62 :: Text.quotedBy (fun c => 0x20 ≤ c && c < 0x7f) (b.map UInt8.toNat)

namespace Value

/-- The items of a tuple between parentheses; a comma follows a single one. -/
def displayTuple : List Wording → Wording
  | [item] => words "(" :: item ++ [words ",)"]
  | items => spellOut "(" ")" items

/-- A tag with named fields between parentheses. -/
def displayRecord (tag : String) (fields : List (String × Wording)) : Wording :=
  spellOut (tag ++ "(") ")" (fields.map fun (name, shown) => words (name ++ "=") :: shown)

mutual

/-- The text of a value. -/
def display : Value → Wording
  | .int n => [n]
  | .bytes b => [.text b.display]
  | .tuple items => displayTuple (displayAll items)
  | .four w => showRoots "FourInt" w.toList
  | .three w => showRoots "ThreeInt" w.toList
  | .group pp =>
    displayRecord "GroupSetup" [("N", [pp.N]), ("G", [pp.G]), ("H", [pp.H])]
  | .poe Q => displayRecord "PoEProof" [("Q", display Q)]
  | .pokeStar Q r => displayRecord "PoKEStarProof" [("Q", display Q), ("r", display r)]
  | .zkpoke z Ag Au Qg Qu rx rrho =>
    displayRecord "ZKPoKEProof"
      [("z", display z), ("Ag", display Ag), ("Au", display Au), ("Qg", display Qg),
       ("Qu", display Qu), ("rx", display rx), ("rrho", display rrho)]
  | .nonNegative commitments delta z t tt =>
    displayRecord "NonNegativeProof"
      [("commitments", display commitments), ("delta", display delta), ("z", display z),
       ("t", display t), ("tt", display tt)]
  | .interval lower upper =>
    displayRecord "IntervalProof" [("lower", display lower), ("upper", display upper)]
  | .foreign value => value.display

/-- The texts of several values. -/
def displayAll : List Value → List Wording
  | [] => []
  | v :: vs => display v :: displayAll vs

end

end Value

end HiddenOrder
