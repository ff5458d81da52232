import HiddenOrder.Json
import HiddenOrder.Number.Binary64
import HiddenOrder.Text.Quoted
import HiddenOrder.Text.Wording

/-!
# JSON values in messages

A message that refuses a value shows it: texts in quotes, arrays in brackets, objects in braces, and
the null and truth values by their capitalised names.

* **`Json.display`** — the text of a value.
-/

namespace HiddenOrder

namespace Json

mutual

/-- The text of a value, as messages show it. -/
def display : Json → Wording
  | .null => ["None"]
  | .bool true => ["True"]
  | .bool false => ["False"]
  | .int n => [n]
  | .fraction x => [x.text]
  | .str t => [.text t.quoted]
  | .arr items => words "[" :: displayItems items ++ [words "]"]
  | .obj members => words "\x7b" :: displayMembers members ++ [words "\x7d"]

/-- The texts of the items of an array, with commas between them. -/
def displayItems : List Json → Wording
  | [] => []
  | [j] => display j
  | j :: rest => display j ++ words ", " :: displayItems rest

/-- The texts of the members of an object, with commas between them. -/
def displayMembers : List (Text × Json) → Wording
  | [] => []
  | [(k, v)] => .text k.quoted :: ": " :: display v
  | (k, v) :: rest => .text k.quoted :: words ": " :: display v ++ words ", " :: displayMembers rest

end

end Json

end HiddenOrder
