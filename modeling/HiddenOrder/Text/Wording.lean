import HiddenOrder.Text.Decimal

/-!
# Texts with integers in them

The message of a failure, the name of a search, and the text of a value that a transcript takes down
all have integers in them, and can be written only as far as these can.  So a text is put together
first, words and integers side by side, and written afterwards.

* **`Wording`** — words and integers in a row.
* **`Wording.write`** — the text, or the fault that one of its integers is too long.
* `Wording.numbers`, `Wording.render` — the integers in it, and the text whatever the limit is.
* `spellOut`, `showRoots` — rows of integers.
-/

namespace HiddenOrder

/-- A part of a text: words, or an integer that stands for its numeral. -/
inductive Piece where
  /-- Words. -/
  | text (t : Text)
  /-- An integer. -/
  | number (n : Int)
deriving DecidableEq, Repr

/-- Words, from a string. -/
def words (s : String) : Piece := .text (Text.ofString s)

instance : Coe String Piece := ⟨words⟩

instance : Coe Int Piece := ⟨.number⟩

instance : Coe Nat Piece := ⟨fun n => .number n⟩

/-- A text before it is written. -/
abbrev Wording := List Piece

namespace Wording

/-- The integers in a text. -/
def numbers : Wording → List Int
  | [] => []
  | .text _ :: rest => numbers rest
  | .number n :: rest => n :: numbers rest

/-- The text, with every integer written, however long it is. -/
def render : Wording → Text
  | [] => []
  | .text t :: rest => t ++ render rest
  | .number n :: rest => Text.ofString (toString n) ++ render rest

/-- The text, if its integers can be written. -/
def write [DigitLimit] : Wording → Except Error Text
  | [] => .ok []
  | .text t :: rest => do
    let u ← write rest
    pure (t ++ u)
  | .number n :: rest => do
    let t ← Decimal.write n
    let u ← write rest
    pure (Text.ofString t ++ u)

end Wording

/-- Parts of a text between two words, with commas. -/
def spellOut (before after : String) (parts : List Wording) : Wording :=
  words before :: (parts.intersperse [words ", "]).flatten ++ [words after]

/-- A tuple of roots: its name, and each root with its number. -/
def showRoots (name : String) (roots : List Int) : Wording :=
  spellOut (name ++ "(") ")" (roots.zipIdx.map fun (w, i) => ["w", (i + 1 : Nat), "=", w])

end HiddenOrder
