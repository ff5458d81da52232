/-!
# Texts as code points

Records travel as JSON, and JSON can spell a lone half of a surrogate pair.  `String` cannot hold
one, so a text read from outside is the list of its code points:

* **`Text`** — a list of code points, each below `0x110000`, halves of surrogate pairs included.
* `Text.ofString` — the code points of a `String`; injective, so tags compare as texts.
* `Text.toString?` — back again, when no half of a surrogate pair is among the code points.
-/

namespace HiddenOrder

/-- A text, as the list of its code points. -/
abbrev Text := List Nat

namespace Text

/-- The code points of a string. -/
def ofString (s : String) : Text := s.toList.map Char.toNat

/-- The character of a code point; none for half of a surrogate pair. -/
def char? (n : Nat) : Option Char :=
  if h : n.isValidChar then some (Char.ofNatAux n h) else none

/-- The string with these code points, if every one of them is a character. -/
def toString? (t : Text) : Option String := (t.mapM char?).map String.ofList

end Text

end HiddenOrder
