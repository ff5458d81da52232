import HiddenOrder.Text.Printable

/-!
# Quoted texts

A message that is about a text shows it in quotes, so that its ends and its invisible characters
can be seen.

* **`Text.quoteMark`** — a single quote, or a double one when the text holds single quotes only.
* **`Text.quotedBy`** — the text between quotes, everything that is not to be shown being escaped.
* `Text.quoted` — the same, with all printable characters shown.
-/

namespace HiddenOrder

namespace Text

/-- The quote to be used for a text. -/
def quoteMark (t : Text) : Nat := if t.contains 0x27 && !t.contains 0x22 then 0x22 else 0x27

/-- A number in so many hexadecimal digits, as code points. -/
def hexDigits (n : Nat) : (width : Nat) → Text
  | 0 => []
  | width + 1 => (Nat.digitChar (n / Nat.pow 16 width % 16)).toNat :: hexDigits n width

/-- The form of one character between quotes of the given kind; `shows` says what stands for
itself. -/
def escape (shows : Nat → Bool) (quote c : Nat) : Text :=
  if c = quote ∨ c = 0x5c then [0x5c, c]
  else if c = 0x09 then [0x5c, 0x74]
  else if c = 0x0a then [0x5c, 0x6e]
  else if c = 0x0d then [0x5c, 0x72]
  else if shows c then [c]
  else if c < 0x100 then 0x5c :: 0x78 :: hexDigits c 2
  else if c < 0x10000 then 0x5c :: 0x75 :: hexDigits c 4
  else 0x5c :: 0x55 :: hexDigits c 8

/-- A text between quotes; `shows` says which characters stand for themselves. -/
def quotedBy (shows : Nat → Bool) (t : Text) : Text :=
  let quote := quoteMark t
  quote :: t.flatMap (escape shows quote) ++ [quote]

/-- A text between quotes, with the printable characters shown. -/
def quoted (t : Text) : Text := quotedBy isPrintable t

end Text

end HiddenOrder
