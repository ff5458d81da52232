import HiddenOrder.Json
import HiddenOrder.Number.Binary64
import HiddenOrder.Text.Decimal

/-!
# Reading JSON

The reader takes one value with blanks around it and nothing else.  It is the grammar of the
standard with three words more, for the numbers that are none: `NaN`, `Infinity` and `-Infinity`.
An integer is a numeral without fraction and exponent, and no longer than the limit on numerals; of
the members of an object that share a key the last one gives the value and the first one the place;
an escaped half of a surrogate pair without its other half stands for itself.

* **`Json.parse`** — the value of a text, or none.
* `Json.readValue` — a value at the front of a text, and the text behind it.  The first argument
  bounds the length of the recursion; the length of the text suffices.
-/

namespace HiddenOrder

namespace Json

/-- A text without the blanks at its front. -/
def skipBlank : Text → Text
  | [] => []
  | c :: rest =>
    if c = 0x20 ∨ c = 0x09 ∨ c = 0x0a ∨ c = 0x0d then skipBlank rest else c :: rest

/-- The text behind a given word, if it begins with it. -/
def afterWord : (word : List Char) → Text → Option Text
  | [], t => some t
  | _ :: _, [] => none
  | w :: ws, c :: rest => if c = w.toNat then afterWord ws rest else none

/-! ## Numbers -/

/-- Whether a code point is an ASCII digit. -/
def isDigit (c : Nat) : Bool := 0x30 ≤ c && c ≤ 0x39

/-- The digits at the front of a text, and the text behind them. -/
def spanDigits (t : Text) : Text × Text := (t.takeWhile isDigit, t.dropWhile isDigit)

/-- The value of a list of ASCII digits, behind digits of value `acc`. -/
def digitsValue (acc : Nat) (digits : Text) : Nat :=
  digits.foldl (fun n c => 10 * n + (c - 0x30)) acc

/-- The integer part of a number: a zero, or digits that do not begin with one. -/
def readWhole : Text → Option (Nat × Text)
  | 0x30 :: rest => some (0, rest)
  | t =>
    match spanDigits t with
    | ([], _) => none
    | (digits, rest) => some (digitsValue 0 digits, rest)

/-- The digits of a fraction at the front of a text; none when there is no fraction. -/
def readFraction : Text → Text × Text
  | 0x2e :: rest =>
    match spanDigits rest with
    | ([], _) => ([], 0x2e :: rest)
    | found => found
  | t => ([], t)

/-- The value of an exponent without its letter: an optional sign, and digits. -/
def readSigned : Text → Option (Int × Text)
  | 0x2d :: rest =>
    match spanDigits rest with
    | ([], _) => none
    | (digits, rest) => some (-(digitsValue 0 digits : Int), rest)
  | t =>
    let t := match t with
      | 0x2b :: rest => rest
      | t => t
    match spanDigits t with
    | ([], _) => none
    | (digits, rest) => some ((digitsValue 0 digits : Int), rest)

/-- The exponent at the front of a text; none when there is no exponent. -/
def readExponent : Text → Option (Int × Text)
  | c :: rest => if c = 0x65 ∨ c = 0x45 then readSigned rest else none
  | [] => none

/-- The number at the front of a text, behind its sign; none for an integer that is too long. -/
def readNumber [DigitLimit] (negative : Bool) (t : Text) : Option (Json × Text) := do
  let (whole, rest) ← readWhole t
  let (places, rest) := readFraction rest
  match places, readExponent rest with
  | [], none =>
    let n : Int := if negative then -(whole : Int) else whole
    if Writable n then some (.int n, rest) else none
  | _, exponent =>
    let (exponent, rest) := exponent.getD (0, rest)
    let value := Fraction.ofDecimal negative (digitsValue whole places)
      (exponent - places.length)
    some (.fraction value, rest)

/-! ## Texts -/

/-- The value of a hexadecimal digit. -/
def hexValue? (c : Nat) : Option Nat :=
  if 0x30 ≤ c ∧ c ≤ 0x39 then some (c - 0x30)
  else if 0x41 ≤ c ∧ c ≤ 0x46 then some (c - 0x37)
  else if 0x61 ≤ c ∧ c ≤ 0x66 then some (c - 0x57)
  else none

/-- The value of four hexadecimal digits. -/
def hexUnit? (a b c d : Nat) : Option Nat := do
  let a ← hexValue? a
  let b ← hexValue? b
  let c ← hexValue? c
  let d ← hexValue? d
  pure (((a * 16 + b) * 16 + c) * 16 + d)

/-- The character of an escape of one letter. -/
def shortEscape? (c : Nat) : Option Nat :=
  if c = 0x22 ∨ c = 0x5c ∨ c = 0x2f then some c
  else if c = 0x62 then some 0x08
  else if c = 0x66 then some 0x0c
  else if c = 0x6e then some 0x0a
  else if c = 0x72 then some 0x0d
  else if c = 0x74 then some 0x09
  else none

/-- A text up to its closing quote, and what is behind the quote.  Halves of surrogate pairs are
left as they are. -/
def readUnits : Text → Option (Text × Text)
  | [] => none
  | 0x22 :: rest => some ([], rest)
  | 0x5c :: 0x75 :: a :: b :: c :: d :: rest => do
    let u ← hexUnit? a b c d
    let (t, rest) ← readUnits rest
    pure ((0x110000 + u) :: t, rest)
  | 0x5c :: e :: rest => do
    let c ← shortEscape? e
    let (t, rest) ← readUnits rest
    pure (c :: t, rest)
  | c :: rest =>
    if c < 0x20 ∨ c = 0x5c then none
    else do
      let (t, rest) ← readUnits rest
      pure (c :: t, rest)

/-- The code points of a text in which the units of escapes are marked by an offset: two escaped
halves of a pair become one code point. -/
def joinPairs : Text → Text
  | [] => []
  | [c] => [if 0x110000 ≤ c then c - 0x110000 else c]
  | h :: l :: rest =>
    if 0x110000 + 0xd800 ≤ h ∧ h < 0x110000 + 0xdc00 ∧
        0x110000 + 0xdc00 ≤ l ∧ l < 0x110000 + 0xe000 then
      (0x10000 + (h - 0x110000 - 0xd800) * 0x400 + (l - 0x110000 - 0xdc00)) :: joinPairs rest
    else (if 0x110000 ≤ h then h - 0x110000 else h) :: joinPairs (l :: rest)

/-- The text behind an opening quote, and what is behind the closing one. -/
def readText (t : Text) : Option (Text × Text) :=
  (readUnits t).map fun (units, rest) => (joinPairs units, rest)

/-! ## Values -/

/-- The members of an object with one more at the end; one whose key is there already replaces the
value in its place. -/
def putMember (key : Text) (value : Json) : List (Text × Json) → List (Text × Json)
  | [] => [(key, value)]
  | (k, v) :: rest =>
    if k = key then (k, value) :: rest else (k, v) :: putMember key value rest

/-- A value that is a single word. -/
def readWord (t : Text) : Option (Json × Text) :=
  match afterWord ['n', 'u', 'l', 'l'] t with
  | some rest => some (.null, rest)
  | none =>
  match afterWord ['t', 'r', 'u', 'e'] t with
  | some rest => some (.bool true, rest)
  | none =>
  match afterWord ['f', 'a', 'l', 's', 'e'] t with
  | some rest => some (.bool false, rest)
  | none =>
  match afterWord ['N', 'a', 'N'] t with
  | some rest => some (.fraction .nan, rest)
  | none =>
  match afterWord ['I', 'n', 'f', 'i', 'n', 'i', 't', 'y'] t with
  | some rest => some (.fraction (.infinite false), rest)
  | none =>
  match afterWord ['-', 'I', 'n', 'f', 'i', 'n', 'i', 't', 'y'] t with
  | some rest => some (.fraction (.infinite true), rest)
  | none => none

variable [DigitLimit]

mutual

/-- A value at the front of a text that does not begin with a blank. -/
def readValue : (fuel : Nat) → Text → Option (Json × Text)
  | 0, _ => none
  | fuel + 1, t =>
    match t with
    | 0x22 :: rest => (readText rest).map fun (s, rest) => (.str s, rest)
    | 0x5b :: rest =>
      match skipBlank rest with
      | 0x5d :: rest => some (.arr [], rest)
      | rest => (readItems fuel rest).map fun (items, rest) => (.arr items, rest)
    | 0x7b :: rest =>
      match skipBlank rest with
      | 0x7d :: rest => some (.obj [], rest)
      | rest => (readMembers fuel rest []).map fun (members, rest) => (.obj members, rest)
    | t =>
      match readWord t with
      | some found => some found
      | none =>
        match t with
        | 0x2d :: rest => readNumber true rest
        | t => readNumber false t

/-- The items of an array up to its closing bracket. -/
def readItems : (fuel : Nat) → Text → Option (List Json × Text)
  | 0, _ => none
  | fuel + 1, t => do
    let (j, rest) ← readValue fuel t
    match skipBlank rest with
    | 0x5d :: rest => some ([j], rest)
    | 0x2c :: rest =>
      let (items, rest) ← readItems fuel (skipBlank rest)
      some (j :: items, rest)
    | _ => none

/-- The members of an object up to its closing brace, behind those already read. -/
def readMembers : (fuel : Nat) → Text → List (Text × Json) → Option (List (Text × Json) × Text)
  | 0, _, _ => none
  | fuel + 1, t, members =>
    match t with
    | 0x22 :: rest => do
      let (key, rest) ← readText rest
      match skipBlank rest with
      | 0x3a :: rest =>
        let (j, rest) ← readValue fuel (skipBlank rest)
        let members := putMember key j members
        match skipBlank rest with
        | 0x7d :: rest => some (members, rest)
        | 0x2c :: rest => readMembers fuel (skipBlank rest) members
        | _ => none
      | _ => none
    | _ => none

end

/-- The value of a text. -/
def parse (t : Text) : Option Json := do
  let (j, rest) ← readValue (t.length + 1) (skipBlank t)
  match skipBlank rest with
  | [] => some j
  | _ => none

end Json

end HiddenOrder
