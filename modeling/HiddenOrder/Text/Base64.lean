import HiddenOrder.Bytes
import HiddenOrder.Text

/-!
# Base64

Byte strings travel inside records as base64.  Writing is strict: groups of four characters, the
last one padded.  Reading is lenient: characters outside the alphabet are skipped, padding counts
only where a group may end, and what follows a completed padding is ignored.

* **`Base64.encode`** — the text of a byte string.
* **`Base64.decode`** — the byte string of a text, or none when a group is left incomplete.
-/

namespace HiddenOrder

namespace Base64

/-- The character of a number below sixty-four. -/
def digit (n : Nat) : Nat :=
  if n < 26 then n + 65
  else if n < 52 then n + 71
  else if n < 62 then n - 4
  else if n = 62 then 43
  else 47

/-- The number of a character of the alphabet. -/
def value? (c : Nat) : Option Nat :=
  if 65 ≤ c ∧ c ≤ 90 then some (c - 65)
  else if 97 ≤ c ∧ c ≤ 122 then some (c - 71)
  else if 48 ≤ c ∧ c ≤ 57 then some (c + 4)
  else if c = 43 then some 62
  else if c = 47 then some 63
  else none

/-- The padding character. -/
def padding : Nat := 61

/-- The text of a byte string. -/
def encode : Bytes → Text
  | [] => []
  | [a] =>
    let a := a.toNat
    [digit (a / 4), digit (a % 4 * 16), padding, padding]
  | [a, b] =>
    let a := a.toNat
    let b := b.toNat
    [digit (a / 4), digit (a % 4 * 16 + b / 16), digit (b % 16 * 4), padding]
  | a :: b :: c :: rest =>
    let x := a.toNat
    let y := b.toNat
    let z := c.toNat
    digit (x / 4) :: digit (x % 4 * 16 + y / 16) :: digit (y % 16 * 4 + z / 64) ::
      digit (z % 64) :: encode rest

/-- Where in a group of four the reading stands: how many characters of it have been read, and the
bits of the last one that belong to the byte to come. -/
structure Cursor where
  /-- The number of characters of the group, below four. -/
  position : Nat
  /-- The bits left over. -/
  pending : Nat
  /-- The padding characters in a row. -/
  pads : Nat

/-- The byte completed by the next character, if there is one, and the cursor behind it. -/
def Cursor.step (cursor : Cursor) (v : Nat) : Bytes × Cursor :=
  match cursor.position with
  | 0 => ([], ⟨1, v, 0⟩)
  | 1 => ([UInt8.ofNat (cursor.pending * 4 + v / 16)], ⟨2, v % 16, 0⟩)
  | 2 => ([UInt8.ofNat (cursor.pending * 16 + v / 4)], ⟨3, v % 4, 0⟩)
  | _ => ([UInt8.ofNat (cursor.pending * 64 + v)], ⟨0, 0, 0⟩)

/-- The bytes of the rest of a text, from a cursor on. -/
def decodeFrom (cursor : Cursor) : Text → Option Bytes
  | [] => if cursor.position = 0 then some [] else none
  | c :: rest =>
    if c = padding then
      let cursor :=
        if 2 ≤ cursor.position then { cursor with pads := cursor.pads + 1 } else cursor
      if 2 ≤ cursor.position ∧ 4 ≤ cursor.position + cursor.pads then some []
      else decodeFrom cursor rest
    else
      match value? c with
      | none => decodeFrom cursor rest
      | some v =>
        let (bytes, cursor) := cursor.step v
        (decodeFrom cursor rest).map (bytes ++ ·)

/-- The byte string of a text. -/
def decode (t : Text) : Option Bytes := decodeFrom ⟨0, 0, 0⟩ t

end Base64

end HiddenOrder
