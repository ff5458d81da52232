/-!
# Byte strings

Byte strings are what gets hashed and what the messages of a range proof are made of.

* **`Bytes`** — a byte string.
* **`Bytes.ofNat`**, **`Bytes.toNat`** — the shortest big-endian form of a number, in which zero is
  a single zero byte, and the number a byte string stands for.
* **`Bytes.hex`**, **`Bytes.ofHex?`** — two lower-case hexadecimal digits a byte.
* `bitLength` — the number of binary digits of a number.
* **`Bytes.utf8`** — the UTF-8 form of a string, one character after another.
-/

namespace HiddenOrder

/-- A byte string. -/
abbrev Bytes := List UInt8

/-- The number of binary digits of a natural number. -/
def bitLength (n : Nat) : Nat := if n = 0 then 0 else n.log2 + 1

namespace Bytes

/-- The big-endian digits of a number in base 256 in front of `tail`; no digit for zero. -/
def digits (n : Nat) (tail : Bytes) : Bytes :=
  if n = 0 then tail else digits (n / 256) (UInt8.ofNat (n % 256) :: tail)
termination_by n
decreasing_by omega

/-- The shortest big-endian form of a number; zero is one zero byte. -/
def ofNat (n : Nat) : Bytes :=
  if n = 0 then [0] else digits n []

/-- The number whose big-endian form a byte string is. -/
def toNat (b : Bytes) : Nat := b.foldl (fun n d => n * 256 + d.toNat) 0

/-- The hexadecimal digit of a number below sixteen. -/
def hexDigit (n : Nat) : Char := Nat.digitChar n

/-- The hexadecimal text of a byte string, two lower-case digits a byte. -/
def hex (b : Bytes) : String :=
  String.ofList (b.flatMap fun d => [hexDigit (d.toNat / 16), hexDigit (d.toNat % 16)])

/-- The value of a hexadecimal digit of either case. -/
def hexValue? (c : Char) : Option Nat :=
  if '0' ≤ c ∧ c ≤ '9' then some (c.toNat - 48)
  else if 'a' ≤ c ∧ c ≤ 'f' then some (c.toNat - 87)
  else if 'A' ≤ c ∧ c ≤ 'F' then some (c.toNat - 55)
  else none

/-- The byte string of a list of hexadecimal digits, two a byte. -/
def ofHexDigits? : List Char → Option Bytes
  | [] => some []
  | [_] => none
  | a :: b :: rest => do
    let high ← hexValue? a
    let low ← hexValue? b
    let tail ← ofHexDigits? rest
    pure (UInt8.ofNat (16 * high + low) :: tail)

/-- The byte string of a hexadecimal text. -/
def ofHex? (s : String) : Option Bytes := ofHexDigits? s.toList

/-- The UTF-8 form of a string. -/
def utf8 (s : String) : Bytes := s.toList.flatMap String.utf8EncodeChar

end Bytes

end HiddenOrder
