import HiddenOrder.Error
import HiddenOrder.Text.Digit

/-!
# Decimal numerals

Integers travel as decimal texts.  They are written in one way, the shortest, and read in many:
blanks around the numeral, one sign, leading zeros, digits of any script, and single underscores
between digits are all accepted.

The time of a conversion is not proportional to the number of digits, so the runtime may set a limit
to that number and refuse whatever is beyond it, in both directions.  The limit is no part of the
library.  It can be switched off, and it can be moved, but never below 640 digits; so it is an
argument of everything that writes or reads a numeral, and of everything that can fail with a text
in which a numeral stands.

* **`DigitLimit`** — the limit; `DigitLimit.off` and `DigitLimit.standard` are its usual settings.
* **`Writable`** — an integer whose numeral is within the limit.
* **`Decimal.write`** — the numeral of an integer, or the fault that it is too long.
* **`Decimal.read`** — the integer of a numeral; none for a text that is no numeral, or is too long.
-/

namespace HiddenOrder

/-- A number of digits that is within every limit. -/
def digitThreshold : Nat := 640

/-- The limit on the number of digits of a numeral, as the runtime has it. -/
class DigitLimit where
  /-- The largest number of digits, if there is a limit. -/
  most : Option Nat
  /-- No limit can be set below the threshold. -/
  threshold_le : ∀ d ∈ most, digitThreshold ≤ d

namespace DigitLimit

/-- The limit switched off. -/
@[reducible]
def off : DigitLimit := ⟨none, nofun⟩

/-- The limit when nothing is set. -/
@[reducible]
def standard : DigitLimit := ⟨some 4300, fun _ h => Option.some.inj h ▸ by decide⟩

/-- So many digits are within the limit. -/
def Admits [DigitLimit] (digits : Nat) : Prop := ∀ d ∈ most, digits ≤ d

instance [DigitLimit] (digits : Nat) : Decidable (Admits digits) :=
  decidable_of_iff (most.all (digits ≤ ·)) (by simp [Admits, Option.all_eq_true])

end DigitLimit

/-! Nothing is limited where a result is about a fixed input. -/

namespace Unlimited

scoped instance limitOff : DigitLimit := .off

end Unlimited

/-- The numeral of an integer is within the limit. -/
def Writable [DigitLimit] (n : Int) : Prop := ∀ d ∈ DigitLimit.most, n.natAbs < Nat.pow 10 d

instance [DigitLimit] (n : Int) : Decidable (Writable n) :=
  decidable_of_iff (DigitLimit.most.all (n.natAbs < Nat.pow 10 ·))
    (by simp [Writable, Option.all_eq_true])

namespace Decimal

/-- The numeral of an integer: ASCII digits without leading zeros, behind a minus sign when the
integer is negative. -/
def write [DigitLimit] (n : Int) : Except Error String :=
  if Writable n then .ok (toString n) else .error (.fault .longNumeral)

/-- The value of the digits of a text that begins behind a digit, single underscores between digits
being skipped; `acc` is the value of the digits before. -/
def readTail (acc : Nat) : Text → Option Nat
  | [] => some acc
  | c :: rest =>
    match Text.digitValue? c with
    | some d => readTail (10 * acc + d) rest
    | none =>
      match c == 0x5f, rest with
      | true, c' :: rest' =>
        match Text.digitValue? c' with
        | some d => readTail (10 * acc + d) rest'
        | none => none
      | _, _ => none

/-- The value of a text that consists of digits, with single underscores between them. -/
def readDigits : Text → Option Nat
  | [] => none
  | c :: rest =>
    match Text.digitValue? c with
    | some d => readTail d rest
    | none => none

/-- A text without the blanks at its two ends. -/
def trim (t : Text) : Text :=
  ((t.dropWhile Text.isBlank).reverse.dropWhile Text.isBlank).reverse

/-- The integer that a text spells, if it spells one. -/
def spelled (t : Text) : Option Int :=
  match trim t with
  | 0x2b :: digits => (readDigits digits).map Int.ofNat
  | 0x2d :: digits => (readDigits digits).map fun n => -(n : Int)
  | digits => (readDigits digits).map Int.ofNat

/-- The number of digits in a text, leading zeros included. -/
def digitCount (t : Text) : Nat := t.countP fun c => (Text.digitValue? c).isSome

/-- The integer that a text spells, if it spells one within the limit. -/
def read [DigitLimit] (t : Text) : Option Int :=
  if DigitLimit.Admits (digitCount t) then spelled t else none

end Decimal

end HiddenOrder
