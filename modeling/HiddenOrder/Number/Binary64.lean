import HiddenOrder.Json

/-!
# Fractional numbers

A number with a fraction or an exponent is held as a binary64 number, `± m · 2 ^ q`, and shown by
the fewest digits that lead back to it.  Both directions are exact computations with natural
numbers; nothing depends on the floating-point unit.

* **`Fraction.ofDecimal`** — the number nearest to `digits · 10 ^ exponent`; of two that are
  equally near the one with an even `m`.
* **`Fraction.shortest`** — the fewest decimal digits within the numbers that round to the same
  value, and of those the nearest, with the exponent of the first digit.
* **`Fraction.text`** — the text: positional from `0.0001` up to below `10 ^ 16`, with an exponent
  of at least two digits beyond.
-/

namespace HiddenOrder

namespace Fraction

/-- A quotient rounded to the nearest natural number, a half to the even one. -/
def roundHalfEven (num den : Nat) : Nat :=
  let q := num / den
  let r := 2 * (num % den)
  if r < den ∨ (r = den ∧ q % 2 = 0) then q else q + 1

/-- The parts of a scaled fraction: the numerator and denominator of `num / den · 2 ^ (-q)`. -/
def scaled (num den : Nat) (q : Int) : Nat × Nat :=
  if 0 ≤ q then (num, den * Nat.pow 2 q.toNat) else (num * Nat.pow 2 (-q).toNat, den)

/-- The number nearest to a positive `num / den`. -/
def ofRatio (negative : Bool) (num den : Nat) : Fraction :=
  -- the exponent for which the quotient has fifty-three bits, or fifty-four
  let q := max ((num.log2 : Int) - den.log2 - 53) (-1074)
  let (a, b) := scaled num den q
  let q := if Nat.pow 2 53 ≤ a / b then q + 1 else q
  let (a, b) := scaled num den q
  let m := roundHalfEven a b
  let (m, q) := if m = Nat.pow 2 53 then (Nat.pow 2 52, q + 1) else (m, q)
  if 971 < q then .infinite negative else .finite negative m q

/-- The number nearest to `digits · 10 ^ exponent`. -/
def ofDecimal (negative : Bool) (digits : Nat) (exponent : Int) : Fraction :=
  if digits = 0 then .finite negative 0 0
  else
    let size := (digits.log2 : Int) * 3 / 10 + exponent
    if 400 < size then .infinite negative
    else if (digits.log2 : Int) / 3 + 1 + exponent < -400 then .finite negative 0 0
    else if 0 ≤ exponent then ofRatio negative (digits * Nat.pow 10 exponent.toNat) 1
    else ofRatio negative digits (Nat.pow 10 (-exponent).toNat)

/-- A fraction compared with an integer power of ten: whether `10 ^ k ≤ num / den`. -/
def reachesPower (num den : Nat) (k : Int) : Bool :=
  if 0 ≤ k then den * Nat.pow 10 k.toNat ≤ num else den ≤ num * Nat.pow 10 (-k).toNat

/-- The largest power of ten that is not above `num / den`, from an estimate that is at most so
much too high. -/
def leadingPower (num den : Nat) : (tries : Nat) → (k : Int) → Int
  | 0, k => k
  | tries + 1, k => if reachesPower num den k then k else leadingPower num den tries (k - 1)

/-- The value `d · 10 ^ k` as a numerator over `den`, when both are scaled by `10 ^ (-k)` for a
negative `k`: the pair of the scaled numerators of the value and of `d`. -/
def onGrid (num den : Nat) (k : Int) : Nat × Nat :=
  if 0 ≤ k then (num, den * Nat.pow 10 k.toNat) else (num * Nat.pow 10 (-k).toNat, den)

/-- The shortest digits: for one digit, then two, and so on, the two neighbours of the value on the
grid of that many digits are tried; the value, and the ends of the interval that rounds to it, are
`num`, `low` and `high` over `den`. -/
def digitsFrom (num low high den : Nat) (closed : Bool) (top : Int) :
    (tries : Nat) → (count : Nat) → Nat × Int
  | 0, count => (((onGrid num den (top - count + 1)).1) / ((onGrid num den (top - count + 1)).2),
      top - count + 1)
  | tries + 1, count =>
    let k := top - count + 1
    let (v, unit) := onGrid num den k
    let lo := (onGrid low den k).1
    let hi := (onGrid high den k).1
    let d := v / unit
    let inside (x : Nat) : Bool :=
      if closed then lo ≤ x * unit && x * unit ≤ hi else lo < x * unit && x * unit < hi
    let below := inside d
    let above := inside (d + 1)
    if below ∧ above then
      let rest := 2 * (v % unit)
      if rest < unit ∨ (rest = unit ∧ d % 2 = 0) then (d, k) else (d + 1, k)
    else if below then (d, k)
    else if above then (d + 1, k)
    else digitsFrom num low high den closed top tries (count + 1)

/-- The fewest digits that lead back to `m · 2 ^ q`, and the power of ten of the last of them. -/
def shortest (m : Nat) (q : Int) : Nat × Int :=
  let narrow := m = Nat.pow 2 52 ∧ -1074 < q
  -- everything in quarters of the last binary place
  let (scale, den) : Nat × Nat :=
    if 2 ≤ q then (Nat.pow 2 (q - 2).toNat, 1) else (1, Nat.pow 2 (2 - q).toNat)
  let num := 4 * m * scale
  let low := (4 * m - (if narrow then 1 else 2)) * scale
  let high := (4 * m + 2) * scale
  let estimate := ((num.log2 : Int) - den.log2 + 1) * 30103 / 100000 + 1
  let top := leadingPower num den 4 estimate
  digitsFrom num low high den (m % 2 == 0) top 17 1

/-- A text of decimal digits with a point behind the first one, when there are more. -/
def scientific (digits : List Char) : String :=
  match digits with
  | [] => ""
  | [d] => String.ofList [d]
  | d :: rest => String.ofList (d :: '.' :: rest)

/-- The text of a positive number with the given digits, the last of them at a power of ten. -/
def textOfDigits (d : Nat) (k : Int) : String :=
  let digits := Nat.toDigits 10 d
  -- digits that end in a zero stand for fewer digits
  let kept := (digits.reverse.dropWhile (· == '0')).reverse
  let first := k + digits.length - 1
  if first < -4 ∨ 16 ≤ first then
    let sign := if first < 0 then "-" else "+"
    let size := toString first.natAbs
    scientific kept ++ "e" ++ sign ++ (if size.length < 2 then "0" ++ size else size)
  else if first < 0 then
    "0." ++ String.ofList (List.replicate (-first - 1).toNat '0' ++ kept)
  else
    let whole := (first + 1).toNat
    let front := (kept ++ List.replicate whole '0').take whole
    let back := kept.drop whole
    String.ofList front ++ "." ++ String.ofList (if back.isEmpty then ['0'] else back)

/-- The text of a number. -/
def text : Fraction → String
  | .nan => "nan"
  | .infinite negative => if negative then "-inf" else "inf"
  | .finite negative m q =>
    let sign := if negative then "-" else ""
    if m = 0 then sign ++ "0.0"
    else
      let (d, k) := shortest m q
      sign ++ textOfDigits d k

end Fraction

end HiddenOrder
