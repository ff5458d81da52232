import HiddenOrder.Error.Message

/-!
# Gaussian integers

The ring `ℤ[i]`, where a prime that is one more than a multiple of four stops being prime: it is
`(A + Bi)(A - Bi)`, and `A² + B²` is the sum of two squares the searches are after.  A greatest
common divisor finds `A + Bi`, so the ring comes with its Euclidean division.

* **`Gaussian`** — a Gaussian integer.
* **`roundDiv`** — the integer nearest to a quotient, halves going away from zero.
* **`Gaussian.divMod`** — quotient and remainder: each coordinate of the exact quotient is rounded,
  so the norm of the remainder is at most half that of the divisor.
* **`Gaussian.gcd`** — the Euclidean algorithm.
* **`Gaussian.onePlusIPow`** — the powers of `1 + i`, in closed form.
-/

namespace HiddenOrder

/-- The integer nearest to `n / d`; a half goes away from zero. -/
def roundDiv (n d : Int) : Int :=
  let q := Int.fdiv n.natAbs d
  let rem := Int.fmod n.natAbs d
  let q := if d ≤ 2 * rem then q + 1 else q
  if 0 ≤ n then q else -q

/-- The integer nearest to `n / d`, with division by zero refused. -/
def roundDivChecked (n d : Int) : Except Error Int :=
  if d = 0 then .error (.fault .divisionByZero) else .ok (roundDiv n d)

/-- The Gaussian integer `re + im · i`. -/
@[ext]
structure Gaussian where
  /-- The real part. -/
  re : Int
  /-- The imaginary part. -/
  im : Int
deriving DecidableEq, Repr

namespace Gaussian

instance : Zero Gaussian := ⟨⟨0, 0⟩⟩

instance : One Gaussian := ⟨⟨1, 0⟩⟩

instance : Neg Gaussian := ⟨fun a => ⟨-a.re, -a.im⟩⟩

instance : Add Gaussian := ⟨fun a b => ⟨a.re + b.re, a.im + b.im⟩⟩

instance : Sub Gaussian := ⟨fun a b => ⟨a.re - b.re, a.im - b.im⟩⟩

instance : Mul Gaussian :=
  ⟨fun a b => ⟨a.re * b.re - a.im * b.im, a.re * b.im + a.im * b.re⟩⟩

/-- The complex conjugate. -/
def conj (a : Gaussian) : Gaussian := ⟨a.re, -a.im⟩

/-- The square of the absolute value. -/
def norm (a : Gaussian) : Int := a.re * a.re + a.im * a.im

/-- Whether both parts are zero. -/
def isZero (a : Gaussian) : Bool := a.re == 0 && a.im == 0

/-! ## Division -/

/-- Quotient and remainder, `a = b · q + r`, for a divisor that is not zero. -/
def divMod (a b : Gaussian) : Gaussian × Gaussian :=
  let num := a * b.conj
  let q : Gaussian := ⟨roundDiv num.re b.norm, roundDiv num.im b.norm⟩
  (q, a - b * q)

/-- Quotient and remainder, with the zero divisor refused. -/
def divModChecked [DigitLimit] (a b : Gaussian) : Except Error (Gaussian × Gaussian) :=
  if b.norm = 0 then .error (refuse .gaussianDivision) else .ok (divMod a b)

/-- The Euclidean algorithm for at most so many divisions. -/
def gcdSteps : (steps : Nat) → Gaussian → Gaussian → Gaussian
  | 0, a, _ => a
  | steps + 1, a, b => if b.isZero then a else gcdSteps steps b (divMod a b).2

/-- A greatest common divisor.  Every division at least halves the norm of the second operand, so
the number of its binary digits bounds the number of divisions. -/
def gcd (a b : Gaussian) : Gaussian := gcdSteps (b.norm.toNat.log2 + 2) a b

/-! ## Powers of `1 + i` -/

/-- The unit `i ^ k`. -/
def iPow (k : Nat) : Gaussian :=
  match k % 4 with
  | 0 => ⟨1, 0⟩
  | 1 => ⟨0, 1⟩
  | 2 => ⟨-1, 0⟩
  | _ => ⟨0, -1⟩

/-- The power `(1 + i) ^ e`: because `(1 + i)² = 2i`, it is `2 ^ (e / 2) · i ^ (e / 2)`, once more
times `1 + i` when `e` is odd. -/
def onePlusIPow (e : Nat) : Gaussian :=
  let scale : Int := (Nat.pow 2 (e / 2) : Nat)
  let unit := iPow (e / 2)
  let even : Gaussian := ⟨unit.re * scale, unit.im * scale⟩
  if e % 2 = 0 then even else even * ⟨1, 1⟩

/-- The power `(1 + i) ^ e`, with negative exponents refused. -/
def onePlusIPowChecked [DigitLimit] (e : Int) : Except Error Gaussian :=
  if e < 0 then .error (refuse (.negativePower e)) else .ok (onePlusIPow e.toNat)

/-! ## Texts -/

/-- The number as a sum, as in `3 - 4i`. -/
def text (a : Gaussian) : Wording :=
  [a.re, if 0 ≤ a.im then " + " else " - ", a.im.natAbs, "i"]

/-- The number as a constructor applied to its parts. -/
def display (a : Gaussian) : Wording := ["GaussianInt(", a.re, ", ", a.im, ")"]

end Gaussian

end HiddenOrder
