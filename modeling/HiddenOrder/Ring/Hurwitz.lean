import HiddenOrder.Ring.Gaussian

/-!
# Hurwitz quaternions

The quaternions `r + xi + yj + zk` whose coordinates are all integers or all halves of odd
integers.  The norm multiplies, and a greatest common right divisor of a quaternion and an integer
turns a sum of four squares *divisible* by `n` into one *equal* to `n`.

Coordinates are kept doubled, so that every one of them is an integer and all four have the same
parity.  That the four parities agree is part of the type: nothing that is not a Hurwitz integer
can be written down, and each operation below proves that its result is one.

* **`Hurwitz`** — a Hurwitz integer, by its doubled coordinates.
* `Hurwitz.ofDoubled` — the only way in from arbitrary integers, with mixed parities refused.
* **`Hurwitz.divMod`** — right division `a = q · b + r`: the exact quotient is rounded to the
  nearest integral point and to the nearest half-integral one, and the better of the two is kept.
* **`Hurwitz.gcrd`** — the Euclidean algorithm with that division.
* **`Hurwitz.toLipschitz`** — an associate with integer coordinates.
* **`Hurwitz.value`** — the true coordinates of that associate.
-/

namespace HiddenOrder

/-- A Hurwitz integer, by its doubled coordinates. -/
@[ext]
structure Hurwitz where
  /-- Twice the real coordinate. -/
  r : Int
  /-- Twice the coordinate of `i`. -/
  i : Int
  /-- Twice the coordinate of `j`. -/
  j : Int
  /-- Twice the coordinate of `k`. -/
  k : Int
  /-- The doubled coordinates have one parity. -/
  parity : i % 2 = r % 2 ∧ j % 2 = r % 2 ∧ k % 2 = r % 2
deriving DecidableEq, Repr

namespace Hurwitz

/-- The quaternion with the given doubled coordinates; mixed parities are refused. -/
def ofDoubled [DigitLimit] (r i j k : Int) : Except Error Hurwitz :=
  if h : i % 2 = r % 2 ∧ j % 2 = r % 2 ∧ k % 2 = r % 2 then .ok ⟨r, i, j, k, h⟩
  else .error (refuse (.mixedParity r i j k))

/-- The quaternion with the given integer coordinates. -/
def ofInts (r i j k : Int) : Hurwitz := ⟨2 * r, 2 * i, 2 * j, 2 * k, by omega⟩

/-- The quaternion whose coordinates are the given ones and a half each. -/
def ofHalves (r i j k : Int) : Hurwitz := ⟨2 * r + 1, 2 * i + 1, 2 * j + 1, 2 * k + 1, by omega⟩

/-- A Gaussian integer as a quaternion. -/
def ofGaussian (g : Gaussian) : Hurwitz := ofInts g.re g.im 0 0

/-- The doubled coordinates. -/
def doubled (a : Hurwitz) : List Int := [a.r, a.i, a.j, a.k]

/-- Whether the coordinates are integers. -/
def isLipschitz (a : Hurwitz) : Bool := a.r % 2 == 0

/-- Whether every coordinate is zero. -/
def isZero (a : Hurwitz) : Bool := a.r == 0 && a.i == 0 && a.j == 0 && a.k == 0

instance : Zero Hurwitz := ⟨ofInts 0 0 0 0⟩

instance : One Hurwitz := ⟨ofInts 1 0 0 0⟩

instance : Neg Hurwitz :=
  ⟨fun a => ⟨-a.r, -a.i, -a.j, -a.k, by have := a.parity; omega⟩⟩

instance : Add Hurwitz :=
  ⟨fun a b => ⟨a.r + b.r, a.i + b.i, a.j + b.j, a.k + b.k,
    by have := a.parity; have := b.parity; omega⟩⟩

instance : Sub Hurwitz :=
  ⟨fun a b => ⟨a.r - b.r, a.i - b.i, a.j - b.j, a.k - b.k,
    by have := a.parity; have := b.parity; omega⟩⟩

/-- The conjugate. -/
def conj (a : Hurwitz) : Hurwitz := ⟨a.r, -a.i, -a.j, -a.k, by have := a.parity; omega⟩

/-- The sum of the squares of the true coordinates. -/
def norm (a : Hurwitz) : Int := (a.r * a.r + a.i * a.i + a.j * a.j + a.k * a.k) / 4

/-! ## Multiplication

The product of the doubled coordinates is four times the true one, and half of it is the doubled
product.  Why the half is exact, and why the four halves have one parity, is the content of
`halves_of_products`: write the coordinates as `e + 2x` and `f + 2y`, where `e` and `f` are the two
parities; then each of the four sums is twice a number that is congruent to the same
`e f + e ∑ y + f ∑ x` modulo two.
-/

/-- The four sums of the Hamilton product are twice numbers of one parity. -/
theorem halves_of_products (e f x₁ x₂ x₃ x₄ y₁ y₂ y₃ y₄ : Int) :
    ∃ s t u v w : Int,
      (e + 2 * x₁) * (f + 2 * y₁) - (e + 2 * x₂) * (f + 2 * y₂)
        - (e + 2 * x₃) * (f + 2 * y₃) - (e + 2 * x₄) * (f + 2 * y₄) = 2 * (s + 2 * t) ∧
      (e + 2 * x₁) * (f + 2 * y₂) + (e + 2 * x₂) * (f + 2 * y₁)
        + (e + 2 * x₃) * (f + 2 * y₄) - (e + 2 * x₄) * (f + 2 * y₃) = 2 * (s + 2 * u) ∧
      (e + 2 * x₁) * (f + 2 * y₃) - (e + 2 * x₂) * (f + 2 * y₄)
        + (e + 2 * x₃) * (f + 2 * y₁) + (e + 2 * x₄) * (f + 2 * y₂) = 2 * (s + 2 * v) ∧
      (e + 2 * x₁) * (f + 2 * y₄) + (e + 2 * x₂) * (f + 2 * y₃)
        - (e + 2 * x₃) * (f + 2 * y₂) + (e + 2 * x₄) * (f + 2 * y₁) = 2 * (s + 2 * w) := by
  refine ⟨e * f + e * (y₁ + y₂ + y₃ + y₄) + f * (x₁ + x₂ + x₃ + x₄),
    x₁ * y₁ - x₂ * y₂ - x₃ * y₃ - x₄ * y₄ - e * f - e * (y₂ + y₃ + y₄) - f * (x₂ + x₃ + x₄),
    x₁ * y₂ + x₂ * y₁ + x₃ * y₄ - x₄ * y₃ - e * y₃ - f * x₄,
    x₁ * y₃ - x₂ * y₄ + x₃ * y₁ + x₄ * y₂ - e * y₄ - f * x₂,
    x₁ * y₄ + x₂ * y₃ - x₃ * y₂ + x₄ * y₁ - e * y₂ - f * x₃, ?_, ?_, ?_, ?_⟩ <;> grind

/-- The real sum of the Hamilton product of doubled coordinates. -/
def mulR (a b : Hurwitz) : Int := a.r * b.r - a.i * b.i - a.j * b.j - a.k * b.k

/-- The sum that belongs to `i`. -/
def mulI (a b : Hurwitz) : Int := a.r * b.i + a.i * b.r + a.j * b.k - a.k * b.j

/-- The sum that belongs to `j`. -/
def mulJ (a b : Hurwitz) : Int := a.r * b.j - a.i * b.k + a.j * b.r + a.k * b.i

/-- The sum that belongs to `k`. -/
def mulK (a b : Hurwitz) : Int := a.r * b.k + a.i * b.j - a.j * b.i + a.k * b.r

/-- The doubled coordinates are those of `e + 2x` for the parity `e`. -/
theorem coordinates (a : Hurwitz) : ∃ e x₁ x₂ x₃ x₄ : Int,
    a.r = e + 2 * x₁ ∧ a.i = e + 2 * x₂ ∧ a.j = e + 2 * x₃ ∧ a.k = e + 2 * x₄ := by
  have h := a.parity
  exact ⟨a.r % 2, a.r / 2, a.i / 2, a.j / 2, a.k / 2, by omega, by omega, by omega, by omega⟩

/-- The four sums of the Hamilton product are even, and their halves have one parity. -/
theorem mul_halves (a b : Hurwitz) :
    ∃ s t u v w : Int, mulR a b = 2 * (s + 2 * t) ∧ mulI a b = 2 * (s + 2 * u) ∧
      mulJ a b = 2 * (s + 2 * v) ∧ mulK a b = 2 * (s + 2 * w) := by
  obtain ⟨e, x₁, x₂, x₃, x₄, h₁, h₂, h₃, h₄⟩ := a.coordinates
  obtain ⟨f, y₁, y₂, y₃, y₄, g₁, g₂, g₃, g₄⟩ := b.coordinates
  simpa only [mulR, mulI, mulJ, mulK, h₁, h₂, h₃, h₄, g₁, g₂, g₃, g₄]
    using halves_of_products e f x₁ x₂ x₃ x₄ y₁ y₂ y₃ y₄

theorem mul_parity (a b : Hurwitz) :
    mulI a b / 2 % 2 = mulR a b / 2 % 2 ∧ mulJ a b / 2 % 2 = mulR a b / 2 % 2 ∧
      mulK a b / 2 % 2 = mulR a b / 2 % 2 := by
  obtain ⟨s, t, u, v, w, hr, hi, hj, hk⟩ := mul_halves a b
  omega

instance : Mul Hurwitz :=
  ⟨fun a b => ⟨mulR a b / 2, mulI a b / 2, mulJ a b / 2, mulK a b / 2, mul_parity a b⟩⟩

/-! ## Division -/

/-- Quotient and remainder, `a = q · b + r`, for a divisor that is not zero.  The integral
candidate wins a tie. -/
def divMod (a b : Hurwitz) : Hurwitz × Hurwitz :=
  let num := a * b.conj
  let den := 2 * b.norm
  let q := ofInts (roundDiv num.r den) (roundDiv num.i den) (roundDiv num.j den)
    (roundDiv num.k den)
  let q' := ofHalves (num.r / den) (num.i / den) (num.j / den) (num.k / den)
  let r := a - q * b
  let r' := a - q' * b
  if r'.norm < r.norm then (q', r') else (q, r)

/-- Quotient and remainder, with the zero divisor refused. -/
def divModChecked [DigitLimit] (a b : Hurwitz) : Except Error (Hurwitz × Hurwitz) :=
  if b.norm = 0 then .error (refuse .hurwitzDivision) else .ok (divMod a b)

/-- The Euclidean algorithm for at most so many divisions. -/
def gcrdSteps : (steps : Nat) → Hurwitz → Hurwitz → Hurwitz
  | 0, a, _ => a
  | steps + 1, a, b => if b.isZero then a else gcrdSteps steps b (divMod a b).2

/-- A greatest common right divisor.  Every division at least halves the norm of the second
operand, so the number of its binary digits bounds the number of divisions. -/
def gcrd (a b : Hurwitz) : Hurwitz := gcrdSteps (b.norm.toNat.log2 + 2) a b

/-! ## Integer coordinates -/

/-- The sixteen units `(± 1 ± i ± j ± k) / 2`, plus signs first. -/
def halfUnits : List Hurwitz :=
  [0, -1].flatMap fun r => [0, -1].flatMap fun i => [0, -1].flatMap fun j => [0, -1].map fun k =>
    ofHalves r i j k

/-- An associate with integer coordinates: the quaternion itself, or its product with the first
unit on the right that clears the halves. -/
def toLipschitz [DigitLimit] (a : Hurwitz) : Except Error Hurwitz :=
  if a.isLipschitz then .ok a
  else
    match (halfUnits.map (a * ·)).find? isLipschitz with
    | some b => .ok b
    | none => .error (unverified (.noAssociate a.r a.i a.j a.k))

/-- The true coordinates, of an integral associate when the quaternion has halves. -/
def value [DigitLimit] (a : Hurwitz) : Except Error (List Int) :=
  (toLipschitz a).map fun b => b.doubled.map (· / 2)

/-- The quaternion as a constructor applied to its doubled coordinates. -/
def display (a : Hurwitz) : Wording :=
  spellOut "HurwitzInt.from_doubled(" ")" (a.doubled.map fun n => [.number n])

end Hurwitz

end HiddenOrder
