import HiddenOrder.Error.Message

/-!
# Arithmetic modulo N

Everything the library publishes is computed modulo `N`, and every result is the canonical
representative in `[0, N)`: challenges are hashes of decimal texts, so two numbers that are only
congruent would be two different statements.

* **`powMod`** — `b ^ e % n` for a natural exponent, by repeated squaring.
* **`inverse?`** — the inverse of a unit, by the extended Euclidean algorithm.
* `Modular.mul`, `Modular.pow`, `Modular.inverse` — the same with their conditions checked: the
  modulus is at least two, and what has to be inverted is invertible.  A negative exponent is a
  power of the inverse.
-/

namespace HiddenOrder

/-- The residue of `b ^ e` modulo `n`, by repeated squaring. -/
def powMod (b : Int) (e : Nat) (n : Int) : Int :=
  if e = 0 then 1 % n
  else
    let half := powMod (b * b % n) (e / 2) n
    if e % 2 = 0 then half else b * half % n
termination_by e
decreasing_by omega

/-- The Euclidean algorithm on `r₀, r₁`, carrying the coefficients `s₀, s₁` of a first operand
along: the greatest common divisor, and its coefficient. -/
def euclid (r₀ r₁ : Nat) (s₀ s₁ : Int) : Nat × Int :=
  if _h : r₁ = 0 then (r₀, s₀)
  else euclid r₁ (r₀ % r₁) s₁ (s₀ - (r₀ / r₁ : Nat) * s₁)
termination_by r₁
decreasing_by exact Nat.mod_lt _ (Nat.pos_of_ne_zero _h)

/-- The inverse of `a` modulo a positive `n`, if `a` and `n` share no factor. -/
def inverse? (a n : Int) : Option Int :=
  let (g, s) := euclid (a % n).toNat n.toNat 1 0
  if g = 1 then some (s % n) else none

namespace Modular

variable [DigitLimit]

/-- Moduli below two are refused. -/
def checkModulus (N : Int) : Except Error Unit :=
  if N < 2 then .error (refuse (.modulus N)) else .ok ()

/-- The product of two numbers modulo `N`. -/
def mul (a b N : Int) : Except Error Int := do
  checkModulus N
  pure (a * b % N)

/-- A power modulo `N`; a negative exponent asks for the inverse of the base. -/
def pow (base exp N : Int) : Except Error Int := do
  checkModulus N
  if 0 ≤ exp then pure (powMod base exp.toNat N)
  else
    match inverse? base N with
    | some b => pure (powMod b (-exp).toNat N)
    | none => throw (refuse (.baseNotInvertible base N))

/-- The inverse of `a` modulo `N`. -/
def inverse (a N : Int) : Except Error Int := do
  checkModulus N
  match inverse? a N with
  | some b => pure b
  | none => throw (refuse (.notInvertible a N))

/-- The product `∏ bᵢ ^ eᵢ` modulo `N` over a list of pairs, from the left, starting at `acc`. -/
def prodPow (N : Int) : Int → List (Int × Int) → Except Error Int
  | acc, [] => pure acc
  | acc, (b, e) :: rest => do
    let p ← pow b e N
    let acc ← mul acc p N
    prodPow N acc rest

/-- The product of the powers of several bases modulo `N`; one for no base at all. -/
def multiPow (bases exponents : List Int) (N : Int) : Except Error Int :=
  if bases.length ≠ exponents.length then
    .error (refuse (.lengths bases.length exponents.length))
  else prodPow N 1 (bases.zip exponents)

end Modular

end HiddenOrder
