import HiddenOrder.Error.Message

/-!
# The Jacobi symbol

A generator of the subgroup of squares has to be a square modulo both prime factors, and the
Jacobi symbol decides that for each of them without a discrete logarithm.

* **`jacobiNat`** — the symbol of a natural number over an odd one, by reciprocity: twos are
  stripped first, then the operands change places.
* `jacobi` — the symbol of an integer, with even and non-positive moduli refused.
-/

namespace HiddenOrder

/-- The exponent of two in a number, and its odd part; zero is its own odd part. -/
def oddPart (n : Nat) : Nat × Nat :=
  if _h : n ≠ 0 ∧ n % 2 = 0 then
    let (e, m) := oddPart (n / 2)
    (e + 1, m)
  else (0, n)
termination_by n
decreasing_by omega

theorem oddPart_le (n : Nat) : (oddPart n).2 ≤ n := by
  fun_induction oddPart n with
  | case1 n h e m heq ih => simp only [heq] at ih; omega
  | case2 n h => exact Nat.le_refl n

/-- The sign of two over an odd modulus. -/
def twoSign (n : Nat) : Int := if n % 8 = 1 ∨ n % 8 = 7 then 1 else -1

/-- The Jacobi symbol of `a` over an odd `n`. -/
def jacobiNat (a n : Nat) : Int :=
  if _h : n ≤ 1 then 1
  else
    let split := oddPart (a % n)
    if split.2 = 0 then 0
    else
      let two := if split.1 % 2 = 0 then 1 else twoSign n
      let swap : Int := if split.2 % 4 = 3 ∧ n % 4 = 3 then -1 else 1
      two * swap * jacobiNat n split.2
termination_by n
decreasing_by
  have : a % n < n := Nat.mod_lt _ (by omega)
  have := oddPart_le (a % n)
  omega

/-- The Jacobi symbol of an integer over an odd positive one. -/
def jacobi [DigitLimit] (a n : Int) : Except Error Int :=
  if n ≤ 0 ∨ n % 2 = 0 then .error (refuse (.jacobiModulus n))
  else .ok (jacobiNat (a % n).toNat n.toNat)

end HiddenOrder
