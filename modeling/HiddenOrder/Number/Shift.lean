import HiddenOrder.Error

/-!
# Shifts

Bounds are powers of two whose exponents come from a security parameter, and a parameter may be
too small for the bound to exist.

* **`shiftLeft`** — a number times a power of two; a negative exponent is refused.
-/

namespace HiddenOrder

/-- The number `x · 2 ^ k`; a negative exponent is a fault. -/
def shiftLeft (x k : Int) : Except Error Int :=
  if k < 0 then .error (.fault .negativeShift) else .ok (x * (Nat.pow 2 k.toNat : Nat))

end HiddenOrder
