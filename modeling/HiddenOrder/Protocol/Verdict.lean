import HiddenOrder.Error

/-!
# Verdicts

A verifier computes with numbers that an adversary has chosen.  When a computation refuses one of
them, because it has no inverse, the proof is not accepted; that is a verdict and no failure.

* **`refuted`** — a refused input as the verdict "not accepted"; other failures stay failures.
-/

namespace HiddenOrder

/-- A verdict in which a refused input counts as "not accepted". -/
def refuted (verdict : Except Error Bool) : Except Error Bool :=
  match verdict with
  | .error (.precondition _) => .ok false
  | other => other

end HiddenOrder
