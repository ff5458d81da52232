import HiddenOrder.Number.Product
import HiddenOrder.Proofs.Outcome
import Mathlib.Algebra.BigOperators.Group.List.Basic
import Mathlib.Tactic.Ring

/-!
# What product trees compute

* **`treeProduct_eq`** — a product tree computes the product of its leaves.
* **`splitProduct_eq`** — so do the trees over the pieces, for every budget.
-/

namespace HiddenOrder

/-- One level of a product tree keeps the product. -/
lemma prod_pairUp (xs : List Int) : (pairUp xs).prod = xs.prod := by
  fun_induction pairUp xs with
  | case1 a b rest ih => rw [List.prod_cons, List.prod_cons, List.prod_cons, ih, mul_assoc]
  | case2 a => rw [mul_one]
  | case3 => rfl

/-- **A product tree computes the product of its leaves.** -/
theorem treeProduct_eq (xs : List Int) : treeProduct xs = xs.prod := by
  fun_induction treeProduct xs with
  | case1 => rfl
  | case2 a => rw [List.prod_singleton]
  | case3 a b rest ih => rw [ih, prod_pairUp]

lemma checkBudget_ok [DigitLimit] {budget : Int} (h : 0 ≤ budget) :
    checkBudget budget = .ok () := by
  rw [checkBudget, if_neg (by omega)]

/-- **The trees over the pieces** compute the same product. -/
theorem splitProduct_eq [DigitLimit] (xs : List Int) {budget : Int} (h : 0 ≤ budget) :
    splitProduct xs budget = .ok xs.prod := by
  have hcount : pieceCount budget.toNat xs.length ≤ xs.length := min_le_right _ _
  rw [splitProduct, checkBudget_ok h, ok_bind]
  generalize pieceCount budget.toNat xs.length = count at hcount
  dsimp only
  split_ifs with hone
  · rw [treeProduct_eq, pure_eq_ok]
  · -- there are two pieces at least, so that none of them is empty
    have hsize : (xs.length + count - 1) / count ≠ 0 := by
      have := Nat.div_le_div_right (c := count) (show count ≤ xs.length + count - 1 by omega)
      rw [Nat.div_self (by omega)] at this
      omega
    rw [treeProduct_eq, funext treeProduct_eq, ← List.prod_flatten, flatten_pieces hsize,
      pure_eq_ok]

end HiddenOrder
