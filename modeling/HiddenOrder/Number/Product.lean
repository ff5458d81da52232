import HiddenOrder.Error.Message
import HiddenOrder.Pieces

/-!
# Product trees

The exponent of an accumulator is a product of thousands of numbers of the same size.  A tree
keeps the factors of every multiplication balanced, which is what makes the product of many
numbers cheap; the order of multiplication is not observable in the result.

* **`treeProduct`** — neighbours are multiplied, level by level, an odd level being completed
  with a one.
* **`splitProduct`** — the product of the products of at most `2 ^ budget` pieces, which may be
  computed independently of each other.
-/

namespace HiddenOrder

/-- One level of the tree: neighbours multiplied, the last one kept when it has no neighbour. -/
def pairUp : List Int → List Int
  | a :: b :: rest => a * b :: pairUp rest
  | [a] => [a * 1]
  | [] => []

theorem length_pairUp (xs : List Int) : (pairUp xs).length = (xs.length + 1) / 2 := by
  fun_induction pairUp xs with
  | case1 a b rest ih => simp only [List.length_cons, ih]; omega
  | case2 a => simp
  | case3 => simp

/-- The product of a list by a balanced tree; one for the empty list. -/
def treeProduct (xs : List Int) : Int :=
  match xs with
  | [] => 1
  | [a] => a
  | a :: b :: rest => treeProduct (pairUp (a :: b :: rest))
termination_by xs.length
decreasing_by simp only [length_pairUp, List.length_cons]; omega

/-- A negative parallelism budget is refused. -/
def checkBudget [DigitLimit] (budget : Int) : Except Error Unit :=
  if budget < 0 then .error (refuse (.budget budget)) else .ok ()

/-- The number of pieces for a budget: `2 ^ budget`, and never more than there are factors. -/
def pieceCount (budget length : Nat) : Nat := min (Nat.pow 2 (min budget length)) length

/-- The product of a list by way of at most `2 ^ budget` independent parts. -/
def splitProduct [DigitLimit] (xs : List Int) (budget : Int) : Except Error Int := do
  checkBudget budget
  let count := pieceCount budget.toNat xs.length
  if count ≤ 1 then pure (treeProduct xs)
  else
    let size := (xs.length + count - 1) / count
    pure (treeProduct ((pieces size xs).map treeProduct))

end HiddenOrder
