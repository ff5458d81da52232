import HiddenOrder.Accumulator

/-!
# The proofs for all members at once

A proof for each of `n` numbers would take `n²` exponentiations one by one.  A tree takes
`n log n`: the node of a range carries the base raised to the product of all numbers *outside* the
range; its left half gets that raised to the product of the right half, and its right half that
raised to the product of the left one.  A range of one number carries its proof.  Every node writes
into its own range of the list of proofs and nowhere else, so the order in which nodes are worked
off does not matter.

* **`TreeNode`** — a range `[left, right)` with its base.
* **`TreeNode.split`** — the two halves; **`TreeNode.settle`** — the proofs of a range of at most
  two numbers, written into their places.
* **`TreeNode.prove`** — depth first.
* **`TreeNode.fork`** — the topmost levels split off as concurrent tasks, whose number is counted.
* **`TreeNode.proveQueue`** — breadth first, by a list of pending nodes.
* `proveMembership`, `proveMembershipForked`, `proveMembershipQueued` — the proofs of a whole list,
  with its numbers checked first.
-/

namespace HiddenOrder

/-- A range of positions with the base raised to the product of all numbers outside it. -/
structure TreeNode where
  /-- The first position. -/
  left : Nat
  /-- The position after the last one. -/
  right : Nat
  /-- The base. -/
  base : Int
deriving DecidableEq, Repr

namespace TreeNode

/-- How many numbers the range holds. -/
def length (node : TreeNode) : Nat := node.right - node.left

/-- The position at which the range is cut in two. -/
def mid (node : TreeNode) : Nat := (node.left + node.right) / 2

theorem length_left (node : TreeNode) (h : ¬node.length ≤ 2) (base : Int) :
    (⟨node.left, node.mid, base⟩ : TreeNode).length < node.length := by
  simp only [length, mid] at *; omega

theorem length_right (node : TreeNode) (h : ¬node.length ≤ 2) (base : Int) :
    (⟨node.mid, node.right, base⟩ : TreeNode).length < node.length := by
  simp only [length, mid] at *; omega

variable [DigitLimit]

/-- The base raised to the product of the numbers in a range. -/
def absorb (base : Int) (reps : List Int) (left right : Nat) (N : Int) : Except Error Int :=
  Modular.pow base (treeProduct ((reps.take right).drop left)) N

/-- The two halves of a range. -/
def split (node : TreeNode) (reps : List Int) (N : Int) : Except Error (TreeNode × TreeNode) := do
  let leftBase ← absorb node.base reps node.mid node.right N
  let rightBase ← absorb node.base reps node.left node.mid N
  pure (⟨node.left, node.mid, leftBase⟩, ⟨node.mid, node.right, rightBase⟩)

/-- The number at a position. -/
def repAt (reps : List Int) (i : Nat) : Int := reps.getD i 1

/-- The proofs of a range of one or two numbers, written into their places: one number is proved by
the base itself, and each of two by the base raised to the other. -/
def settle (node : TreeNode) (reps : List Int) (N : Int) (proofs : List Int) :
    Except Error (List Int) := do
  if node.length = 1 then pure (proofs.set node.left node.base)
  else
    let first ← Modular.pow node.base (repAt reps (node.left + 1)) N
    let second ← Modular.pow node.base (repAt reps node.left) N
    pure ((proofs.set node.left first).set (node.left + 1) second)

/-! ## Depth first -/

/-- The proofs of a range, written into their places. -/
def prove (node : TreeNode) (reps : List Int) (N : Int) (proofs : List Int) :
    Except Error (List Int) :=
  if _h : node.length ≤ 2 then settle node reps N proofs
  else do
    let leftBase ← absorb node.base reps node.mid node.right N
    let rightBase ← absorb node.base reps node.left node.mid N
    let proofs ← prove ⟨node.left, node.mid, leftBase⟩ reps N proofs
    prove ⟨node.mid, node.right, rightBase⟩ reps N proofs
termination_by node.length
decreasing_by
  · exact length_left node _h _
  · exact length_right node _h _

/-! ## Forked -/

/-- The proofs of a range when its topmost `depth` levels are split off as tasks, and the number of
tasks submitted on the way: two for each split, the base of the left half and then the left half
itself. -/
def fork (reps : List Int) (N : Int) : (depth : Nat) → TreeNode → List Int →
    Except Error (List Int × Nat)
  | 0, node, proofs => do
    let proofs ← prove node reps N proofs
    pure (proofs, 0)
  | depth + 1, node, proofs =>
    if node.length ≤ 2 then do
      let proofs ← prove node reps N proofs
      pure (proofs, 0)
    else do
      let (left, right) ← split node reps N
      let (proofs, submittedRight) ← fork reps N depth right proofs
      let (proofs, submittedLeft) ← fork reps N depth left proofs
      pure (proofs, submittedLeft + submittedRight + 2)

/-! ## Breadth first -/

/-- Pending nodes worked off from the front, the halves of a long range going to the back; so many
nodes are worked off at most. -/
def proveQueue (reps : List Int) (N : Int) : (steps : Nat) → List TreeNode → List Int →
    Except Error (List Int)
  | 0, _, proofs => pure proofs
  | _ + 1, [], proofs => pure proofs
  | steps + 1, node :: rest, proofs =>
    if node.length ≤ 2 then do
      let proofs ← settle node reps N proofs
      proveQueue reps N steps rest proofs
    else do
      let (left, right) ← split node reps N
      proveQueue reps N steps (rest ++ [left, right]) proofs

end TreeNode

/-! ## Ranges given by any integers -/

variable [DigitLimit]

/-- How many positions a range holds; one that ends before it begins has no length. -/
def rangeLength (left right : Int) : Except Error Int :=
  if right < left then .error (.fault .negativeLength) else .ok (right - left)

/-- The position at which a range is cut in two. -/
def rangeMid (left right : Int) : Int := (left + right) / 2

/-! ## Whole lists -/

/-- The node of a whole list. -/
def rootNode (base : Int) (reps : List Int) : TreeNode := ⟨0, reps.length, base⟩

/-- A list with a place for every proof. -/
def blankProofs (reps : List Int) : List Int := List.replicate reps.length 0

/-- A proof for each number, depth first. -/
def proveMembership (base N : Int) (reps : List Int) : Except Error (List Int) := do
  validate base N reps
  if reps.isEmpty then pure []
  else (rootNode base reps).prove reps N (blankProofs reps)

/-- A proof for each number, with `budget` levels forked off. -/
def proveMembershipForked (base N : Int) (reps : List Int) (budget : Int) :
    Except Error (List Int) := do
  checkBudget budget
  validate base N reps
  if reps.isEmpty then pure []
  else
    let (proofs, _) ← TreeNode.fork reps N budget.toNat (rootNode base reps) (blankProofs reps)
    pure proofs

/-- A proof for each number, breadth first.  A tree over `n` numbers has fewer than `2n` nodes. -/
def proveMembershipQueued (base N : Int) (reps : List Int) : Except Error (List Int) := do
  validate base N reps
  if reps.isEmpty then pure []
  else TreeNode.proveQueue reps N (2 * reps.length) [rootNode base reps] (blankProofs reps)

end HiddenOrder
