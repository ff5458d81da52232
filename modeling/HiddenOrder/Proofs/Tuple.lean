import HiddenOrder.Squares.Tuple
import Mathlib.Algebra.BigOperators.Group.List.Basic
import Mathlib.Data.List.Sort
import Mathlib.Tactic.Linarith

/-!
# Tuples of roots

A decomposition is handed out as the tuple of the absolute values of its roots, in descending order.
Neither the signs nor the order matter to the sum of the squares, so it is the sum that was found.

* `sum_sq_absDescending`, `pairwise_absDescending`, `nonneg_of_mem_absDescending` — the absolute
  values in descending order, of any number of integers.
* `FourInt.RootsOf`, `ThreeInt.RootsOf` — four or three roots of a number, not negative and in
  descending order.
* **`FourInt.of_ok`**, **`ThreeInt.of_ok`** — the tuples that are made are such roots.
-/

namespace HiddenOrder

/-! ## Absolute values in descending order -/

section Descending

variable (values : List ℤ)

lemma insertDescending_eq (x : ℤ) (ys : List ℤ) :
    insertDescending x ys = ys.orderedInsert (· ≥ ·) x := by
  induction ys with
  | nil => rfl
  | cons y ys ih => rw [insertDescending, List.orderedInsert_cons, ih]

lemma absDescending_eq :
    absDescending values = (values.map fun v => (v.natAbs : ℤ)).insertionSort (· ≥ ·) := by
  induction values with
  | nil => rfl
  | cons v values ih =>
      rw [List.map_cons, List.insertionSort_cons, ← ih, ← insertDescending_eq]
      rfl

lemma absDescending_perm : (absDescending values).Perm (values.map fun v => (v.natAbs : ℤ)) := by
  rw [absDescending_eq]
  exact List.perm_insertionSort (· ≥ ·) _

lemma pairwise_absDescending : (absDescending values).Pairwise (· ≥ ·) := by
  rw [absDescending_eq]
  exact List.pairwise_insertionSort (· ≥ ·) _

lemma length_absDescending : (absDescending values).length = values.length := by
  rw [(absDescending_perm values).length_eq, List.length_map]

lemma nonneg_of_mem_absDescending : ∀ v ∈ absDescending values, 0 ≤ v := by
  intro v h
  obtain ⟨u, -, rfl⟩ := List.mem_map.mp ((absDescending_perm values).mem_iff.mp h)
  exact Int.natCast_nonneg _

/-- The squares have the sum that they had. -/
lemma sum_sq_absDescending :
    ((absDescending values).map fun v => v * v).sum = (values.map fun v => v * v).sum := by
  rw [((absDescending_perm values).map _).sum_eq, List.map_map]
  congr 1
  refine List.map_congr_left fun v _ => ?_
  exact Int.natAbs_mul_self' v

end Descending

/-! ## Roots of a number -/

/-- Four roots of `n`: none of them negative, in descending order, with squares that add up to
`n`. -/
structure FourInt.RootsOf (w : FourInt) (n : ℤ) : Prop where
  nonneg : 0 ≤ w.w₄
  descending : w.w₄ ≤ w.w₃ ∧ w.w₃ ≤ w.w₂ ∧ w.w₂ ≤ w.w₁
  sum : w.squareSum = n

/-- Three roots of `n`: none of them negative, in descending order, with squares that add up to
`n`. -/
structure ThreeInt.RootsOf (w : ThreeInt) (n : ℤ) : Prop where
  nonneg : 0 ≤ w.w₃
  descending : w.w₃ ≤ w.w₂ ∧ w.w₂ ≤ w.w₁
  sum : w.squareSum = n

/-- **The absolute values of four integers**, in descending order, have the same squares. -/
theorem FourInt.of_ok (a b c d : ℤ) :
    ∃ w, FourInt.of [a, b, c, d] = .ok w ∧ w.RootsOf (a * a + b * b + c * c + d * d) := by
  obtain ⟨x, y, z, u, hlist⟩ := List.length_eq_four.mp (length_absDescending [a, b, c, d])
  have hsorted := pairwise_absDescending [a, b, c, d]
  have hsum := sum_sq_absDescending [a, b, c, d]
  have hnonneg : 0 ≤ u := nonneg_of_mem_absDescending [a, b, c, d] u (by simp [hlist])
  rw [hlist] at hsorted hsum
  simp only [List.pairwise_cons, List.mem_cons, List.not_mem_nil, or_false] at hsorted
  simp only [List.map_cons, List.map_nil, List.sum_cons, List.sum_nil] at hsum
  obtain ⟨hx, hy, hz, -⟩ := hsorted
  refine ⟨⟨x, y, z, u⟩, ?_, hnonneg, ⟨hz u rfl, hy z (.inl rfl), hx y (.inl rfl)⟩, ?_⟩
  · rw [FourInt.of, hlist, FourInt.ofList]
  · rw [FourInt.squareSum]
    linarith

/-- **The absolute values of three integers**, in descending order, have the same squares. -/
theorem ThreeInt.of_ok (a b c : ℤ) :
    ∃ w, ThreeInt.of [a, b, c] = .ok w ∧ w.RootsOf (a * a + b * b + c * c) := by
  obtain ⟨x, y, z, hlist⟩ := List.length_eq_three.mp (length_absDescending [a, b, c])
  have hsorted := pairwise_absDescending [a, b, c]
  have hsum := sum_sq_absDescending [a, b, c]
  have hnonneg : 0 ≤ z := nonneg_of_mem_absDescending [a, b, c] z (by simp [hlist])
  rw [hlist] at hsorted hsum
  simp only [List.pairwise_cons, List.mem_cons, List.not_mem_nil, or_false] at hsorted
  simp only [List.map_cons, List.map_nil, List.sum_cons, List.sum_nil] at hsum
  obtain ⟨hx, hy, -⟩ := hsorted
  refine ⟨⟨x, y, z⟩, ?_, hnonneg, ⟨hy z rfl, hx y (.inl rfl)⟩, ?_⟩
  · rw [ThreeInt.of, hlist, ThreeInt.ofList]
  · rw [ThreeInt.squareSum]
    linarith

end HiddenOrder
