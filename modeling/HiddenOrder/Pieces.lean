import HiddenOrder.Error

/-!
# Lists cut into pieces

* **`pieces`** — a list cut into pieces of one size, the last one shorter when it does not come
  out even; `flatten_pieces` puts them together again.
* `chunked` — the same for a size given as an integer, with size zero refused.
-/

namespace HiddenOrder

/-- A list cut into pieces of `size`; no piece for size zero. -/
def pieces {α : Type} (size : Nat) (xs : List α) : List (List α) :=
  if _h : xs = [] ∨ size = 0 then []
  else xs.take size :: pieces size (xs.drop size)
termination_by xs.length
decreasing_by
  have : xs.length ≠ 0 := fun h => _h (Or.inl (List.eq_nil_of_length_eq_zero h))
  have : size ≠ 0 := fun h => _h (Or.inr h)
  simp only [List.length_drop]
  omega

/-- The pieces of a list, one after another, are the list. -/
theorem flatten_pieces {α : Type} {size : Nat} (hs : size ≠ 0) (xs : List α) :
    (pieces size xs).flatten = xs := by
  fun_induction pieces size xs with
  | case1 xs h => simp [h.resolve_right hs]
  | case2 xs h ih => simp [ih]

/-- A list cut into pieces: none of size zero, and no piece at all for a negative size. -/
def chunked {α : Type} (xs : List α) (size : Int) : Except Error (List (List α)) :=
  if size = 0 then .error (.fault .pieceSize) else .ok (pieces size.toNat xs)

end HiddenOrder
