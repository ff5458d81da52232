import HiddenOrder.Cache.Squares
import Mathlib.Data.Nat.Sqrt
import Mathlib.Tactic.Lemma

/-!
# Integer square roots, and the search for two squares

Newton's iteration that the library uses is that of the standard library, from the same start.  The
search for a decomposition into two squares descends from the root, one candidate for the larger
square after another; it passes none by, and stops only where the larger square would be the smaller
one.

* **`sqrt_eq`**, `isSquare_iff` — the root and the test for a square.
* **`twoSquareRoots_isSome_iff`** — the search finds a decomposition exactly when there is one.
* `LargestRoots`, **`largestRoots_of_twoSquareRoots`**, **`twoSquareRoots_eq_none_iff`** — the one
  that it finds has the largest root, and there is none when it finds none, among the squares of all
  integers.
-/

namespace HiddenOrder

/-! ## Roots -/

lemma newton_eq (n x : ℕ) : newton n x = Nat.sqrt.iter n x := by
  fun_induction newton n x with
  | case1 x y hlt ih =>
      rw [Nat.sqrt.iter]
      exact ih.trans (if_pos hlt).symm
  | case2 x y hge =>
      rw [Nat.sqrt.iter]
      exact (if_neg hge).symm

/-- **The root** is the integer part of the square root. -/
theorem sqrt_eq (n : ℕ) : sqrt n = Nat.sqrt n := by
  match n with
  | 0 => rfl
  | 1 => cbv
  | n + 2 =>
      rw [sqrt, if_neg (by omega), newton_eq, Nat.sqrt, if_neg (by omega), Nat.one_shiftLeft]
      rfl

/-- Twice the half of the root is not above the root. -/
lemma sq_two_mul_half_sqrt_le {n : ℤ} (hn : 0 ≤ n) :
    (2 * (sqrt n.toNat / 2 : ℕ) : ℤ) * (2 * (sqrt n.toNat / 2 : ℕ)) ≤ n := by
  have hroot := Nat.sqrt_le n.toNat
  rw [← sqrt_eq] at hroot
  have hle : 2 * (sqrt n.toNat / 2) ≤ sqrt n.toNat := Nat.mul_div_le _ 2
  have hsquare := Nat.le_trans (Nat.mul_le_mul hle hle) hroot
  calc (2 * (sqrt n.toNat / 2 : ℕ) : ℤ) * (2 * (sqrt n.toNat / 2 : ℕ))
      ≤ (n.toNat : ℤ) := by exact_mod_cast hsquare
    _ = n := Int.toNat_of_nonneg hn

lemma isSquare_iff {n : ℕ} : isSquare n = true ↔ ∃ y, y * y = n := by
  rw [isSquare, Int.toNat_natCast, sqrt_eq, Bool.and_eq_true, decide_eq_true_eq, decide_eq_true_eq,
    and_iff_right (Int.natCast_nonneg n)]
  exact Nat.exists_mul_self n |>.symm

/-! ## Two squares -/

variable {m a x y : ℕ}

/-- What the search finds is a decomposition. -/
lemma eq_of_twoSquareRoots (ha : a * a ≤ m) (h : twoSquareRoots m a = some (x, y)) :
    x * x + y * y = m := by
  induction a with
  | zero =>
      rw [twoSquareRoots] at h
      split_ifs at h with hm
      cases h
      exact hm.symm
  | succ a ih =>
      rw [twoSquareRoots] at h
      split_ifs at h with hhalf hsquare
      · cases h
        obtain ⟨y, hy⟩ := isSquare_iff.mp hsquare
        rw [sqrt_eq, ← hy, Nat.sqrt_eq]
        omega
      · exact ih (le_trans (Nat.mul_le_mul a.le_succ a.le_succ) ha) h

/-- The second root is not the larger one. -/
lemma le_of_twoSquareRoots (h : twoSquareRoots m a = some (x, y)) : y ≤ x := by
  induction a with
  | zero =>
      rw [twoSquareRoots] at h
      split_ifs at h with hm
      cases h
      exact le_rfl
  | succ a ih =>
      rw [twoSquareRoots] at h
      split_ifs at h with hhalf hsquare
      · cases h
        rw [sqrt_eq]
        calc Nat.sqrt (m - (a + 1) * (a + 1)) ≤ Nat.sqrt ((a + 1) * (a + 1)) :=
              Nat.sqrt_le_sqrt (by omega)
          _ = a + 1 := Nat.sqrt_eq (a + 1)
      · exact ih h

/-- Where the rest is no square, the root is that of no decomposition. -/
lemma le_of_not_isSquare (hm : x * x + y * y = m) (hxa : x ≤ a + 1)
    (hsquare : ¬isSquare (m - (a + 1) * (a + 1) : ℕ) = true) : x ≤ a := by
  by_contra hlt
  obtain rfl : x = a + 1 := by omega
  exact hsquare (isSquare_iff.mpr ⟨y, by omega⟩)

/-- What the search finds is the decomposition with the largest root in reach. -/
lemma largest_of_twoSquareRoots {u v : ℕ} (h : twoSquareRoots m a = some (x, y))
    (hm : u * u + v * v = m) (hua : u ≤ a) : u ≤ x := by
  induction a with
  | zero => omega
  | succ a ih =>
      rw [twoSquareRoots] at h
      split_ifs at h with hhalf hsquare
      · cases h
        exact hua
      · exact ih h (le_of_not_isSquare hm hua hsquare)

/-- No decomposition whose larger root is in reach is passed by. -/
lemma isSome_of_decomposition (hm : x * x + y * y = m) (hyx : y ≤ x) (hxa : x ≤ a) :
    (twoSquareRoots m a).isSome := by
  induction a with
  | zero =>
      obtain rfl : x = 0 := by omega
      obtain rfl : y = 0 := by omega
      rw [twoSquareRoots, if_pos hm.symm]
      rfl
  | succ a ih =>
      have hy : y * y ≤ x * x := Nat.mul_le_mul hyx hyx
      have hx : x * x ≤ (a + 1) * (a + 1) := Nat.mul_le_mul hxa hxa
      rw [twoSquareRoots]
      rw [if_neg (by omega)]
      split_ifs with hsquare
      · rfl
      · exact ih (le_of_not_isSquare hm hxa hsquare)

/-- **The search finds a decomposition** into two squares exactly when there is one. -/
theorem twoSquareRoots_isSome_iff :
    (twoSquareRoots m (sqrt m)).isSome ↔ ∃ x y, x * x + y * y = m := by
  rw [sqrt_eq]
  constructor
  · intro h
    obtain ⟨⟨x, y⟩, hxy⟩ := Option.isSome_iff_exists.mp h
    exact ⟨x, y, eq_of_twoSquareRoots (Nat.sqrt_le m) hxy⟩
  · rintro ⟨x, y, hm⟩
    rcases Nat.le_total y x with hyx | hxy
    · exact isSome_of_decomposition hm hyx (Nat.le_sqrt.mpr (by omega))
    · rw [Nat.add_comm] at hm
      exact isSome_of_decomposition hm hxy (Nat.le_sqrt.mpr (by omega))

/-! ## Two squares of an integer -/

section Integers

variable {m : ℤ} {a b : ℕ}

/-- Signs do not matter to a sum of squares. -/
lemma natAbs_sq_add_sq {x y : ℤ} (hm : x * x + y * y = m) :
    x.natAbs * x.natAbs + y.natAbs * y.natAbs = m.toNat := by
  rw [← Int.natAbs_mul_self' x, ← Int.natAbs_mul_self' y] at hm
  rw [← hm]
  rfl

/-- The numbers `a ≥ b` are roots of `m`, and no decomposition of `m` has a larger one. -/
structure LargestRoots (m : ℤ) (a b : ℕ) : Prop where
  descending : b ≤ a
  sum : (a * a + b * b : ℤ) = m
  largest : ∀ x y : ℤ, x * x + y * y = m → x ≤ a

/-- **What is found has the largest root**, in all decompositions into squares of integers. -/
theorem largestRoots_of_twoSquareRoots (hm : 0 ≤ m)
    (h : twoSquareRoots m.toNat (sqrt m.toNat) = some (a, b)) : LargestRoots m a b := by
  rw [sqrt_eq] at h
  refine ⟨le_of_twoSquareRoots h, ?_, fun x y hxy => ?_⟩
  · have hsum := eq_of_twoSquareRoots (Nat.sqrt_le _) h
    omega
  · have hnat := natAbs_sq_add_sq hxy
    have hx := largest_of_twoSquareRoots h hnat (Nat.le_sqrt.mpr (by omega))
    omega

/-- **Nothing is found** exactly when the number is no sum of two squares. -/
theorem twoSquareRoots_eq_none_iff (hm : 0 ≤ m) :
    twoSquareRoots m.toNat (sqrt m.toNat) = none ↔ ¬∃ x y : ℤ, x * x + y * y = m := by
  rw [← Option.not_isSome_iff_eq_none, twoSquareRoots_isSome_iff]
  refine not_congr ⟨?_, ?_⟩
  · rintro ⟨x, y, hxy⟩
    exact ⟨x, y, by omega⟩
  · rintro ⟨x, y, hxy⟩
    exact ⟨_, _, natAbs_sq_add_sq hxy⟩

end Integers

end HiddenOrder
