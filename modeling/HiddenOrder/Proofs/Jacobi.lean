import HiddenOrder.Number.Jacobi
import Mathlib.NumberTheory.LegendreSymbol.JacobiSymbol

/-!
# The Jacobi symbol, and what it decides

The symbol is computed without factoring anything: twos are stripped, the operands change places, and
the larger one is reduced.  Each of these steps is a law of the symbol, so what comes out is the
symbol itself, and over an odd prime that is the answer to whether a number is a square.

* `oddPart_spec`, `oddPart_eq` — a number is a power of two times its odd part, and in no other way.
* **`jacobiNat_eq`** — the computation gives the symbol.
* **`jacobi_of_prime`** — over an odd prime it is the Legendre symbol.
* **`jacobi_eq_one_iff`** — when it is one.
-/

open scoped NumberTheorySymbols

namespace HiddenOrder

lemma oddPart_spec {n : ℕ} (hn : 0 < n) :
    2 ^ (oddPart n).1 * (oddPart n).2 = n ∧ (oddPart n).2 % 2 = 1 := by
  fun_induction oddPart n with
  | case1 n h e m heq ih =>
      rw [heq] at ih
      obtain ⟨hprod, hodd⟩ := ih (by omega)
      refine ⟨?_, hodd⟩
      show 2 ^ (e + 1) * m = n
      dsimp only at hprod
      rw [pow_succ, mul_right_comm, hprod]
      omega
  | case2 n h =>
      refine ⟨?_, by omega⟩
      rw [pow_zero, one_mul]

/-- The exponent of two and the odd part are the only ones there are. -/
lemma oddPart_eq {odd : ℕ} (hodd : odd % 2 = 1) (e : ℕ) : oddPart (2 ^ e * odd) = (e, odd) := by
  induction e with
  | zero => rw [pow_zero, one_mul, oddPart, dif_neg (by omega)]
  | succ e ih =>
      have hpos : 0 < 2 ^ e * odd := Nat.mul_pos (Nat.two_pow_pos e) (by omega)
      have htwice : 2 ^ (e + 1) * odd = 2 * (2 ^ e * odd) := by rw [pow_succ']; ring
      rw [htwice, oddPart, dif_pos (by omega), Nat.mul_div_cancel_left _ two_pos, ih]

lemma jacobiSym_two {n : ℕ} (hn : n % 2 = 1) : J(2 | n) = twoSign n := by
  rw [jacobiSym.at_two (Nat.odd_iff.mpr hn), ZMod.χ₈_nat_eq_if_mod_eight, if_neg (by omega), twoSign]

lemma jacobiSym_two_pow {n : ℕ} (hn : n % 2 = 1) (e : ℕ) :
    J(2 ^ e | n) = if e % 2 = 0 then 1 else twoSign n := by
  have hcoprime : Int.gcd 2 n = 1 := Nat.coprime_two_left.mpr (Nat.odd_iff.mpr hn)
  have hsq : J(2 | n) ^ 2 = 1 := jacobiSym.sq_one hcoprime
  rw [jacobiSym.pow_left, ← jacobiSym_two hn]
  obtain ⟨k, rfl | rfl⟩ := Nat.even_or_odd' e
  · rw [pow_mul, hsq, one_pow, if_pos (by omega)]
  · rw [pow_succ, pow_mul, hsq, one_pow, one_mul, if_neg (by omega)]

lemma jacobiSym_swap {m n : ℕ} (hm : m % 2 = 1) (hn : n % 2 = 1) :
    J(m | n) = (if m % 4 = 3 ∧ n % 4 = 3 then -1 else 1) * J(n | m) := by
  rw [← jacobiSym.quadratic_reciprocity_if hm hn]
  split_ifs
  · rw [neg_one_mul]
  · rw [one_mul]

/-- **The computation gives the symbol.** -/
theorem jacobiNat_eq {a n : ℕ} (hn : n % 2 = 1) : jacobiNat a n = J(a | n) := by
  have hmod (a n : ℕ) : J(a | n) = J((a % n : ℕ) | n) := by
    rw [jacobiSym.mod_left, Int.natCast_mod]
  fun_induction jacobiNat a n with
  | case1 a n h =>
      obtain rfl : n = 1 := by omega
      rw [jacobiSym.one_right]
  | case2 a n h split hzero =>
      -- only zero has the odd part zero
      have ha : a % n = 0 := by
        by_contra hne
        have hodd : split.2 % 2 = 1 := (oddPart_spec (Nat.pos_of_ne_zero hne)).2
        omega
      rw [hmod, ha, Nat.cast_zero, jacobiSym.zero_left (by omega)]
  | case3 a n h split hne two swap ih =>
      have ha : 0 < a % n := by
        refine Nat.pos_of_ne_zero fun hzero => hne ?_
        show (oddPart (a % n)).2 = 0
        rw [hzero]
        decide +kernel
      obtain ⟨hprod, hodd⟩ : 2 ^ split.1 * split.2 = a % n ∧ split.2 % 2 = 1 := oddPart_spec ha
      rw [ih hodd, hmod a, ← hprod, Nat.cast_mul, jacobiSym.mul_left, Nat.cast_pow, Nat.cast_ofNat,
        jacobiSym_two_pow hn, jacobiSym_swap hodd hn, mul_assoc]
      simp only [two, swap, dite_eq_ite]

/-- **Over an odd prime** the symbol is that of Legendre. -/
theorem jacobi_of_prime [DigitLimit] {p : ℕ} [Fact p.Prime] (hp : p % 2 = 1) (a : ℤ) :
    jacobi a p = .ok (legendreSym p a) := by
  have hpos : 0 < p := by omega
  have ha : ((a % p).toNat : ℤ) = a % p := Int.toNat_of_nonneg (Int.emod_nonneg _ (by omega))
  rw [jacobi, if_neg (by omega), Int.toNat_natCast, jacobiNat_eq hp, ha, ← jacobiSym.mod_left,
    ← jacobiSym.legendreSym.to_jacobiSym]

/-- **The symbol is one** over an odd prime exactly for the squares other than zero. -/
theorem jacobi_eq_one_iff [DigitLimit] {p : ℕ} [Fact p.Prime] (hp : p % 2 = 1) {a : ℤ} :
    jacobi a p = .ok 1 ↔ (a : ZMod p) ≠ 0 ∧ IsSquare (a : ZMod p) := by
  rw [jacobi_of_prime hp, Except.ok.injEq]
  by_cases hzero : (a : ZMod p) = 0
  · rw [(legendreSym.eq_zero_iff p a).mpr hzero]
    simp [hzero]
  · rw [legendreSym.eq_one_iff p hzero, and_iff_right hzero]

end HiddenOrder
