import HiddenOrder.Proofs.Ends
import HiddenOrder.Proofs.Hurwitz
import HiddenOrder.Proofs.Jacobi
import HiddenOrder.Proofs.Tuple
import HiddenOrder.Squares.Four
import Mathlib.Tactic.IntervalCases

/-!
# From a quaternion of odd norm to four roots

What a search finds is a quaternion whose norm is the odd part of the number, and the rest is
algebra: the norm multiplies, the power of `1 + i` brings back the power of two, and an associate
with integer coordinates has the same norm.  So the sum that is checked at the end is always right.

* **`power_of_two_restored`** — what is split off a number comes back with the norm.
* **`finish_ok`** — the last step of all searches neither fails nor refuses what it has made.
* `decompose_of_large` — what a decomposition is when there is something to search for.
* **`decompose_ends`** — a decomposition fails only when the search for the quaternion does.
-/

namespace HiddenOrder

/-! ## The power of two -/

/-- **The power of two comes back.**  The closed form of the powers of `1 + i` is their product, so
that exponents add up and the norm doubles with each factor.  A positive number splits into a power
of two and an odd number, in one way only; and a quaternion with the odd number as its norm, times
that power of `1 + i`, has the number itself as its norm. -/
theorem power_of_two_restored [DigitLimit] :
    (∀ e, Gaussian.onePlusIPow e = ⟨1, 1⟩ ^ e ∧ (Gaussian.onePlusIPow e).norm = 2 ^ e) ∧
    (∀ e e', Gaussian.onePlusIPow (e + e') = Gaussian.onePlusIPow e * Gaussian.onePlusIPow e') ∧
    (∀ e : ℤ, 0 ≤ e → Gaussian.onePlusIPowChecked e = .ok (⟨1, 1⟩ ^ e.toNat)) ∧
    ∀ n : ℤ, 0 < n → ∃ e odd : ℕ, splitTwos n = .ok (e, odd) ∧ odd % 2 = 1 ∧ n = 2 ^ e * odd ∧
      (∀ e' odd' : ℕ, odd' % 2 = 1 → n = 2 ^ e' * odd' → e' = e ∧ odd' = odd) ∧
      ∀ h : Hurwitz, h.norm = odd →
        (Hurwitz.ofGaussian (Gaussian.onePlusIPow e) * h).norm = n := by
  refine ⟨fun e => ⟨Gaussian.onePlusIPow_eq_pow e, Gaussian.norm_onePlusIPow e⟩, fun e e' => ?_,
    fun e he => ?_, fun n hn => ?_⟩
  · simp only [Gaussian.onePlusIPow_eq_pow, pow_add]
  · rw [Gaussian.onePlusIPowChecked, if_neg (not_lt.mpr he), Gaussian.onePlusIPow_eq_pow]
  · obtain ⟨hprod, hodd⟩ := oddPart_spec (n := n.toNat) (by omega)
    have hsplit : n = 2 ^ (oddPart n.toNat).1 * ((oddPart n.toNat).2 : ℤ) := by
      rw [← Int.toNat_of_nonneg hn.le]
      exact_mod_cast hprod.symm
    refine ⟨(oddPart n.toNat).1, (oddPart n.toNat).2, ?_, hodd, hsplit, ?_, ?_⟩
    · rw [splitTwos, if_neg (not_le.mpr hn)]
    · intro e' odd' hodd' hn'
      have hother : n.toNat = 2 ^ e' * odd' := by
        have : n = ((2 ^ e' * odd' : ℕ) : ℤ) := by exact_mod_cast hn'
        omega
      rw [hother, oddPart_eq hodd']
      exact ⟨rfl, rfl⟩
    · intro h hnorm
      rw [Hurwitz.norm_mul, Hurwitz.norm_ofGaussian, Gaussian.norm_onePlusIPow, hnorm, ← hsplit]

open Unlimited in
/-- Ninety-six is the fifth power of two times three, and `1 + i + j` has the norm three. -/
theorem power_of_two_restored_ninetySix :
    (0 : ℤ) < 96 ∧ splitTwos 96 = .ok (5, 3) ∧ (Hurwitz.ofInts 1 1 1 0).norm = (3 : ℕ) ∧
      Gaussian.onePlusIPow 5 = ⟨-4, -4⟩ ∧
      (Hurwitz.ofGaussian (Gaussian.onePlusIPow 5) * Hurwitz.ofInts 1 1 1 0).norm = 96 := by
  have hnorm : (Hurwitz.ofInts 1 1 1 0).norm = (3 : ℕ) := by decide
  obtain ⟨-, -, -, hsplit⟩ := power_of_two_restored
  obtain ⟨e, odd, heq, -, -, hunique, hrestored⟩ := hsplit 96 (by decide)
  obtain ⟨rfl, rfl⟩ := hunique 5 3 (by decide) (by decide)
  exact ⟨by decide, heq, hnorm, by decide, hrestored _ hnorm⟩

/-! ## Small numbers -/

lemma norm_smallRoots {odd : ℕ} (hodd : odd % 2 = 1) (hsmall : odd ≤ 8) :
    (smallRoots odd).norm = odd := by
  interval_cases odd <;> first | rfl | omega

/-! ## The last step -/

/-- **The last step neither fails nor refuses what it has made.** -/
theorem finish_ok [DigitLimit] {n : ℤ} {e odd : ℕ} {h : Hurwitz} (hn : 2 ^ e * (odd : ℤ) = n)
    (hnorm : h.norm = odd) : ∃ w, finish n e h = .ok w ∧ w.RootsOf n := by
  obtain ⟨r, i, j, k, hvalue, hsum⟩ := (Hurwitz.ofGaussian (Gaussian.onePlusIPow e) * h).value_ok
  rw [Hurwitz.norm_mul, Hurwitz.norm_ofGaussian, Gaussian.norm_onePlusIPow, hnorm, hn] at hsum
  obtain ⟨w, hw, hroots⟩ := FourInt.of_ok r i j k
  rw [hsum] at hroots
  refine ⟨w, ?_, hroots⟩
  rw [finish, hvalue, ok_bind, hw, ok_bind, if_pos hroots.sum, pure_eq_ok]

/-- An odd part above eight is searched for. -/
lemma decompose_of_large [DigitLimit] {n : ℤ} {e odd : ℕ} (hodd : odd % 2 = 1) (hlarge : 8 < odd)
    (hn : n = 2 ^ e * odd) (find : ℕ → Search Hurwitz) :
    decompose n find = find odd >>= fun h => Search.ofExcept (finish n e h) := by
  have hcast : n = (2 ^ e * odd : ℕ) := by
    rw [hn]
    push_cast
    rfl
  have hpos : 0 < 2 ^ e * odd := Nat.mul_pos (Nat.two_pow_pos e) (by omega)
  have hsplit : oddPart n.toNat = (e, odd) := by
    rw [hcast, Int.toNat_natCast]
    exact oddPart_eq hodd e
  rw [decompose, if_neg (by omega), if_neg (by omega), hsplit]
  dsimp only
  rw [if_neg (by omega)]

/-- **A decomposition fails only when the search for the quaternion does.** -/
theorem decompose_ends [DigitLimit] {n : ℤ} {find : ℕ → Search Hurwitz} {I : SearchState → Prop}
    {E : Error → Prop} (hn : 0 ≤ n)
    (hfind : (oddPart n.toNat).2 % 2 = 1 → 8 < (oddPart n.toNat).2 →
      Ends I (find (oddPart n.toNat).2) (fun h => h.norm = (oddPart n.toNat).2) E) :
    Ends I (decompose n find) (fun w => w.RootsOf n) E := by
  rw [decompose, if_neg (not_lt.mpr hn)]
  by_cases hzero : n = 0
  · rw [if_pos hzero, hzero]
    exact .pure ⟨le_rfl, ⟨le_rfl, le_rfl, le_rfl⟩, rfl⟩
  · rw [if_neg hzero]
    obtain ⟨hprod, hodd⟩ := oddPart_spec (n := n.toNat) (by omega)
    generalize oddPart n.toNat = split at hprod hodd hfind
    obtain ⟨e, odd⟩ := split
    have hn' : 2 ^ e * (odd : ℤ) = n := by
      rw [← Int.toNat_of_nonneg hn, ← hprod]
      push_cast
      rfl
    have hfinish : ∀ h : Hurwitz, h.norm = odd →
        Ends I (Search.ofExcept (finish n e h)) (fun w => w.RootsOf n) E :=
      fun h hnorm => .ofExcept (finish_ok hn' hnorm)
    exact .ite_bind (fun hsmall => .pure (norm_smallRoots hodd hsmall))
      (fun hlarge => hfind hodd (by omega)) hfinish

end HiddenOrder
