import HiddenOrder.Proofs.Outcome
import HiddenOrder.Squares.Four

/-!
# What a search for four squares returns

All three searches end in the same place, where the four roots are squared and added up before they
are handed out.  So whatever was found on the way, by whichever worker and from whichever cache,
what is returned is a decomposition.

* **`squareSum_of_decompose`** — for any way of looking.
* **`squareSum_of_lagrange`** — for the search that the range proofs use.
-/

namespace HiddenOrder

variable {n : Int} {w : FourInt} {s s' : SearchState}

/-- Roots are handed out only when their squares add up. -/
lemma squareSum_of_finish [DigitLimit] {e : Nat} {h : Hurwitz} (hfinish : finish n e h = .ok w) :
    w.squareSum = n := by
  rw [finish] at hfinish
  obtain ⟨roots, -, hfinish⟩ := bind_eq_ok.mp hfinish
  obtain ⟨found, -, hfinish⟩ := bind_eq_ok.mp hfinish
  by_cases hsum : found.squareSum = n
  · rw [if_pos hsum] at hfinish
    cases hfinish
    exact hsum
  · rw [if_neg hsum] at hfinish
    cases hfinish

/-- **A decomposition that is returned is one**, however it was looked for. -/
theorem squareSum_of_decompose [DigitLimit] {find : Nat → Search Hurwitz}
    (h : decompose n find s = .ok w s') : w.squareSum = n := by
  rw [decompose] at h
  by_cases hneg : n < 0
  · rw [if_pos hneg] at h
    cases h
  · rw [if_neg hneg] at h
    by_cases hzero : n = 0
    · rw [if_pos hzero] at h
      cases h
      rw [hzero]
      rfl
    · rw [if_neg hzero] at h
      dsimp only at h
      by_cases hsmall : (oddPart n.toNat).2 ≤ 8
      · rw [if_pos hsmall] at h
        obtain ⟨q, _, -, h⟩ := bind_run_eq_ok.mp h
        exact squareSum_of_finish (Search.ofExcept_run_eq_ok.mp h).1
      · rw [if_neg hsmall] at h
        obtain ⟨q, _, -, h⟩ := bind_run_eq_ok.mp h
        exact squareSum_of_finish (Search.ofExcept_run_eq_ok.mp h).1

/-- **What the search for four squares returns are four squares.** -/
theorem squareSum_of_lagrange [DigitLimit] {o : Oracles} {cfg : Settings}
    (h : lagrange o cfg n s = .ok w s') : w.squareSum = n := by
  rw [lagrange] at h
  -- which way the search goes is the only thing that the size of `n` decides
  have hways : ∀ (large : Bool) {s₁ : SearchState},
      (if large then decompose n (largeSearch o cfg n) else decompose n (lagrangeSearch o cfg n)) s₁
        = .ok w s' → w.squareSum = n := by
    intro large s₁ hfound
    cases large with
    | true => exact squareSum_of_decompose hfound
    | false => exact squareSum_of_decompose hfound
  by_cases hpos : 0 < n
  · rw [if_pos hpos] at h
    obtain ⟨large, s₁, -, h⟩ := bind_run_eq_ok.mp h
    exact hways large h
  · rw [if_neg hpos] at h
    exact hways false h

end HiddenOrder
