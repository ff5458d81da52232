import HiddenOrder.Entropy
import HiddenOrder.Proofs.Outcome

/-!
# Draws from a source that answers

A source may fail, and then so does every computation that draws from it.  From a source that does
not, a draw in a range that is not empty always comes, lies in the range, and is one draw.

* `Entropy.Answers` — the source does not fail.
* **`Entropy.range_run`** — a draw in a closed interval.
* `Entropy.bounds_of_below`, **`Entropy.bounds_of_range`**, `Entropy.lt_of_bits` — what any source
  gives when it does not fail.
* `Entropy.below_of_answer`, `Entropy.range_of_answer` — the answer that gives a certain number.
-/

namespace HiddenOrder

namespace Entropy

/-- The source has an answer to every draw below a positive bound. -/
def Answers (source : Entropy) : Prop := ∀ i bound, 0 < bound → source i bound ≠ none

variable {source : Entropy} {i : Nat}

lemma take_run (h : source.Answers) {bound : Nat} (hbound : 0 < bound) :
    ∃ t, t < bound ∧ source.take bound i = .ok t (i + 1) := by
  obtain ⟨answer, hanswer⟩ := Option.ne_none_iff_exists'.mp (h i bound hbound)
  have hlt : answer % (bound : Int) < bound := Int.emod_lt_of_pos _ (by omega)
  have hnonneg : 0 ≤ answer % (bound : Int) := Int.emod_nonneg _ (by omega)
  refine ⟨(answer % (bound : Int)).toNat, by omega, ?_⟩
  have hnext : source.next bound i = .ok (some (answer % (bound : Int)).toNat) (i + 1) := by
    rw [next, hanswer, Option.map_some]
  rw [take]
  exact bind_run_of_ok hnext

variable [DigitLimit]

lemma below_run (h : source.Answers) {bound : Int} (hbound : 0 < bound) :
    ∃ t, (0 ≤ t ∧ t < bound) ∧ source.below bound i = .ok t (i + 1) := by
  obtain ⟨t, ht, htake⟩ := take_run (i := i) h (show 0 < bound.toNat by omega)
  refine ⟨t, ⟨by omega, by omega⟩, ?_⟩
  rw [below, if_neg (by omega)]
  exact bind_run_of_ok htake

/-- **A draw in a closed interval** that is not empty. -/
theorem range_run (h : source.Answers) {low high : Int} (hle : low ≤ high) :
    ∃ v, (low ≤ v ∧ v ≤ high) ∧ source.range low high i = .ok v (i + 1) := by
  obtain ⟨t, ht, hbelow⟩ := below_run (i := i) h (show 0 < high - low + 1 by omega)
  refine ⟨low + t, ⟨by omega, by omega⟩, ?_⟩
  rw [range, if_neg (by omega)]
  exact bind_run_of_ok hbelow

/-! ## Draws from any source -/

omit [DigitLimit] in
lemma lt_of_take {bound t j : Nat} (hbound : 0 < bound) (h : source.take bound i = .ok t j) :
    t < bound := by
  rw [take] at h
  obtain ⟨answer, i₁, hnext, h⟩ := bind_run_eq_ok.mp h
  cases answer with
  | none => cases h
  | some t' =>
      cases h
      rw [next] at hnext
      cases hsource : source i bound with
      | none => simp [hsource] at hnext
      | some v =>
          have := Int.emod_lt_of_pos v (show (0 : Int) < bound by omega)
          simp only [hsource, Option.map_some, EStateM.Result.ok.injEq, Option.some.injEq] at hnext
          omega

/-- What is drawn below a bound lies there. -/
lemma bounds_of_below {bound t : Int} {j : Nat} (h : source.below bound i = .ok t j) :
    0 ≤ t ∧ t < bound := by
  rw [below] at h
  by_cases hempty : bound ≤ 0
  · rw [if_pos hempty] at h
    cases h
  · rw [if_neg hempty] at h
    obtain ⟨u, i₁, htake, h⟩ := bind_run_eq_ok.mp h
    cases h
    have := lt_of_take (by omega) htake
    omega

/-- **What is drawn in a closed interval** lies in it. -/
theorem bounds_of_range {low high v : Int} {j : Nat} (h : source.range low high i = .ok v j) :
    low ≤ v ∧ v ≤ high := by
  rw [range] at h
  by_cases hempty : high < low
  · rw [if_pos hempty] at h
    cases h
  · rw [if_neg hempty] at h
    obtain ⟨t, i₁, hbelow, h⟩ := bind_run_eq_ok.mp h
    cases h
    have := bounds_of_below hbelow
    omega

/-- What is drawn with so many bits has no more of them. -/
lemma lt_of_bits {k : Nat} {t : Int} {j : Nat} (h : source.bits k i = .ok t j) :
    t.toNat < Nat.pow 2 k := by
  rw [bits] at h
  by_cases hzero : (k : Int) ≤ 0
  · rw [if_pos hzero] at h
    cases h
  · rw [if_neg hzero] at h
    obtain ⟨u, i₁, htake, h⟩ := bind_run_eq_ok.mp h
    cases h
    exact lt_of_take (Nat.pow_pos Nat.two_pos) htake

/-- A source that answers with a number below the bound gives that number. -/
lemma below_of_answer {bound v : Int} (hnonneg : 0 ≤ v) (hlt : v < bound)
    (h : source i bound.toNat = some v) : source.below bound i = .ok v (i + 1) := by
  have hmod : v % (bound.toNat : Int) = v := Int.emod_eq_of_lt hnonneg (by omega)
  have hnext : source.next bound.toNat i = .ok (some v.toNat) (i + 1) := by
    rw [next, h, Option.map_some, hmod]
  have htake : source.take bound.toNat i = .ok v.toNat (i + 1) := by
    rw [take]
    exact bind_run_of_ok hnext
  rw [below, if_neg (by omega)]
  refine (bind_run_of_ok htake).trans ?_
  rw [pure_run, Int.toNat_of_nonneg hnonneg]

/-- A source that answers with the distance from the lower end gives every number of an interval. -/
theorem range_of_answer {low high v : Int} (hlow : low ≤ v) (hhigh : v ≤ high)
    (h : source i (high - low + 1).toNat = some (v - low)) :
    source.range low high i = .ok v (i + 1) := by
  have hbelow : source.below (high - low + 1) i = .ok (v - low) (i + 1) :=
    below_of_answer (by omega) (by omega) h
  rw [range, if_neg (by omega)]
  refine (bind_run_of_ok hbelow).trans ?_
  rw [pure_run, show low + (v - low) = v by omega]

end Entropy

end HiddenOrder
