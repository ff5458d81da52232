import HiddenOrder.Number.Sieve
import HiddenOrder.Proofs.Root
import Mathlib.Data.Nat.Prime.Basic
import Mathlib.Data.List.Sort
import Mathlib.Tactic.Ring
import Mathlib.Tactic.SplitIfs

/-!
# The sieve finds the primes

A position stands for a number prime to six, and products of such numbers have positions again.  The
two progressions that a round strikes out are together the positions of the multiples `k · m` with
`m ≥ k`.  A round for a number that is struck out already would add nothing, since its multiples are
multiples of an earlier number too; so after `r` rounds the flags that are left are those of the
numbers that are no such multiple for any of the first `r` positions, whether a round was skipped or
not.  With the square root reached, these are the primes.

* `wheel_div_three`, `wheel_of_coprime` — numbers and their positions.
* **`Sieve.struckBy_iff`** — the two progressions are the multiples from the square on.
* **`Sieve.left_of_rounds`** — what is left after so many rounds.
* `Sieve.getD_run` — the flags at the end are those of the primes.
* **`primesBelow_lists`** — the sieve lists the primes below a bound, in order.
-/

namespace HiddenOrder

/-! ## Numbers and their positions -/

lemma wheel_mod_six (i : ℕ) : wheel i % 6 = 1 ∨ wheel i % 6 = 5 := by
  rw [wheel]
  omega

lemma wheel_div_three (i : ℕ) : wheel i / 3 = i := by
  rw [wheel]
  omega

/-- A number prime to six is found back at a third of itself. -/
lemma wheel_of_coprime {v : ℕ} (hv : v % 6 = 1 ∨ v % 6 = 5) : wheel (v / 3) = v := by
  rw [wheel]
  omega

lemma wheel_strictMono : StrictMono wheel := by
  intro i j hij
  rw [wheel, wheel]
  omega

lemma mul_mod_six {v w : ℕ} (hv : v % 6 = 1 ∨ v % 6 = 5) (hw : w % 6 = 1 ∨ w % 6 = 5) :
    (v * w) % 6 = 1 ∨ (v * w) % 6 = 5 := by
  rw [Nat.mul_mod]
  rcases hv with hv | hv <;> rcases hw with hw | hw <;> simp [hv, hw]

/-- The factors of a number prime to six are prime to six. -/
lemma mod_six_of_mul {v w : ℕ} (h : v * w % 6 = 1 ∨ v * w % 6 = 5) : v % 6 = 1 ∨ v % 6 = 5 := by
  have hresidues : ∀ a < 6, ∀ b < 6, a * b % 6 = 1 ∨ a * b % 6 = 5 → a = 1 ∨ a = 5 := by decide
  rw [Nat.mul_mod] at h
  exact hresidues _ (Nat.mod_lt v (by decide)) _ (Nat.mod_lt w (by decide)) h

lemma wheel_eq_mul_iff (i l j : ℕ) : wheel j = wheel i * wheel l ↔ j = wheel i * wheel l / 3 := by
  constructor
  · intro h
    rw [← h, wheel_div_three]
  · rintro rfl
    exact wheel_of_coprime (mul_mod_six (wheel_mod_six i) (wheel_mod_six l))

/-- The positions are those of the numbers below the bound. -/
lemma lt_wheelSize_iff (n j : ℕ) : j < wheelSize n ↔ wheel j < n := by
  rw [wheelSize, wheel]
  split_ifs <;> omega

namespace Sieve

/-! ## Striking out -/

section Strike

variable {flags : Array Bool} {start stride j : ℕ}

@[simp]
lemma size_strike (start stride count : ℕ) (flags : Array Bool) :
    (strike start stride count flags).size = flags.size := by
  induction count generalizing start flags with
  | zero => rfl
  | succ count ih =>
      rw [strike]
      split_ifs
      · rw [ih, Array.size_set!]
      · rfl

lemma lt_size_of_getD (h : flags.getD j false = true) : j < flags.size := by
  by_contra hge
  rw [Array.getD_eq_getD_getElem?, Array.getElem?_eq_none (not_lt.mp hge)] at h
  cases h

lemma getD_set_false (flags : Array Bool) (i j : ℕ) :
    (flags.set! i false).getD j false = true ↔ flags.getD j false = true ∧ j ≠ i := by
  rw [Array.set!_eq_setIfInBounds, Array.getD_eq_getD_getElem?, Array.getD_eq_getD_getElem?,
    Array.getElem?_setIfInBounds]
  by_cases hij : i = j
  · subst hij
    by_cases hi : i < flags.size
    · simp [hi]
    · simp [hi]
  · rw [if_neg hij, and_iff_left (Ne.symm hij)]

/-- **A progression is struck out**, and nothing else. -/
theorem getD_strike {count : ℕ} (hcount : flags.size ≤ start + count) (hstride : 0 < stride) :
    (strike start stride count flags).getD j false = true ↔
      flags.getD j false = true ∧ ∀ t, j ≠ start + t * stride := by
  -- no flag is left to strike once the progression has passed the end
  have hpast {flags : Array Bool} {start : ℕ} (hend : flags.size ≤ start) :
      flags.getD j false = true ↔
        flags.getD j false = true ∧ ∀ t, j ≠ start + t * stride := by
    refine ⟨fun h => ⟨h, fun t => ?_⟩, And.left⟩
    have := lt_size_of_getD h
    omega
  induction count generalizing start flags with
  | zero =>
      rw [strike]
      exact hpast hcount
  | succ count ih =>
      rw [strike]
      split_ifs with hstart
      · have hrest : (flags.set! start false).size ≤ start + stride + count := by
          rw [Array.size_set!]
          omega
        refine (ih hrest).trans ?_
        rw [getD_set_false, and_assoc]
        refine and_congr_right fun _ => ⟨?_, ?_⟩
        · rintro ⟨hfirst, hrest⟩ t
          cases t with
          | zero => rwa [zero_mul, add_zero]
          | succ t =>
              have := hrest t
              rwa [add_mul, one_mul, add_comm (t * stride), ← add_assoc]
        · intro h
          refine ⟨by simpa using h 0, fun t => ?_⟩
          have := h (t + 1)
          rwa [add_mul, one_mul, add_comm (t * stride), ← add_assoc] at this
      · exact hpast (not_lt.mp hstart)

end Strike

/-! ## One round -/

/-- The number at a position is a multiple `k · m` of the one at position `i`, with `m ≥ k`. -/
def StruckBy (i j : ℕ) : Prop := ∃ l, i ≤ l ∧ wheel j = wheel i * wheel l

/-- **The two progressions** are the positions of the multiples from the square on. -/
theorem struckBy_iff {i j : ℕ} :
    StruckBy i j ↔ (∃ t, j = wheel i * wheel i / 3 + t * (2 * wheel i)) ∨
      ∃ t, j = (wheel i * wheel i + 4 * wheel i - 2 * wheel i * (i % 2)) / 3
        + t * (2 * wheel i) := by
  -- a step of six in the factor is a step of the stride in the position
  have hstep (v t : ℕ) : wheel i * (v + 6 * t) / 3 = wheel i * v / 3 + t * (2 * wheel i) := by
    rw [show wheel i * (v + 6 * t) = wheel i * v + t * (2 * wheel i) * 3 by ring,
      Nat.add_mul_div_right _ _ (by decide)]
  have hother : wheel i * wheel (i + 1)
      = wheel i * wheel i + 4 * wheel i - 2 * wheel i * (i % 2) := by
    rcases Nat.mod_two_eq_zero_or_one i with hi | hi
    · rw [show wheel (i + 1) = wheel i + 4 by rw [wheel, wheel]; omega, hi, mul_zero, Nat.sub_zero]
      ring
    · rw [show wheel (i + 1) = wheel i + 2 by rw [wheel, wheel]; omega, hi, mul_one,
        show 4 * wheel i = 2 * wheel i + 2 * wheel i by ring, ← add_assoc, Nat.add_sub_cancel]
      ring
  rw [← hother]
  constructor
  · rintro ⟨l, hil, hl⟩
    rw [wheel_eq_mul_iff] at hl
    obtain ⟨t, rfl | rfl⟩ : ∃ t, l = i + 2 * t ∨ l = i + 1 + 2 * t := ⟨(l - i) / 2, by omega⟩
    · refine .inl ⟨t, ?_⟩
      rw [hl, show wheel (i + 2 * t) = wheel i + 6 * t by rw [wheel, wheel]; omega, hstep]
    · refine .inr ⟨t, ?_⟩
      rw [hl, show wheel (i + 1 + 2 * t) = wheel (i + 1) + 6 * t by rw [wheel, wheel]; omega, hstep]
  · rintro (⟨t, rfl⟩ | ⟨t, rfl⟩)
    · refine ⟨i + 2 * t, by omega, (wheel_eq_mul_iff _ _ _).mpr ?_⟩
      rw [show wheel (i + 2 * t) = wheel i + 6 * t by rw [wheel, wheel]; omega, hstep]
    · refine ⟨i + 1 + 2 * t, by omega, (wheel_eq_mul_iff _ _ _).mpr ?_⟩
      rw [show wheel (i + 1 + 2 * t) = wheel (i + 1) + 6 * t by rw [wheel, wheel]; omega, hstep]

lemma wheel_pos (i : ℕ) : 0 < wheel i := by
  rw [wheel]
  omega

lemma getD_strikeMultiples (flags : Array Bool) (i j : ℕ) :
    (strikeMultiples i flags).getD j false = true ↔
      flags.getD j false = true ∧ ¬StruckBy i j := by
  have hstride : 0 < 2 * wheel i := Nat.mul_pos (by decide) (wheel_pos i)
  rw [strikeMultiples, getD_strike (by rw [size_strike]; omega) hstride,
    getD_strike (by omega) hstride, struckBy_iff, not_or, not_exists, not_exists, and_assoc]

lemma size_round (flags : Array Bool) (i : ℕ) : (round flags i).size = flags.size := by
  rw [round, strikeMultiples]
  split_ifs
  · rw [size_strike, size_strike]
  · rfl

/-! ## All rounds -/

/-- What is left after `r` rounds: the positions, apart from that of one, whose numbers are no
multiples of those at the first `r` positions, one again excepted. -/
def LeftAfter (size r j : ℕ) : Prop :=
  (j < size ∧ 0 < j) ∧ ∀ i, 0 < i → i < r → ¬StruckBy i j

lemma leftAfter_succ {size r j : ℕ} :
    LeftAfter size (r + 1) j ↔ LeftAfter size r j ∧ (0 < r → ¬StruckBy r j) := by
  constructor
  · rintro ⟨hj, h⟩
    exact ⟨⟨hj, fun i hi hir => h i hi (by omega)⟩, fun hr => h r hr (by omega)⟩
  · rintro ⟨⟨hj, h⟩, hr⟩
    refine ⟨hj, fun i hi hir => ?_⟩
    rcases Nat.lt_succ_iff_lt_or_eq.mp hir with hlt | rfl
    · exact h i hi hlt
    · exact hr hi

/-- A multiple of a multiple is struck by the earlier number. -/
lemma StruckBy.trans {i r j : ℕ} (hr : StruckBy i r) (hj : StruckBy r j) :
    StruckBy i j := by
  obtain ⟨l, hil, hl⟩ := hr
  obtain ⟨m, hrm, hm⟩ := hj
  have hprod := mul_mod_six (wheel_mod_six l) (wheel_mod_six m)
  refine ⟨wheel l * wheel m / 3, ?_, ?_⟩
  · rw [← wheel_strictMono.le_iff_le, wheel_of_coprime hprod]
    calc wheel i ≤ wheel l := wheel_strictMono.monotone hil
      _ ≤ wheel l * wheel m := Nat.le_mul_of_pos_right _ (wheel_pos m)
  · rw [wheel_of_coprime hprod, hm, hl, mul_assoc]

/-- **A round for a number that was struck out already would add nothing**, so it makes no
difference that it is skipped. -/
theorem left_of_round {flags : Array Bool} {size r : ℕ}
    (h : ∀ j, flags.getD j false = true ↔ LeftAfter size r j) (j : ℕ) :
    (round flags r).getD j false = true ↔ LeftAfter size (r + 1) j := by
  rw [leftAfter_succ, round]
  split_ifs with hflag
  · have hr : 0 < r := ((h r).mp hflag).1.2
    rw [getD_strikeMultiples, h, imp_iff_right hr]
  · rw [h, iff_self_and]
    intro hj hr hstruck
    have hrj : r ≤ j := by
      obtain ⟨l, -, hl⟩ := hstruck
      rw [← wheel_strictMono.le_iff_le, hl]
      exact Nat.le_mul_of_pos_right _ (wheel_pos l)
    rw [h] at hflag
    refine hflag ⟨⟨by have := hj.1.1; omega, hr⟩, fun i hi hir hstruck' => ?_⟩
    exact hj.2 i hi hir (hstruck'.trans hstruck)

/-- **What is left after all rounds.** -/
theorem left_of_rounds (size r j : ℕ) :
    ((List.range r).foldl round ((Array.replicate size true).set! 0 false)).getD j false = true ↔
      LeftAfter size r j := by
  induction r generalizing j with
  | zero =>
      rw [List.range_zero, List.foldl_nil, getD_set_false, Array.getD_eq_getD_getElem?,
        Array.getElem?_replicate]
      simp only [LeftAfter, Nat.not_lt_zero, false_imp_iff, imp_true_iff, and_true]
      refine and_congr ?_ Nat.pos_iff_ne_zero.symm
      split_ifs with hj <;> simp [hj]
  | succ r ih =>
      rw [List.range_succ, List.foldl_append, List.foldl_cons, List.foldl_nil]
      exact left_of_round ih j

/-! ## The primes -/

/-- A number that is left once the rounds have reached its root is prime. -/
lemma prime_of_left {size r j : ℕ} (h : LeftAfter size r j) (hr : Nat.sqrt (wheel j) / 3 < r) :
    (wheel j).Prime := by
  by_contra hprime
  obtain ⟨⟨-, hj⟩, hleft⟩ := h
  have hone : wheel j ≠ 1 := by
    rw [wheel]
    omega
  -- the least factor and its cofactor are prime to six as well
  obtain ⟨m, hm⟩ := Nat.minFac_dvd (wheel j)
  have hminFac := Nat.minFac_prime hone
  have hproduct : (wheel j).minFac * m % 6 = 1 ∨ (wheel j).minFac * m % 6 = 5 :=
    hm ▸ wheel_mod_six j
  have hfactor := wheel_of_coprime (mod_six_of_mul hproduct)
  have hcofactor := wheel_of_coprime (mod_six_of_mul (mul_comm _ m ▸ hproduct))
  have hle : (wheel j).minFac ≤ m := by
    have h := Nat.minFac_le_div (wheel_pos j) hprime
    rwa [Nat.div_eq_of_eq_mul_right hminFac.pos hm] at h
  have hsqrt : (wheel j).minFac ≤ Nat.sqrt (wheel j) := by
    rw [Nat.le_sqrt]
    calc (wheel j).minFac * (wheel j).minFac ≤ (wheel j).minFac * m := Nat.mul_le_mul_left _ hle
      _ = wheel j := hm.symm
  have hpos : 0 < (wheel j).minFac / 3 := by
    have := mod_six_of_mul hproduct
    have := hminFac.two_le
    omega
  refine hleft ((wheel j).minFac / 3) hpos (by omega) ⟨m / 3, by omega, ?_⟩
  rw [hfactor, hcofactor, ← hm]

/-- A prime is never struck out. -/
lemma left_of_prime {size j : ℕ} (r : ℕ) (hj : j < size) (h : (wheel j).Prime) :
    LeftAfter size r j := by
  refine ⟨⟨hj, Nat.pos_of_ne_zero ?_⟩, ?_⟩
  · rintro rfl
    exact Nat.not_prime_one h
  · rintro i hi - ⟨l, hil, hl⟩
    have hone {v : ℕ} (hv : 0 < v) : wheel v ≠ 1 := by
      rw [wheel]
      omega
    exact Nat.not_prime_mul (hone hi) (hone (by omega)) (hl ▸ h)

/-- **The flags that are left** are those of the primes. -/
theorem getD_run (n j : ℕ) :
    (run n).getD j false = true ↔ wheel j < n ∧ (wheel j).Prime := by
  rw [run, left_of_rounds, ← lt_wheelSize_iff, sqrt_eq]
  constructor
  · intro h
    have hlt := (lt_wheelSize_iff n j).mp h.1.1
    have hsqrt := Nat.sqrt_le_sqrt hlt.le
    exact ⟨h.1.1, prime_of_left h (by omega)⟩
  · rintro ⟨hj, hprime⟩
    exact left_of_prime _ hj hprime

lemma size_run (n : ℕ) : (run n).size = wheelSize n := by
  have hrounds (flags : Array Bool) (is : List ℕ) : (is.foldl round flags).size = flags.size := by
    induction is generalizing flags with
    | nil => rfl
    | cons i is ih => rw [List.foldl_cons, ih, size_round]
  rw [run, hrounds, Array.size_set!, Array.size_replicate]

end Sieve

/-- A prime other than two and three is at a position. -/
lemma exists_wheel_of_prime {p : ℕ} (hp : p.Prime) (h₂ : p ≠ 2) (h₃ : p ≠ 3) :
    ∃ j, wheel j = p := by
  refine ⟨p / 3, wheel_of_coprime ?_⟩
  have htwo : ¬2 ∣ p := fun h => h₂ ((Nat.prime_dvd_prime_iff_eq Nat.prime_two hp).mp h).symm
  have hthree : ¬3 ∣ p := fun h => h₃ ((Nat.prime_dvd_prime_iff_eq Nat.prime_three hp).mp h).symm
  omega

/-- What a position contributes to the list. -/
lemma mem_found {n p : ℕ} :
    p ∈ ((List.range (wheelSize n)).filter fun j => (Sieve.run n).getD j false).map wheel ↔
      p < n ∧ p.Prime ∧ 3 < p := by
  simp only [List.mem_map, List.mem_filter, List.mem_range, Sieve.getD_run, lt_wheelSize_iff]
  constructor
  · rintro ⟨j, ⟨hlt, -, hprime⟩, rfl⟩
    have := hprime.one_lt
    have := wheel_mod_six j
    exact ⟨hlt, hprime, by omega⟩
  · rintro ⟨hlt, hprime, hp⟩
    obtain ⟨j, rfl⟩ := exists_wheel_of_prime hprime (by omega) (by omega)
    exact ⟨j, ⟨hlt, hlt, hprime⟩, rfl⟩

/-- The list of a bound above five, before it is cut off at the bound. -/
lemma primesBelow_of_le {n : ℤ} (hn : 6 ≤ n) :
    primesBelow n = (2 :: 3 :: ((List.range (wheelSize n.toNat)).filter
      fun j => (Sieve.run n.toNat).getD j false).map wheel).filter (· < n.toNat) := by
  rw [primesBelow, if_neg (by omega)]
  dsimp only
  rw [if_neg (by omega), Sieve.size_run]

/-- The list of a bound up to five. -/
lemma primesBelow_of_lt {n : ℤ} (hn : n < 6) :
    primesBelow n = [2, 3, 5].filter (· < n.toNat) := by
  rw [primesBelow]
  dsimp only
  split_ifs with htwo hsix
  · rw [eq_comm, List.filter_eq_nil_iff]
    intro p hp
    have : 2 ≤ p := by
      revert p
      decide
    rw [decide_eq_true_eq]
    omega
  · rfl
  · omega

/-- The members of the list are the primes below the bound. -/
lemma mem_primesBelow {n : ℤ} {p : ℕ} : p ∈ primesBelow n ↔ (p : ℤ) < n ∧ p.Prime := by
  by_cases hn : n < 6
  · have hsmall : ∀ p < 6, p.Prime ↔ p ∈ [2, 3, 5] := by decide
    rw [primesBelow_of_lt hn, List.mem_filter, decide_eq_true_eq]
    constructor
    · rintro ⟨hp, hlt⟩
      exact ⟨by omega, (hsmall p (by omega)).mpr hp⟩
    · rintro ⟨hlt, hprime⟩
      exact ⟨(hsmall p (by omega)).mp hprime, by omega⟩
  · rw [primesBelow_of_le (by omega), List.mem_filter, decide_eq_true_eq, List.mem_cons,
      List.mem_cons, mem_found]
    constructor
    · rintro ⟨rfl | rfl | ⟨-, hprime, -⟩, hlt⟩
      · exact ⟨by omega, Nat.prime_two⟩
      · exact ⟨by omega, Nat.prime_three⟩
      · exact ⟨by omega, hprime⟩
    · rintro ⟨hlt, hprime⟩
      refine ⟨?_, by omega⟩
      have := hprime.two_le
      have h : p = 2 ∨ p = 3 ∨ 3 < p := by omega
      rcases h with h | h | h
      · exact .inl h
      · exact .inr (.inl h)
      · exact .inr (.inr ⟨by omega, hprime, h⟩)

/-- The list is in order. -/
lemma pairwise_primesBelow (n : ℤ) : (primesBelow n).Pairwise (· < ·) := by
  by_cases hn : n < 6
  · rw [primesBelow_of_lt hn]
    exact List.Pairwise.filter _ (by decide : [2, 3, 5].Pairwise (· < ·))
  · rw [primesBelow_of_le (by omega)]
    refine List.Pairwise.filter _ (List.pairwise_cons.mpr ⟨?_, List.pairwise_cons.mpr ⟨?_, ?_⟩⟩)
    · intro p hp
      rcases List.mem_cons.mp hp with rfl | hp
      · decide
      · have := (mem_found.mp hp).2.2
        omega
    · exact fun p hp => (mem_found.mp hp).2.2
    · exact (List.pairwise_lt_range.filter _).map wheel fun i j hij => wheel_strictMono hij

/-- **The sieve lists the primes** below a bound, whichever integer that is: each of them, nothing
else, and in strictly ascending order. -/
theorem primesBelow_lists (n : ℤ) :
    (primesBelow n).Pairwise (· < ·) ∧
      ∀ p : ℕ, p ∈ primesBelow n ↔ p.Prime ∧ 2 ≤ p ∧ (p : ℤ) < n := by
  refine ⟨pairwise_primesBelow n, fun p => ?_⟩
  rw [mem_primesBelow]
  constructor
  · rintro ⟨hlt, hprime⟩
    exact ⟨hprime, hprime.two_le, hlt⟩
  · rintro ⟨hprime, -, hlt⟩
    exact ⟨hlt, hprime⟩

/-- The square of a prime is struck out by the last round. -/
example : primesBelow 26 = [2, 3, 5, 7, 11, 13, 17, 19, 23] := by decide +kernel

end HiddenOrder
