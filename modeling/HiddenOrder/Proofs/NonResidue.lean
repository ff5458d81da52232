import HiddenOrder.Proofs.Draws
import HiddenOrder.Proofs.History
import HiddenOrder.Proofs.Residue
import HiddenOrder.Proofs.Trials
import Mathlib.NumberTheory.LegendreSymbol.Basic

/-!
# The first number that is no square

Modulo a prime `p` of the class one modulo four, every number that is no square gives a square root
of minus one: its power with half the exponent `p - 1` is minus one by Euler's criterion, and its
power with a quarter of that exponent squares to it.  So the search for two squares of `p` draws
numbers until one of them is no square, and that one decides everything that follows.  Of the three
checks on the way only the first one ever rejects, the one that a square does not pass: the root
needs no second look, and neither does the norm of the divisor that is made from it.

* **`powMod_half_eq_iff`** — Euler's criterion, for powers by repeated squaring.
* `rootOfNonResidue`, **`sq_rootOfNonResidue`** — the root, and that it is one.
* `Entropy.Draws` — what a source that does not fail gives below one bound.
* `TriesSquare` — a draw stands for a square.
* `rootFromDraws_of_squares`, `rootFromDraws_of_first` — the course of the search.
* **`primeTwoSquares_first`** — ten squares and nothing, or two squares of `p` from the first number
  that is no square.
-/

namespace HiddenOrder

variable {p : ℕ}

/-! ## Powers modulo a prime -/

section Powers

/-- The remainder `p - 1` is that of minus one. -/
lemma emod_eq_sub_one_iff (hp : 1 ≤ p) (x : ℤ) : x % p = p - 1 ↔ (x : ZMod p) = -1 := by
  have hlast : ((p : ℤ) - 1) % p = p - 1 :=
    Int.emod_eq_of_lt (sub_nonneg.mpr (by exact_mod_cast hp)) (sub_one_lt _)
  have hcast : (((p : ℤ) - 1 : ℤ) : ZMod p) = -1 := by simp
  rw [← hcast, ZMod.intCast_eq_intCast_iff, Int.ModEq, hlast]

/-- **Euler's criterion**: half the exponent `p - 1` tells squares from other numbers. -/
theorem powMod_half_eq_iff (hp : p.Prime) (hodd : p % 2 = 1) {u : ℤ} (hu : (u : ZMod p) ≠ 0) :
    powMod u (((p : ℤ) - 1) / 2).toNat p = p - 1 ↔ ¬IsSquare (u : ZMod p) := by
  have : Fact p.Prime := ⟨hp⟩
  have : Fact (2 < p) := ⟨by have := hp.two_le; omega⟩
  have hhalf : (((p : ℤ) - 1) / 2).toNat = p / 2 := by omega
  rw [powMod_eq, hhalf, emod_eq_sub_one_iff hp.one_le, Int.cast_pow,
    ZMod.euler_criterion p hu]
  constructor
  · intro hneg hone
    exact ZMod.neg_one_ne_one (hneg.symm.trans hone)
  · intro hne
    exact (ZMod.pow_div_two_eq_neg_one_or_one p hu).resolve_left hne

/-- The power of a number with a quarter of the exponent `p - 1`. -/
def rootOfNonResidue (u p : ℤ) : ℤ := powMod u (((p - 1) / 2).toNat / 2) p

/-- **It is a root of minus one** for every number whose power with half the exponent is minus
one. -/
theorem sq_rootOfNonResidue (hclass : p % 4 = 1) {u : ℤ}
    (hu : powMod u (((p : ℤ) - 1) / 2).toNat p = p - 1) :
    rootOfNonResidue u p * rootOfNonResidue u p % p = p - 1 := by
  have hhalf : (((p : ℤ) - 1) / 2).toNat / 2 + (((p : ℤ) - 1) / 2).toNat / 2
      = (((p : ℤ) - 1) / 2).toNat := by
    omega
  rw [rootOfNonResidue, powMod_eq, ← Int.mul_emod, ← pow_add, hhalf, ← powMod_eq, hu]

/-- The divisor made from it has the norm `p`. -/
lemma norm_gaussianOfRoot_of_sq (hp : 0 < p) {r : ℤ} (hr : r * r % p = p - 1) :
    (gaussianOfRoot r p).norm = p :=
  Gaussian.norm_gcd (Int.natCast_pos.mpr hp) (dvd_sq_add_one hr)

end Powers

/-! ## Draws -/

/-- The answers of a source to the draws below a bound: it has one to each of them, below the
bound. -/
def Entropy.Draws [DigitLimit] (source : Entropy) (bound : ℤ) (t : ℕ → ℤ) : Prop :=
  ∀ i, (0 ≤ t i ∧ t i < bound) ∧ source.below bound i = .ok (t i) (i + 1)

lemma Entropy.exists_draws [DigitLimit] {source : Entropy} (h : source.Answers) {bound : ℤ}
    (hbound : 0 < bound) : ∃ t, source.Draws bound t := by
  choose t ht using fun i => Entropy.below_run (i := i) h hbound
  exact ⟨t, ht⟩

/-- The number that is tried with draw `i`, two more than what is drawn, is a square modulo `p`. -/
def TriesSquare (p : ℕ) (t : ℕ → ℤ) (i : ℕ) : Prop := IsSquare ((2 + t i : ℤ) : ZMod p)

section Search

variable {o : Oracles} {t : ℕ → ℤ} {i k trials : ℕ}

/-- No number that is tried is zero modulo `p`, so Euler's criterion applies to all of them. -/
lemma powMod_tried_iff [DigitLimit] (hp : p.Prime) (hodd : p % 2 = 1)
    (ht : o.source.Draws (p - 3) t) :
    powMod (2 + t i) (((p : ℤ) - 1) / 2).toNat p = p - 1 ↔ ¬TriesSquare p t i := by
  refine powMod_half_eq_iff hp hodd ?_
  obtain ⟨⟨hlow, hhigh⟩, -⟩ := ht i
  intro hzero
  rw [ZMod.intCast_zmod_eq_zero_iff_dvd] at hzero
  have := Int.le_of_dvd (by omega) hzero
  omega

/-- A square is passed over. -/
lemma rootFromDraws_step [DigitLimit] (hp : p.Prime) (hodd : p % 2 = 1)
    (ht : o.source.Draws (p - 3) t) (hsquare : TriesSquare p t i) :
    rootFromDraws o p (trials + 1) i = rootFromDraws o p trials (i + 1) := by
  have hne := mt (powMod_tried_iff hp hodd ht).mp (not_not.mpr hsquare)
  rw [rootFromDraws, bind_run_of_ok (ht i).2]
  dsimp only
  rw [if_neg hne]

/-- **Squares alone give nothing**, and each of them costs one draw. -/
lemma rootFromDraws_of_squares [DigitLimit] (hp : p.Prime) (hodd : p % 2 = 1)
    (ht : o.source.Draws (p - 3) t) (hsquares : ∀ k < trials, TriesSquare p t (i + k)) :
    rootFromDraws o p trials i = .ok none (i + trials) := by
  induction trials generalizing i with
  | zero => rfl
  | succ trials ih =>
      have hshift : ∀ k, i + 1 + k = i + (k + 1) := fun k => by omega
      have hfirst : TriesSquare p t i := hsquares 0 (Nat.succ_pos trials)
      have hrest : ∀ k < trials, TriesSquare p t (i + 1 + k) := fun k hk =>
        hshift k ▸ hsquares (k + 1) (Nat.succ_lt_succ hk)
      rw [rootFromDraws_step hp hodd ht hfirst, ih hrest, hshift]

/-- A number that is no square gives the root at once. -/
lemma rootFromDraws_of_not_square [DigitLimit] (hp : p.Prime) (hclass : p % 4 = 1)
    (ht : o.source.Draws (p - 3) t) (hne : ¬TriesSquare p t i) :
    rootFromDraws o p (trials + 1) i = .ok (some (rootOfNonResidue (2 + t i) p)) (i + 1) := by
  have hresidue := (powMod_tried_iff hp (by omega) ht).mpr hne
  have hroot := sq_rootOfNonResidue hclass hresidue
  rw [rootOfNonResidue] at hroot
  rw [rootFromDraws, bind_run_of_ok (ht i).2]
  dsimp only
  rw [if_pos hresidue, if_pos hroot]
  rfl

/-- **The first number that is no square gives the root**, and nothing is drawn after it. -/
lemma rootFromDraws_of_first [DigitLimit] (hp : p.Prime) (hclass : p % 4 = 1)
    (ht : o.source.Draws (p - 3) t) (hk : k < trials) (hsquares : ∀ j < k, TriesSquare p t (i + j))
    (hne : ¬TriesSquare p t (i + k)) :
    rootFromDraws o p trials i
      = .ok (some (rootOfNonResidue (2 + t (i + k)) p)) (i + k + 1) := by
  induction k generalizing i trials with
  | zero =>
      obtain ⟨trials, rfl⟩ : ∃ n, trials = n + 1 := ⟨trials - 1, by omega⟩
      exact rootFromDraws_of_not_square hp hclass ht hne
  | succ k ih =>
      obtain ⟨trials, rfl⟩ : ∃ n, trials = n + 1 := ⟨trials - 1, by omega⟩
      have hshift : ∀ j, i + 1 + j = i + (j + 1) := fun j => by omega
      have hfirst : TriesSquare p t i := hsquares 0 (Nat.succ_pos k)
      have hrest : ∀ j < k, TriesSquare p t (i + 1 + j) := fun j hj =>
        hshift j ▸ hsquares (j + 1) (Nat.succ_lt_succ hj)
      rw [rootFromDraws_step hp (by omega) ht hfirst,
        ih (Nat.lt_of_succ_lt_succ hk) hrest (hshift k ▸ hne), hshift]

/-- When not all of some numbers that are tried are squares, one of them is the first that is
none. -/
lemma exists_first (h : ¬∀ k < trials, TriesSquare p t (i + k)) :
    ∃ k < trials, (∀ j < k, TriesSquare p t (i + j)) ∧ ¬TriesSquare p t (i + k) := by
  classical
  have hsome : ∃ k, k < trials ∧ ¬TriesSquare p t (i + k) := by
    simpa only [not_forall, exists_prop] using h
  obtain ⟨hlt, hne⟩ := Nat.find_spec hsome
  refine ⟨Nat.find hsome, hlt, fun j hj => ?_, hne⟩
  by_contra hsquare
  exact Nat.find_min hsome hj ⟨hj.trans hlt, hsquare⟩

lemma sqrtMinusOne_eq [DigitLimit] (hp : p.Prime) (hclass : p % 4 = 1) :
    sqrtMinusOne o p = rootFromDraws o p nonResidueTrials := by
  have hfive : 5 ≤ p := by
    have := hp.two_le
    omega
  rw [sqrtMinusOne, if_neg (by omega)]

end Search

/-! ## Two squares -/

section Squares

variable {o : Oracles} {t : ℕ → ℤ} {s : SearchState} {lent : List ℕ} {k : ℕ}

lemma primeTwoSquares_of_squares [DigitLimit] (hp : p.Prime) (hclass : p % 4 = 1)
    (ht : o.source.Draws (p - 3) t)
    (hsquares : ∀ k < nonResidueTrials, TriesSquare p t (s.draws + k)) :
    primeTwoSquares o p s = .ok none ⟨s.draws + nonResidueTrials, s.cache⟩ := by
  have hroot : sqrtMinusOne o p s.draws = .ok none (s.draws + nonResidueTrials) := by
    rw [sqrtMinusOne_eq hp hclass]
    exact rootFromDraws_of_squares hp (by omega) ht hsquares
  rw [primeTwoSquares, bind_run_of_ok (Search.draw_run_of_ok hroot)]
  rfl

lemma primeTwoSquares_of_first [DigitLimit] (hp : p.Prime) (hclass : p % 4 = 1)
    (hs : s.cache.gaussians.Holds lent) (ht : o.source.Draws (p - 3) t) (hk : k < nonResidueTrials)
    (hsquares : ∀ j < k, TriesSquare p t (s.draws + j)) (hne : ¬TriesSquare p t (s.draws + k)) :
    ∃ (g : Gaussian) (pool : ScratchPool Gaussian),
      primeTwoSquares o p s = .ok (some g)
        ⟨s.draws + k + 1, { s.cache with gaussians := pool }⟩ ∧
      g.re ^ 2 + g.im ^ 2 = p := by
  have hroot : sqrtMinusOne o p s.draws
      = .ok (some (rootOfNonResidue (2 + t (s.draws + k)) p)) (s.draws + k + 1) := by
    rw [sqrtMinusOne_eq hp hclass]
    exact rootFromDraws_of_first hp hclass ht hk hsquares hne
  refine ⟨_, _, primeTwoSquares_of_root hs hroot, ?_⟩
  rw [sq, sq]
  exact norm_gaussianOfRoot hroot

end Squares

/-- **The first number that is no square decides.**  Let `p` be a prime of the class one modulo
four, and let the source answer to every draw.  When the ten numbers that are tried are squares
modulo `p`, ten draws are made and there is no result; otherwise the search ends with the first of
them that is none, and returns two squares of the sum `p`.  So there is no result only in the first
case: once a power is minus one, neither the root nor the norm of its divisor is rejected.  The pool
may have slots lent elsewhere; after any history of a bundle of caches it has none. -/
theorem primeTwoSquares_first [DigitLimit] {o : Oracles} (hsource : o.source.Answers) (hp : p.Prime)
    (hclass : p % 4 = 1) {s : SearchState} {lent : List ℕ} (hs : s.cache.gaussians.Holds lent) :
    ∃ t, o.source.Draws (p - 3) t ∧
      (∀ s', primeTwoSquares o p s = .ok none s' ↔
        (∀ k < nonResidueTrials, TriesSquare p t (s.draws + k)) ∧
          s' = ⟨s.draws + nonResidueTrials, s.cache⟩) ∧
      (∀ k < nonResidueTrials, (∀ j < k, TriesSquare p t (s.draws + j)) →
        ¬TriesSquare p t (s.draws + k) → ∃ (g : Gaussian) (pool : ScratchPool Gaussian),
          primeTwoSquares o p s = .ok (some g)
            ⟨s.draws + k + 1, { s.cache with gaussians := pool }⟩ ∧
          g.re ^ 2 + g.im ^ 2 = p) ∧
      (∀ u : ℤ, powMod u (((p : ℤ) - 1) / 2).toNat p = p - 1 →
        rootOfNonResidue u p * rootOfNonResidue u p % p = p - 1 ∧
          (gaussianOfRoot (rootOfNonResidue u p) p).norm = p) ∧
      ∀ primeLimit squareLimit history,
        ((SearchCache.ofLimits primeLimit squareLimit).after history).gaussians.Holds [] := by
  have hbound : (0 : ℤ) < p - 3 := by
    have := hp.two_le
    omega
  obtain ⟨t, ht⟩ := Entropy.exists_draws hsource hbound
  refine ⟨t, ht, fun s' => ⟨fun hnone => ?_, ?_⟩, ?_, fun u hu => ?_, ?_⟩
  · have hall : ∀ k < nonResidueTrials, TriesSquare p t (s.draws + k) := by
      by_contra hsome
      obtain ⟨k, hk, hsquares, hne⟩ := exists_first hsome
      obtain ⟨g, pool, hrun, -⟩ := primeTwoSquares_of_first hp hclass hs ht hk hsquares hne
      rw [hrun] at hnone
      cases hnone
    rw [primeTwoSquares_of_squares hp hclass ht hall] at hnone
    cases hnone
    exact ⟨hall, rfl⟩
  · rintro ⟨hall, rfl⟩
    exact primeTwoSquares_of_squares hp hclass ht hall
  · intro k hk hsquares hne
    exact primeTwoSquares_of_first hp hclass hs ht hk hsquares hne
  · have hroot := sq_rootOfNonResidue hclass hu
    exact ⟨hroot, norm_gaussianOfRoot_of_sq hp.pos hroot⟩
  · intro primeLimit squareLimit history
    exact (SearchCache.sound_after primeLimit squareLimit history).gaussians

/-- Oracles whose source answers with the number of the draw. -/
def countingOracles : Oracles := { tapeOracles [] with source := fun i _ => some i }

open Unlimited in
/-- Modulo seventeen two is a square and three is none, so two draws are made. -/
theorem primeTwoSquares_first_seventeen :
    countingOracles.source.Answers ∧ Nat.Prime 17 ∧ 17 % 4 = 1 ∧
      SearchCache.standard.gaussians.Holds [] ∧
      ∃ (g : Gaussian) (pool : ScratchPool Gaussian),
        primeTwoSquares countingOracles (17 : ℕ) ⟨0, .standard⟩
          = .ok (some g) ⟨2, { SearchCache.standard with gaussians := pool }⟩ ∧
        g.re ^ 2 + g.im ^ 2 = (17 : ℕ) := by
  have hanswers : countingOracles.source.Answers := fun i bound _ => Option.some_ne_none _
  have hprime : Nat.Prime 17 := by norm_num
  have hpool : SearchCache.standard.gaussians.Holds [] := ScratchPool.holds_empty 0 _
  obtain ⟨t, ht, -, hfirst, -⟩ :=
    primeTwoSquares_first (s := ⟨0, .standard⟩) hanswers hprime rfl hpool
  have hdraw : ∀ i : ℕ, (i : ℤ) < (17 : ℕ) - 3 → t i = i := by
    intro i hi
    have hrun : countingOracles.source.below ((17 : ℕ) - 3) i = .ok (i : ℤ) (i + 1) :=
      Entropy.below_of_answer (Int.natCast_nonneg i) hi rfl
    rw [(ht i).2] at hrun
    exact (EStateM.Result.ok.inj hrun).1
  refine ⟨hanswers, hprime, rfl, hpool, hfirst 1 (by decide) ?_ ?_⟩
  · intro j hj
    obtain rfl : j = 0 := by omega
    exact ⟨6, by rw [hdraw 0 (by decide)]; decide⟩
  · show ¬IsSquare ((2 + t 1 : ℤ) : ZMod 17)
    rw [hdraw 1 (by decide)]
    decide

end HiddenOrder
