import HiddenOrder.Proofs.ScratchPool
import Mathlib.Algebra.Squarefree.Basic
import Mathlib.RingTheory.Coprime.Lemmas
import Mathlib.RingTheory.Int.Basic
import Mathlib.Tactic.NormNum.Prime

/-!
# What a prime candidate is worth

A trial draws a candidate, and its two checks could reject what was made of a good one: the Gaussian
divisor might not have the norm `p`, and the divisor with the odd number `m` might not have the norm
`m`.  They never do.  The norm of the quaternion is a multiple of `m` by the choice of the candidate;
and no factor of `m` divides the quaternion, because `m` is odd and the squares of the last two
coordinates have a squarefree sum, which is one in one search and the auxiliary prime in the other.
So a trial whose candidate is prime costs nothing but the search for a root, and composite `m`,
squares among its factors or not, need no second look.

* **`Hurwitz.primitive_of_squarefree`** — no odd number divides the quaternion.
* `gaussianOfRoot` — the divisor that a root of minus one gives; **`norm_gaussianOfRoot`**.
* `primeTwoSquares_of_root`, `divisorOfNorm_of_norm` — what is handed out once the root, or the norm
  of the divisor, is there.
* **`norm_gcrd_of_candidate`**, **`norm_gcrd_of_primes`** — the norms of the two divisors.
* `Yields` — a trial hands out a quaternion of the norm that is sought.
* **`trials_yield`** — it does so for every prime candidate with a root, in both searches.
-/

namespace HiddenOrder

/-! ## Primitive quaternions -/

namespace Hurwitz

variable {a b c d k m : ℤ}

lemma isCoprime_two (hm : m % 2 = 1) (hdvd : k ∣ m) : IsCoprime k 2 := by
  obtain ⟨e, rfl⟩ := hdvd
  have hodd : k % 2 = 1 := Int.odd_iff.mp (Int.odd_mul.mp (Int.odd_iff.mpr hm)).1
  exact ⟨1, -(k / 2), by omega⟩

lemma eq_one_of_isUnit (hk : 0 < k) (hunit : IsUnit k) : k = 1 := by
  rcases Int.isUnit_iff.mp hunit with h | h
  · exact h
  · omega

/-- An odd factor of a quaternion divides the integers that its coordinates are. -/
lemma dvd_coordinates (hcoprime : IsCoprime k 2) (hfactor : ∃ x, ofInts a b c d = k • x) :
    k ∣ a ∧ k ∣ b ∧ k ∣ c ∧ k ∣ d := by
  obtain ⟨x, hx⟩ := hfactor
  obtain ⟨hr, hi, hj, hk⟩ := zsmul_coordinates k x
  rw [← hx] at hr hi hj hk
  exact ⟨hcoprime.dvd_of_dvd_mul_left ⟨x.r, hr⟩, hcoprime.dvd_of_dvd_mul_left ⟨x.i, hi⟩,
    hcoprime.dvd_of_dvd_mul_left ⟨x.j, hj⟩, hcoprime.dvd_of_dvd_mul_left ⟨x.k, hk⟩⟩

/-- **No odd number divides a quaternion whose last two coordinates have squares with a squarefree
sum.** -/
theorem primitive_of_squarefree (hm : m % 2 = 1) (hl : Squarefree (c * c + d * d)) (hk : 0 < k)
    (hdvd : k ∣ m) (hfactor : ∃ x, ofInts a b c d = k • x) : k = 1 := by
  obtain ⟨-, -, hc, hd⟩ := dvd_coordinates (isCoprime_two hm hdvd) hfactor
  exact eq_one_of_isUnit hk (hl k (dvd_add (mul_dvd_mul hc hc) (mul_dvd_mul hd hd)))

end Hurwitz

/-! ## Runs of one step -/

variable {o : Oracles} {s : SearchState} {odd : ℕ}

lemma Search.gaussians_run {α : Type} (use : ScratchPool Gaussian → α × ScratchPool Gaussian)
    (s : SearchState) : Search.gaussians use s = .ok (use s.cache.gaussians).1
      ⟨s.draws, { s.cache with gaussians := (use s.cache.gaussians).2 }⟩ := rfl

lemma Search.quaternions_run {α : Type} (use : ScratchPool Hurwitz → α × ScratchPool Hurwitz)
    (s : SearchState) : Search.quaternions use s = .ok (use s.cache.quaternions).1
      ⟨s.draws, { s.cache with quaternions := (use s.cache.quaternions).2 }⟩ := rfl

/-- A number that is drawn and is no square gives the root at once. -/
lemma sqrtMinusOne_of_nonresidue [DigitLimit] {p t r : ℤ} {i j : ℕ} (hp : ¬(p < 5 ∨ p % 4 ≠ 1))
    (hdraw : o.source.below (p - 3) i = .ok t j)
    (hresidue : powMod (2 + t) ((p - 1) / 2).toNat p = p - 1)
    (hr : powMod (2 + t) (((p - 1) / 2).toNat / 2) p = r) (hroot : r * r % p = p - 1) :
    sqrtMinusOne o p i = .ok (some r) j := by
  rw [sqrtMinusOne, if_neg hp, nonResidueTrials, rootFromDraws, bind_run_of_ok hdraw]
  dsimp only
  rw [if_pos hresidue, hr, if_pos hroot]
  rfl

/-- A drawn number that is prime once its class is one modulo four is taken at once. -/
lemma randomPrimeOneModFour_of_prime [DigitLimit] {bits steps i j : ℕ} {t l : ℤ}
    (hdraw : o.source.bits bits i = .ok t j)
    (hl : ((t.toNat ||| Nat.pow 2 (bits - 1) : ℕ) : ℤ)
      - ((t.toNat ||| Nat.pow 2 (bits - 1) : ℕ) : ℤ) % 4 + 1 = l)
    (hprime : o.isPrime.int l = true) : randomPrimeOneModFour o bits (steps + 1) i = .ok l j := by
  rw [randomPrimeOneModFour, bind_run_of_ok hdraw, hl, if_pos hprime]
  rfl

/-- The Gaussian integer made from a square root of minus one. -/
def gaussianOfRoot (r p : ℤ) : Gaussian := Gaussian.gcd ⟨r, 1⟩ ⟨p, 0⟩

lemma norm_gaussianOfRoot [DigitLimit] {p r : ℤ} {i j : ℕ}
    (hroot : sqrtMinusOne o p i = .ok (some r) j) : (gaussianOfRoot r p).norm = p := by
  have hends := sqrtMinusOne_ends (E := fun _ => True) o trivial p
  have hfound := (hends.of_ok trivial hroot).1 r rfl
  exact Gaussian.norm_gcd (by omega) hfound.2

/-- A root that was found makes a Gaussian integer of norm `p`, and the check of its norm lets it
pass. -/
lemma primeTwoSquares_of_root [DigitLimit] {lent : List ℕ} (hs : s.cache.gaussians.Holds lent)
    {p r : ℤ} {j : ℕ} (hroot : sqrtMinusOne o p s.draws = .ok (some r) j) :
    primeTwoSquares o p s = .ok (some (gaussianOfRoot r p))
      ⟨j, { s.cache with gaussians := (scratchGcd ⟨r, 1⟩ ⟨p, 0⟩ s.cache.gaussians).2 }⟩ := by
  obtain ⟨hgcd, -⟩ := ScratchPool.scratchGcd_ok hs ⟨r, 1⟩ ⟨p, 0⟩
  have hnorm := norm_gaussianOfRoot hroot
  rw [primeTwoSquares, bind_run_of_ok (Search.draw_run_of_ok hroot)]
  dsimp only
  rw [bind_run_of_ok (Search.gaussians_run _ _), hgcd]
  rw [gaussianOfRoot] at hnorm
  rw [pure_run, if_pos hnorm, gaussianOfRoot]

lemma primeTwoSquares_run [DigitLimit] (hs : s.cache.Sound) {p r : ℤ} {j : ℕ}
    (hroot : sqrtMinusOne o p s.draws = .ok (some r) j) :
    ∃ c, primeTwoSquares o p s = .ok (some (gaussianOfRoot r p)) ⟨j, c⟩ ∧ c.Sound :=
  ⟨_, primeTwoSquares_of_root hs.gaussians hroot,
    SearchCache.Sound.kept.gaussians s.cache ⟨r, 1⟩ ⟨p, 0⟩ hs⟩

/-- A divisor of the norm that is sought is handed out, up to a unit that clears its halves. -/
lemma divisorOfNorm_of_norm [DigitLimit] (hs : s.cache.quaternions.Stocked) {h : Hurwitz}
    (hnorm : (Hurwitz.gcrd h (.ofInts odd 0 0 0)).norm = odd) :
    ∃ u, IsUnit u ∧ (Hurwitz.gcrd h (.ofInts odd 0 0 0) * u).isLipschitz = true ∧
      divisorOfNorm h odd s = .ok (some (Hurwitz.gcrd h (.ofInts odd 0 0 0) * u))
        ⟨s.draws, { s.cache with quaternions := (scratchGcrd h odd s.cache.quaternions).2 }⟩ := by
  obtain ⟨u, hu, hrun, hlipschitz⟩ := (Hurwitz.gcrd h (.ofInts odd 0 0 0)).toLipschitz_associate
  refine ⟨u, hu, hlipschitz, ?_⟩
  rw [divisorOfNorm_eq, bind_run_of_ok (Search.quaternions_run _ _),
    ScratchPool.scratchGcrd_of_stocked hs, if_neg (not_not.mpr hnorm), hrun]
  rfl

/-- The trial hands out a quaternion of norm `odd`. -/
def Yields (trial : Search (Option Hurwitz)) (odd : ℕ) (s : SearchState) (j : ℕ) : Prop :=
  ∃ d c, trial s = .ok (some d) ⟨j, c⟩ ∧ d.norm = odd ∧ c.Sound

lemma divisorOfNorm_run [DigitLimit] (hs : s.cache.Sound) {h : Hurwitz}
    (hnorm : (Hurwitz.gcrd h (.ofInts odd 0 0 0)).norm = odd) :
    Yields (divisorOfNorm h odd) odd s s.draws := by
  obtain ⟨u, hu, -, hrun⟩ := divisorOfNorm_of_norm hs.quaternions.stocked hnorm
  refine ⟨_, _, hrun, ?_, SearchCache.Sound.kept.quaternions s.cache h odd hs⟩
  rw [Hurwitz.norm_mul, hnorm, Hurwitz.isUnit_iff_norm.mp hu, mul_one]

/-! ## Norms -/

/-- **The divisor of a candidate one below a multiple.**  With `A² + B² = M · odd · k - 1` the norm
of `A + Bi + j` is a multiple of `odd`. -/
theorem norm_gcrd_of_candidate (hodd : odd % 2 = 1) {g : Gaussian} {M t : ℤ}
    {worker workers : ℕ} (hg : g.norm = lagrangeCandidate (M * odd) worker workers t) :
    (Hurwitz.gcrd (.ofInts g.re g.im 1 0) (.ofInts odd 0 0 0)).norm = odd := by
  refine Hurwitz.norm_gcrd (by omega) ?_ ?_
  · rw [Gaussian.norm, lagrangeCandidate] at hg
    rw [Hurwitz.norm_ofInts]
    exact ⟨M * (t * (2 * workers) + (2 * worker + 1)), by linarith⟩
  · intro k hk hdvd hfactor
    exact Hurwitz.primitive_of_squarefree (by omega) (by simp) hk hdvd hfactor

/-- **The divisor of two primes with a multiple as their sum.**  With `A² + B²` and `C² + D²` the
two primes the norm of `A + Bi + Cj + Dk` is a multiple of `odd`. -/
theorem norm_gcrd_of_primes (hodd : odd % 2 = 1) {ab cd : Gaussian} {M l : ℤ}
    (hl : l.toNat.Prime) (hab : ab.norm = 2 * odd * M - l) (hcd : cd.norm = l) :
    (Hurwitz.gcrd (.ofInts ab.re ab.im cd.re cd.im) (.ofInts odd 0 0 0)).norm = odd := by
  have hprime : Prime cd.norm := by
    have hpos := hl.pos
    rw [hcd, ← Int.toNat_of_nonneg (show 0 ≤ l by omega)]
    exact Nat.prime_iff_prime_int.mp hl
  rw [Gaussian.norm] at hab hcd hprime
  refine Hurwitz.norm_gcrd (by omega) ?_ ?_
  · rw [Hurwitz.norm_ofInts]
    exact ⟨2 * M, by linarith⟩
  · intro k hk hdvd hfactor
    exact Hurwitz.primitive_of_squarefree (by omega) hprime.squarefree hk hdvd hfactor

/-! ## Trials -/

section Trials

variable {M p l t r q : ℤ} {worker workers i j k : ℕ}

lemma lagrangeTrial_yields [DigitLimit] (hodd : odd % 2 = 1) (hs : s.cache.Sound)
    (hdraw : o.source.below (lagrangeBound odd workers) s.draws = .ok t i)
    (hp : p = lagrangeCandidate (M * odd) worker workers t) (hprime : o.isPrime.int p = true)
    (hroot : sqrtMinusOne o p i = .ok (some r) j) :
    Yields (lagrangeTrial o odd (M * odd) worker workers) odd s j := by
  obtain ⟨c, hrun, hc⟩ := primeTwoSquares_run (s := ⟨i, s.cache⟩) hs hroot
  have hnorm := norm_gcrd_of_candidate hodd ((norm_gaussianOfRoot hroot).trans hp)
  obtain ⟨d, c', hdivisor, hd⟩ := divisorOfNorm_run (s := ⟨j, c⟩) hc hnorm
  refine ⟨d, c', ?_, hd⟩
  rw [lagrangeTrial, bind_run_of_ok (Search.draw_run_of_ok hdraw)]
  rw [← hp, if_pos hprime, bind_run_of_ok hrun]
  exact hdivisor

lemma largeTrial_yields [DigitLimit] (hodd : odd % 2 = 1) (hs : s.cache.Sound)
    (hdraw : randomPrimeOneModFour o auxiliaryBits o.steps s.draws = .ok l i) (hl : l.toNat.Prime)
    (hp : p = 2 * odd * M - l) (hprime : o.isPrime.int p = true)
    (hroot : sqrtMinusOne o p i = .ok (some r) j) (hroot' : sqrtMinusOne o l j = .ok (some q) k) :
    Yields (largeTrial o odd (2 * odd * M)) odd s k := by
  obtain ⟨c, hrun, hc⟩ := primeTwoSquares_run (s := ⟨i, s.cache⟩) hs hroot
  obtain ⟨c', hrun', hc'⟩ := primeTwoSquares_run (s := ⟨j, c⟩) hc hroot'
  have hnorm := norm_gcrd_of_primes hodd hl ((norm_gaussianOfRoot hroot).trans hp)
    (norm_gaussianOfRoot hroot')
  have hfive := ((sqrtMinusOne_ends (E := fun _ => True) o trivial p).of_ok trivial hroot).1 r rfl
  obtain ⟨d, c'', hdivisor, hd⟩ := divisorOfNorm_run (s := ⟨k, c'⟩) hc' hnorm
  refine ⟨d, c'', ?_, hd⟩
  rw [largeTrial, bind_run_of_ok (Search.draw_run_of_ok hdraw)]
  rw [← hp, if_pos ⟨hfive.1, hprime⟩, bind_run_of_ok hrun]
  dsimp only
  rw [bind_run_of_ok hrun']
  exact hdivisor

end Trials

/-- Whatever it ends with, it leaves sound pools sound. -/
def KeepsPools {α : Type} (x : Search α) : Prop :=
  Ends (fun s => s.cache.Sound) x (fun _ => True) (fun _ => True)

/-- **A prime candidate with a root yields a witness.**  The divisors have exactly the norms that
are asked for, so neither check of a trial rejects: in the search below a multiple of `odd` once the
candidate `p` is prime and has a root of minus one, in the search for large numbers once this holds
of the auxiliary prime as well.  The pools are those of a new bundle of caches after any number of
trials and searches. -/
theorem trials_yield [DigitLimit] (hexact : ∀ n, o.isPrime n = true ↔ n.Prime) (hodd : odd % 2 = 1)
    (M : ℤ) :
    (∀ s : SearchState, s.cache.Sound → ∀ (worker workers : ℕ) (t p r : ℤ) (i j : ℕ),
      o.source.below (lagrangeBound odd workers) s.draws = .ok t i →
      p = lagrangeCandidate (M * odd) worker workers t → p.toNat.Prime →
      sqrtMinusOne o p i = .ok (some r) j →
        (gaussianOfRoot r p).norm = p ∧
        (Hurwitz.gcrd (.ofInts (gaussianOfRoot r p).re (gaussianOfRoot r p).im 1 0)
          (.ofInts odd 0 0 0)).norm = odd ∧
        Yields (lagrangeTrial o odd (M * odd) worker workers) odd s j) ∧
    (∀ s : SearchState, s.cache.Sound → ∀ (l p r q : ℤ) (i j k : ℕ),
      randomPrimeOneModFour o auxiliaryBits o.steps s.draws = .ok l i →
      p = 2 * odd * M - l → p.toNat.Prime →
      sqrtMinusOne o p i = .ok (some r) j → sqrtMinusOne o l j = .ok (some q) k →
        (gaussianOfRoot r p).norm = p ∧ (gaussianOfRoot q l).norm = l ∧
        (Hurwitz.gcrd (.ofInts (gaussianOfRoot r p).re (gaussianOfRoot r p).im
          (gaussianOfRoot q l).re (gaussianOfRoot q l).im) (.ofInts odd 0 0 0)).norm = odd ∧
        Yields (largeTrial o odd (2 * odd * M)) odd s k) ∧
    (∀ primeLimit squareLimit, (SearchCache.ofLimits primeLimit squareLimit).Sound) ∧
    (∀ worker workers, KeepsPools (lagrangeTrial o odd (M * odd) worker workers)) ∧
    KeepsPools (largeTrial o odd (2 * odd * M)) ∧
    ∀ (cfg : Settings) (n : ℤ), 0 ≤ n → 0 ≤ cfg.largeBits →
      KeepsPools (lagrange o cfg n) ∧ KeepsPools (largeLagrange o cfg n) := by
  have hkept := SearchCache.Sound.kept
  refine ⟨?_, ?_, SearchCache.sound_ofLimits, ?_, ?_, ?_⟩
  · intro s hs worker workers t p r i j hdraw hp hprime hroot
    have hnorm := norm_gaussianOfRoot hroot
    exact ⟨hnorm, norm_gcrd_of_candidate hodd (hnorm.trans hp),
      lagrangeTrial_yields hodd hs hdraw hp ((isPrime_int hexact).mpr hprime) hroot⟩
  · intro s hs l p r q i j k hdraw hp hprime hroot hroot'
    have hnorm := norm_gaussianOfRoot hroot
    have hnorm' := norm_gaussianOfRoot hroot'
    have hbits : 0 < auxiliaryBits := by decide
    have hends := randomPrimeOneModFour_ends (n := 0) o hbits o.steps
    have hl := (isPrime_int hexact).mp (hends.of_ok trivial hdraw).1
    exact ⟨hnorm, hnorm', norm_gcrd_of_primes hodd hl (hnorm.trans hp) hnorm',
      largeTrial_yields hodd hs hdraw hl hp ((isPrime_int hexact).mpr hprime) hroot hroot'⟩
  · intro worker workers
    exact (lagrangeTrial_ends (n := 0) hkept o odd (M * odd) worker workers).mono
      (fun _ _ => trivial) fun _ _ => trivial
  · exact (largeTrial_ends (n := 0) hkept o odd (2 * odd * M)).mono
      (fun _ _ => trivial) fun _ _ => trivial
  · intro cfg n hn hbits
    exact ⟨(lagrange_ends hkept o cfg hn hbits).mono (fun _ _ => trivial) fun _ _ => trivial,
      (largeLagrange_ends hkept o cfg hn hbits).mono (fun _ _ => trivial) fun _ _ => trivial⟩

open Unlimited in
/-- The number nine: the candidate seventeen, and a large one with the prime 16777381. -/
theorem trials_yield_nine :
    (∀ n, (tapeOracles [0, 1, 164, 0, 0]).isPrime n = true ↔ n.Prime) ∧
      (gaussianOfRoot 13 17).norm = 17 ∧
      Yields (lagrangeTrial (tapeOracles [0, 1, 164, 0, 0]) 9 (2 * 9) 0 1) 9 ⟨0, .standard⟩ 2 ∧
      Yields (largeTrial (tapeOracles [0, 1, 164, 0, 0]) 9 (2 * 9 * 932077)) 9
        ⟨2, .standard⟩ 5 := by
  have hexact : ∀ n, (tapeOracles [0, 1, 164, 0, 0]).isPrime n = true ↔ n.Prime :=
    fun n => decide_eq_true_iff
  have hodd : 9 % 2 = 1 := rfl
  obtain ⟨hsmall, -⟩ := trials_yield hexact hodd 2
  obtain ⟨-, hlarge, hnew, -⟩ := trials_yield hexact hodd 932077
  have hprime : Nat.Prime 16777381 := by norm_num
  have hroot : sqrtMinusOne (tapeOracles [0, 1, 164, 0, 0]) 17 1 = .ok (some 13) 2 :=
    sqrtMinusOne_of_nonresidue (t := 1) (by decide) rfl (by decide +kernel) (by decide +kernel)
      (by decide)
  have hroot₅ : sqrtMinusOne (tapeOracles [0, 1, 164, 0, 0]) 5 3 = .ok (some 2) 4 :=
    sqrtMinusOne_of_nonresidue (t := 0) (by decide) rfl (by decide +kernel) (by decide +kernel)
      (by decide)
  have hroot' : sqrtMinusOne (tapeOracles [0, 1, 164, 0, 0]) 16777381 4
      = .ok (some 16302861) 5 :=
    sqrtMinusOne_of_nonresidue (t := 0) (by decide) rfl (by decide +kernel) (by decide +kernel)
      (by decide)
  have hdraw : randomPrimeOneModFour (tapeOracles [0, 1, 164, 0, 0]) auxiliaryBits 1 2
      = .ok 16777381 3 :=
    randomPrimeOneModFour_of_prime (t := 164) rfl (by decide) ((isPrime_int hexact).mpr hprime)
  obtain ⟨hnorm, -, htrial⟩ := hsmall ⟨0, .standard⟩ (hnew 4096 10000) 0 1 0 17 13 1 2 rfl
    (by decide) (by norm_num : Nat.Prime 17) hroot
  obtain ⟨-, -, -, htrial'⟩ := hlarge ⟨2, .standard⟩ (hnew 4096 10000) 16777381 5 2 16302861 3 4 5
    hdraw (by norm_num) (by norm_num : Nat.Prime 5) hroot₅ hroot'
  exact ⟨hexact, hnorm, htrial, htrial'⟩

end HiddenOrder
