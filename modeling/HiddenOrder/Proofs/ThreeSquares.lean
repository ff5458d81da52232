import HiddenOrder.Proofs.History
import HiddenOrder.Proofs.Tuple

/-!
# Three squares, without a draw

A number `n` of the class one modulo four that is a sum of three squares has two even roots, and if
`x` is one of them then `n - x²` is a sum of two squares, which the cache finds.  So it is enough to
try the even numbers up to the root of `n`.  The workers share them by the remainder of their
position from above; a worker that finds nothing has tried all of its share, and when no worker
finds anything, every even number has been tried once.

While `n` is not above the limit of the cache, all that is tried is looked up: no worker fails, and
nothing is drawn.  The search is named by `n` before it begins, so `n` has to be a number that can be
written.

* `Fruitless` — the members of a list were tried in order, and none of them gave a witness.
* **`runWorkers_give_up_iff`** — when all workers give up, they have made their passes one after
  another.
* `race_outcome` — a race of workers that never fail has a winner, or all of them give up.
* `evenShare`, `evenShares`, **`count_evenShares`** — the numbers of one worker, and those of all
  workers: every even number up to the root, once.
* `examine`, **`scanEven_gives_up_iff`** — one trial of a scan, and what a scan that gives up has
  tried.
* **`threeSquares_decides`** — three squares whenever there are three.
-/

namespace HiddenOrder

/-! ## Workers that give up -/

section GiveUp

variable {ε σ α β : Type} {f : β → EStateM ε σ (Option α)} {xs ys : List β} {s s' : σ}
  {I : σ → Prop} {P : α → Prop}

/-- The members of a list were tried one after another, none of them gave a witness, and this led
from one state to the other. -/
def Fruitless (f : β → EStateM ε σ (Option α)) : List β → σ → σ → Prop
  | [], s, s' => s = s'
  | x :: xs, s, s' => ∃ t, f x s = .ok none t ∧ Fruitless f xs t s'

lemma fruitless_append :
    Fruitless f (xs ++ ys) s s' ↔ ∃ t, Fruitless f xs s t ∧ Fruitless f ys t s' := by
  induction xs generalizing s with
  | nil => simp [Fruitless]
  | cons x xs ih =>
      simp only [List.cons_append, Fruitless, ih]
      constructor
      · rintro ⟨u, hu, t, ht, h⟩
        exact ⟨t, ⟨u, hu, ht⟩, h⟩
      · rintro ⟨t, ⟨u, hu, ht⟩, h⟩
        exact ⟨u, hu, t, ht, h⟩

/-- Each member was tried in a state with the property that the trials keep. -/
lemma Fruitless.exists_of_mem {Q : Option α → Prop} {E : ε → Prop}
    (hf : ∀ x ∈ xs, Ends I (f x) Q E) (h : Fruitless f xs s s') (hs : I s) {x : β}
    (hx : x ∈ xs) : ∃ t t', I t ∧ f x t = .ok none t' := by
  induction xs generalizing s with
  | nil => cases hx
  | cons y ys ih =>
      obtain ⟨t, ht, hrest⟩ := h
      rcases List.mem_cons.mp hx with rfl | hx
      · exact ⟨s, t, hs, ht⟩
      · have hkept := ((hf y List.mem_cons_self).of_ok hs ht).2
        exact ih (fun x hx => hf x (List.mem_cons_of_mem y hx)) hrest hkept hx

/-- **When all workers give up** they have made their passes one after another. -/
theorem runWorkers_give_up_iff {search : ℕ → EStateM ε σ (Option α)} {share : ℕ → List β}
    {workers : List ℕ} (hsearch : ∀ worker ∈ workers, ∀ s s',
      search worker s = .ok none s' ↔ Fruitless f (share worker) s s') :
    runWorkers search workers .fresh none s = ((.fresh, none), s') ↔
      Fruitless f (workers.flatMap share) s s' := by
  induction workers generalizing s with
  | nil => simp [runWorkers, Fruitless]
  | cons worker rest ih =>
      have hfirst := hsearch worker List.mem_cons_self s
      have hrest (t : σ) := ih (s := t) fun w hw => hsearch w (List.mem_cons_of_mem _ hw)
      rw [List.flatMap_cons, fruitless_append]
      cases hrun : search worker s with
      | error e t =>
          rw [hrun] at hfirst
          constructor
          · intro h
            have hkept := runWorkers_of_error search hrun rest
            rw [h] at hkept
            cases hkept
          · rintro ⟨t', ht', -⟩
            cases (hfirst t').mpr ht'
      | ok found t =>
          rw [hrun] at hfirst
          cases found with
          | some value =>
              rw [runWorkers_of_some search hrun]
              constructor
              · rintro ⟨⟩
              · rintro ⟨t', ht', -⟩
                cases (hfirst t').mpr ht'
          | none =>
              rw [runWorkers_of_none search hrun]
              refine (hrest t).trans ⟨fun h => ⟨t, (hfirst t).mp rfl, h⟩, ?_⟩
              rintro ⟨t', ht', h⟩
              cases (hfirst t').mpr ht'
              exact h

/-- **Workers that never fail** have a winner, or all of them give up. -/
theorem runWorkers_outcome {search : ℕ → EStateM ε σ (Option α)}
    (hsearch : ∀ worker, Ends I (search worker) (fun r => ∀ a ∈ r, P a) fun _ => False)
    (workers : List ℕ) (hs : I s) :
    (∃ a s', runWorkers search workers .fresh none s = ((⟨true, some a⟩, none), s') ∧ P a ∧ I s') ∨
      ∃ s', runWorkers search workers .fresh none s = ((.fresh, none), s') ∧ I s' := by
  induction workers generalizing s with
  | nil => exact .inr ⟨s, rfl, hs⟩
  | cons worker rest ih =>
      obtain ⟨found, t, hrun, hfound, ht⟩ | ⟨e, t, -, he, -⟩ := (hsearch worker).outcome hs
      · cases found with
        | some a =>
            rw [runWorkers_of_some search hrun]
            exact .inl ⟨a, t, rfl, hfound a rfl, ht⟩
        | none =>
            rw [runWorkers_of_none search hrun]
            exact ih ht
      · exact he.elim

/-- **A race of workers that never fail** has a winner, or all of them give up. -/
theorem race_outcome {search : ℕ → ℕ → EStateM ε σ (Option α)}
    (hsearch : ∀ worker workers, Ends I (search worker workers) (fun r => ∀ a ∈ r, P a)
      fun _ => False) (workers : ℤ) (exhausted : ε) (hs : I s) :
    (∃ a s', race search workers exhausted s = .ok a s' ∧ P a ∧ I s') ∨
      ∃ s', race search workers exhausted s = .error exhausted s' ∧ I s' ∧
        runWorkers (search · (max 1 workers).toNat) (List.range (max 1 workers).toNat) .fresh none s
          = ((.fresh, none), s') := by
  obtain ⟨a, s', hrun, ha, hs'⟩ | ⟨s', hrun, hs'⟩ :=
    runWorkers_outcome (fun worker => hsearch worker (max 1 workers).toNat)
      (List.range (max 1 workers).toNat) hs
  · refine .inl ⟨a, s', ?_, ha, hs'⟩
    rw [race, hrun]
  · refine .inr ⟨s', ?_, hs', hrun⟩
    rw [race, hrun]
    rfl

end GiveUp

/-! ## The shares of the workers -/

section Shares

variable {rt workers worker stride cnt x : ℕ}

/-- The even numbers that a scan by a stride tries from a position on, down from `2 rt`. -/
def evenFrom (rt stride cnt : ℕ) : List ℕ :=
  ((List.range (rt + 1)).filter fun i => cnt ≤ i ∧ i % stride = cnt % stride).map
    fun i => 2 * (rt - i)

/-- The even numbers that one of so many workers tries, down from `2 rt`. -/
def evenShare (rt workers worker : ℕ) : List ℕ :=
  ((List.range (rt + 1)).filter (· % workers = worker)).map fun i => 2 * (rt - i)

/-- The even numbers that so many workers try, one worker after another. -/
def evenShares (rt workers : ℕ) : List ℕ := (List.range workers).flatMap (evenShare rt workers)

lemma evenFrom_worker (h : worker < workers) :
    evenFrom rt workers worker = evenShare rt workers worker := by
  rw [evenFrom, evenShare]
  congr 1
  refine List.filter_congr fun i _ => ?_
  rw [Nat.mod_eq_of_lt h, decide_eq_decide, and_iff_right_iff_imp]
  intro hi
  exact hi ▸ Nat.mod_le i workers

lemma evenFrom_of_lt (h : rt < cnt) : evenFrom rt stride cnt = [] := by
  rw [evenFrom, List.map_eq_nil_iff, List.filter_eq_nil_iff]
  intro i hi
  rw [List.mem_range] at hi
  simp only [decide_eq_true_eq, not_and]
  omega

/-- The next position is one stride further. -/
lemma evenFrom_of_le (hstride : 0 < stride) (h : cnt ≤ rt) :
    evenFrom rt stride cnt = 2 * (rt - cnt) :: evenFrom rt stride (cnt + stride) := by
  have hpositions : ((List.range (rt + 1)).filter fun i => cnt ≤ i ∧ i % stride = cnt % stride)
      = cnt :: (List.range (rt + 1)).filter
          fun i => cnt + stride ≤ i ∧ i % stride = (cnt + stride) % stride := by
    refine (List.pairwise_lt_range.filter _).eq_of_mem_iff
      (List.pairwise_cons.mpr ⟨fun i hi => ?_, List.pairwise_lt_range.filter _⟩) fun i => ?_
    · have hle := (of_decide_eq_true (List.mem_filter.mp hi).2).1
      omega
    · simp only [List.mem_cons, List.mem_filter, List.mem_range, decide_eq_true_eq,
        Nat.add_mod_right]
      constructor
      · rintro ⟨hi, hle, hmod⟩
        obtain ⟨k, hk⟩ := (Nat.modEq_iff_dvd' hle).mp hmod.symm
        rcases Nat.eq_zero_or_pos k with rfl | hk'
        · exact .inl (by omega)
        · have := Nat.le_mul_of_pos_right stride hk'
          exact .inr ⟨hi, by omega, hmod⟩
      · rintro (rfl | ⟨hi, hle, hmod⟩)
        · exact ⟨by omega, le_rfl, rfl⟩
        · exact ⟨hi, by omega, hmod⟩
  rw [evenFrom, hpositions, List.map_cons, evenFrom]

lemma mem_evenShare :
    x ∈ evenShare rt workers worker ↔
      (x % 2 = 0 ∧ x / 2 ≤ rt) ∧ (rt - x / 2) % workers = worker := by
  simp only [evenShare, List.mem_map, List.mem_filter, List.mem_range, decide_eq_true_eq]
  constructor
  · rintro ⟨i, ⟨hi, hmod⟩, rfl⟩
    rw [Nat.mul_div_cancel_left _ two_pos, Nat.sub_sub_self (by omega)]
    exact ⟨⟨Nat.mul_mod_right 2 _, Nat.sub_le rt i⟩, hmod⟩
  · rintro ⟨⟨heven, hle⟩, hmod⟩
    exact ⟨rt - x / 2, ⟨by omega, hmod⟩, by omega⟩

lemma nodup_evenShare : (evenShare rt workers worker).Nodup := by
  refine List.Nodup.map_on (fun i hi j hj h => ?_) (List.nodup_range.filter _)
  have hi := List.mem_range.mp (List.mem_filter.mp hi).1
  have hj := List.mem_range.mp (List.mem_filter.mp hj).1
  omega

lemma mem_evenShares (hworkers : 0 < workers) :
    x ∈ evenShares rt workers ↔ x % 2 = 0 ∧ x / 2 ≤ rt := by
  simp only [evenShares, List.mem_flatMap, List.mem_range, mem_evenShare]
  constructor
  · rintro ⟨_, -, h, -⟩
    exact h
  · intro h
    exact ⟨_, Nat.mod_lt _ hworkers, h, rfl⟩

lemma nodup_evenShares (rt workers : ℕ) : (evenShares rt workers).Nodup := by
  refine List.nodup_flatMap.mpr ⟨fun worker _ => nodup_evenShare, ?_⟩
  refine List.nodup_range.imp fun {w v} hne => ?_
  intro x hw hv
  exact hne ((mem_evenShare.mp hw).2.symm.trans (mem_evenShare.mp hv).2)

/-- **Every even number up to the root is in one share**, and there once. -/
theorem count_evenShares (hworkers : 0 < workers) (root x : ℕ) :
    (evenShares (root / 2) workers).count x = if x % 2 = 0 ∧ x ≤ root then 1 else 0 := by
  rw [(nodup_evenShares _ _).count]
  refine if_congr ((mem_evenShares hworkers).trans (and_congr_right fun heven => ?_)) rfl rfl
  omega

end Shares

/-! ## Scans -/

section Scan

variable {n : ℤ} {rt stride trials cnt : ℕ} {s s' : SearchState}

/-- One trial of a scan: the root `x`, if two squares make up the rest. -/
def examine [DigitLimit] (o : Oracles) (n : ℤ) (x : ℕ) : Search (Option ThreeInt) := do
  match ← twoSquares o (n - x * x) with
  | some (a, b) =>
    let w ← Search.ofExcept (ThreeInt.of [x, a, b])
    pure (some w)
  | none => pure none

/-- A scan tries one number, and goes on with the next one if that is in vain. -/
lemma scanEven_succ [DigitLimit] (o : Oracles) (n : ℤ) (h : cnt ≤ rt) (stride trials : ℕ) :
    scanEven o n rt stride (trials + 1) cnt = examine o n (2 * (rt - cnt)) >>= fun found =>
      match found with
      | some w => pure (some w)
      | none => scanEven o n rt stride trials (cnt + stride) := by
  have hx : ((2 * (rt - cnt) : ℕ) : ℤ) = 2 * ((rt - cnt : ℕ) : ℤ) := by rw [Nat.cast_mul]; rfl
  rw [scanEven, if_neg (by omega), examine, hx, bind_assoc]
  refine congrArg (twoSquares o _ >>= ·) (funext fun found => ?_)
  cases found with
  | none => rfl
  | some roots =>
      rw [bind_assoc]
      rfl

/-- **A scan that gives up** has tried every number from its position on.  As many trials as there
are positions are as good as any number of trials. -/
theorem scanEven_gives_up_iff [DigitLimit] (o : Oracles) (n : ℤ) (hstride : 0 < stride)
    (htrials : rt < cnt + trials) : scanEven o n rt stride trials cnt s = .ok none s' ↔
      Fruitless (examine o n) (evenFrom rt stride cnt) s s' := by
  have hend {cnt : ℕ} {s : SearchState} (h : rt < cnt) :
      (pure none : Search (Option ThreeInt)) s = .ok none s' ↔
        Fruitless (examine o n) (evenFrom rt stride cnt) s s' := by
    rw [evenFrom_of_lt h, pure_run, Fruitless]
    simp
  induction trials generalizing cnt s with
  | zero => exact hend htrials
  | succ trials ih =>
      by_cases hcnt : cnt ≤ rt
      · rw [scanEven_succ o n hcnt, evenFrom_of_le hstride hcnt, Fruitless, bind_run_eq_ok]
        constructor
        · rintro ⟨found, t, hfound, hrest⟩
          cases found with
          | none => exact ⟨t, hfound, (ih (by omega)).mp hrest⟩
          | some w => cases hrest
        · rintro ⟨t, hfound, hrest⟩
          exact ⟨none, t, hfound, (ih (by omega)).mpr hrest⟩
      · rw [scanEven, if_pos (by omega)]
        exact hend (by omega)

/-- A scan ends like its trials, none of which goes beyond the root. -/
lemma scanEven_ends_of [DigitLimit] {o : Oracles} {I : SearchState → Prop} {P : ThreeInt → Prop}
    {E : Error → Prop} (hrt : (2 * rt : ℤ) * (2 * rt) ≤ n) (hexamine : ∀ x : ℕ, (x * x : ℤ) ≤ n →
      Ends I (examine o n x) (fun r => ∀ w ∈ r, P w) E) (stride trials cnt : ℕ) :
    Ends I (scanEven o n rt stride trials cnt) (fun r => ∀ w ∈ r, P w) E := by
  have hnone : ∀ w ∈ (none : Option ThreeInt), P w := by rintro w ⟨⟩
  induction trials generalizing cnt with
  | zero => exact .pure hnone
  | succ trials ih =>
      by_cases hcnt : cnt ≤ rt
      · have hx : ((2 * (rt - cnt) : ℕ) * (2 * (rt - cnt) : ℕ) : ℤ) ≤ n := by
          have hle : 2 * (rt - cnt) ≤ 2 * rt := Nat.mul_le_mul_left 2 (Nat.sub_le rt cnt)
          exact le_trans (by exact_mod_cast Nat.mul_le_mul hle hle) hrt
        rw [scanEven_succ o n hcnt]
        refine (hexamine _ hx).bind fun found hfound => ?_
        cases found with
        | some w => exact .pure hfound
        | none => exact ih _
      · rw [scanEven, if_pos (by omega)]
        exact .pure hnone

end Scan

/-! ## Numbers within the limit of the cache -/

section Limit

variable {n limit : ℤ} {x draws : ℕ} {s : SearchState}

lemma twoSquares_of_coherent [DigitLimit] (o : Oracles) {m : ℤ} (hm : 0 ≤ m) (hlimit : m ≤ limit)
    (hs : s.cache.Coherent limit) :
    ∃ c : SearchCache, c.Coherent limit ∧ twoSquares o m s
      = .ok ((twoSquareRoots m.toNat (sqrt m.toNat)).map fun (a, b) => ((a : ℤ), (b : ℤ)))
        ⟨s.draws, c⟩ := by
  obtain ⟨c, hc, hrun⟩ := Search.squares_of_coherent m hs
  rw [if_neg (by omega)] at hrun
  have hsquareLimit : squareLimit s = .ok limit s := by rw [squareLimit, hs.squares.limit_eq]
  refine ⟨c, hc, ?_⟩
  rw [twoSquares, bind_run_of_ok hsquareLimit, if_pos hlimit, bind_run_of_ok hrun]
  rfl

/-- **One trial** gives three roots, whenever its number is a root, and draws nothing. -/
theorem examine_run [DigitLimit] (o : Oracles) (hx : (x * x : ℤ) ≤ n) (hlimit : n ≤ limit)
    (hs : s.cache.Coherent limit) :
    ∃ (found : Option ThreeInt) (c : SearchCache), examine o n x s = .ok found ⟨s.draws, c⟩ ∧
      c.Coherent limit ∧ (∀ w ∈ found, w.RootsOf n) ∧
      (found = none → ¬∃ y z : ℤ, x * x + y * y + z * z = n) := by
  have hsq : (0 : ℤ) ≤ x * x := mul_self_nonneg _
  have hrest : 0 ≤ n - x * x := by omega
  obtain ⟨c, hc, hrun⟩ := twoSquares_of_coherent o hrest (by omega) hs
  cases hroots : twoSquareRoots (n - x * x).toNat (sqrt (n - x * x).toNat) with
  | none =>
      rw [hroots] at hrun
      refine ⟨none, c, ?_, hc, by rintro w ⟨⟩, fun _ => ?_⟩
      · rw [examine, bind_run_of_ok hrun]
        rfl
      · rintro ⟨y, z, hyz⟩
        exact (twoSquareRoots_eq_none_iff hrest).mp hroots ⟨y, z, by omega⟩
  | some roots =>
      obtain ⟨a, b⟩ := roots
      rw [hroots] at hrun
      obtain ⟨w, hw, hrootsOf⟩ := ThreeInt.of_ok x a b
      have hsum := (largestRoots_of_twoSquareRoots hrest hroots).sum
      rw [show (x * x + a * a + b * b : ℤ) = n by omega] at hrootsOf
      refine ⟨some w, c, ?_, hc, ?_, by rintro ⟨⟩⟩
      · rw [examine, bind_run_of_ok hrun]
        exact bind_run_of_ok (Search.ofExcept_run_eq_ok.mpr ⟨hw, rfl⟩)
      · rintro w' ⟨⟩
        exact hrootsOf

/-- So many draws were made, and the caches are coherent. -/
structure AfterDraws (limit : ℤ) (draws : ℕ) (s : SearchState) : Prop where
  draws : s.draws = draws
  coherent : s.cache.Coherent limit

lemma examine_ends [DigitLimit] (o : Oracles) (hx : (x * x : ℤ) ≤ n) (hlimit : n ≤ limit) :
    Ends (AfterDraws limit draws) (examine o n x) (fun r => ∀ w ∈ r, w.RootsOf n)
      fun _ => False := by
  intro s hs
  obtain ⟨found, c, hrun, hc, hfound, -⟩ := examine_run o hx hlimit hs.coherent
  rw [hrun]
  exact ⟨hfound, hs.draws, hc⟩

end Limit

/-! ## Parity of the roots -/

section Parity

variable {n : ℤ}

/-- Modulo four a square is its parity. -/
lemma mul_self_emod_four (v : ℤ) : v * v % 4 = v % 2 := by
  have h : v % 4 = 0 ∨ v % 4 = 1 ∨ v % 4 = 2 ∨ v % 4 = 3 := by omega
  rcases h with h | h | h | h <;> rw [Int.mul_emod, h] <;> omega

lemma parity_of_sum {x y z : ℤ} (hclass : n % 4 = 1) (h : x * x + y * y + z * z = n) :
    x % 2 + y % 2 + z % 2 = 1 := by
  have hx := mul_self_emod_four x
  have hy := mul_self_emod_four y
  have hz := mul_self_emod_four z
  omega

/-- Exactly one of three roots is odd. -/
lemma ThreeInt.RootsOf.countP_odd {w : ThreeInt} (h : w.RootsOf n) (hclass : n % 4 = 1) :
    w.toList.countP (· % 2 = 1) = 1 := by
  have hparity := parity_of_sum hclass h.sum
  simp only [ThreeInt.toList, List.countP_cons, List.countP_nil, decide_eq_true_eq]
  split_ifs <;> omega

/-- One of three roots is even, and can be taken to be the first. -/
lemma exists_even_root (hclass : n % 4 = 1) (h : ∃ x y z : ℤ, x * x + y * y + z * z = n) :
    ∃ (x : ℕ) (y z : ℤ), x % 2 = 0 ∧ (x * x + y * y + z * z : ℤ) = n := by
  obtain ⟨x, y, z, hsum⟩ := h
  have hparity := parity_of_sum hclass hsum
  rcases Int.emod_two_eq_zero_or_one x with hx | hx
  · exact ⟨x.natAbs, y, z, by omega, by rwa [Int.natAbs_mul_self']⟩
  · exact ⟨y.natAbs, x, z, by omega, by rwa [Int.natAbs_mul_self', add_comm (y * y)]⟩

end Parity

/-! ## The search -/

section Search

variable {n limit : ℤ} {o : Oracles} {cfg : Settings} {draws : ℕ} {s : SearchState}

/-- **Workers that find nothing** have tried the shares of all of them. -/
theorem scans_give_up_iff [DigitLimit] (o : Oracles) (n : ℤ) {rt workers trials : ℕ}
    (hworkers : 0 < workers) (htrials : rt < trials) (s s' : SearchState) :
    runWorkers (scanEven o n rt workers trials) (List.range workers) .fresh none s
        = ((.fresh, none), s') ↔
      Fruitless (examine o n) (evenShares rt workers) s s' := by
  refine runWorkers_give_up_iff fun worker hworker s s' => ?_
  rw [← evenFrom_worker (List.mem_range.mp hworker)]
  exact scanEven_gives_up_iff o n hworkers (by omega)

/-- The even numbers up to the root are those whose squares leave a rest. -/
lemma mem_evenShares_sqrt (hn : 0 ≤ n) {workers : ℕ} (hworkers : 0 < workers) {x : ℕ} :
    x ∈ evenShares (sqrt n.toNat / 2) workers ↔ x % 2 = 0 ∧ (x * x : ℤ) ≤ n := by
  have hroot : x ≤ Nat.sqrt n.toNat ↔ x * x ≤ n.toNat := Nat.le_sqrt
  rw [mem_evenShares hworkers, sqrt_eq]
  refine and_congr_right fun heven => ?_
  omega

/-- Where a pass over all shares is in vain, there is nothing to be found. -/
lemma Fruitless.not_sum [DigitLimit] (hn : 0 ≤ n) (hclass : n % 4 = 1) (hlimit : n ≤ limit)
    {workers : ℕ} (hworkers : 0 < workers) {s' : SearchState}
    (h : Fruitless (examine o n) (evenShares (sqrt n.toNat / 2) workers) s s')
    (hs : AfterDraws limit draws s) : ¬∃ x y z : ℤ, x * x + y * y + z * z = n := by
  intro hsquares
  -- one of the roots is even, so that some worker has tried it
  obtain ⟨x, y, z, heven, hsum⟩ := exists_even_root hclass hsquares
  have hx : (x * x : ℤ) ≤ n := by
    have := mul_self_nonneg y
    have := mul_self_nonneg z
    omega
  have hends (x : ℕ) (hx : x ∈ evenShares (sqrt n.toNat / 2) workers) :
      Ends (AfterDraws limit draws) (examine o n x) (fun r => ∀ w ∈ r, w.RootsOf n)
        fun _ => False :=
    examine_ends o ((mem_evenShares_sqrt hn hworkers).mp hx).2 hlimit
  obtain ⟨t, t', ht, hnone⟩ :=
    h.exists_of_mem hends hs ((mem_evenShares_sqrt hn hworkers).mpr ⟨heven, hx⟩)
  obtain ⟨found, c, hfound, -, -, hno⟩ := examine_run o hx hlimit ht.coherent
  rw [hnone] at hfound
  cases hfound
  exact hno rfl ⟨y, z, hsum⟩

/-- A number that is too long for the name of the search is not searched for. -/
lemma threeSquares_of_not_writable [DigitLimit] (hn : 0 < n) (hclass : n % 4 = 1)
    (hname : ¬Writable n) : threeSquares o cfg n s = .error (.fault .longNumeral) s := by
  rw [threeSquares, if_neg (by omega), named_run rfl, if_neg hname]

/-- The search ends without a draw, and gives up only when there is nothing to be found. -/
lemma threeSquares_outcome [DigitLimit] (o : Oracles) (hn : 0 < n) (hclass : n % 4 = 1)
    (hlimit : n ≤ limit) (hname : Writable n) (htrials : cfg.maxTrials = none)
    (hs : AfterDraws limit draws s) :
    (∃ w c, threeSquares o cfg n s = .ok w ⟨draws, c⟩ ∧ w.RootsOf n) ∨
      (∃ c, threeSquares o cfg n s = .error (.trialFailed (.threeSquares n)) ⟨draws, c⟩) ∧
        ¬∃ x y z : ℤ, x * x + y * y + z * z = n := by
  have hscan (worker workers : ℕ) : Ends (AfterDraws limit draws)
      (scanEven o n (sqrt n.toNat / 2) workers (scanTrials cfg.maxTrials (sqrt n.toNat / 2)) worker)
      (fun r => ∀ w ∈ r, w.RootsOf n) fun _ => False :=
    scanEven_ends_of (sq_two_mul_half_sqrt_le hn.le) (fun x hx => examine_ends o hx hlimit) _ _ _
  rw [threeSquares, if_neg (by omega), named_run rfl, if_pos hname]
  obtain ⟨w, ⟨_, c⟩, hrun, hw, rfl, -⟩ | ⟨⟨_, c⟩, hrun, ⟨rfl, -⟩, hgave⟩ :=
    race_outcome hscan cfg.workers (.trialFailed (.threeSquares n)) hs
  · refine .inl ⟨w, c, ?_, hw⟩
    rw [bind_run_of_ok hrun, if_pos hw.sum, pure_run]
  · have hworkers : 0 < (max 1 cfg.workers).toNat := by omega
    rw [htrials] at hgave
    have hpass := (scans_give_up_iff o n hworkers (Nat.lt_succ_self _) _ _).mp hgave
    exact .inr ⟨⟨c, bind_run_of_error hrun⟩, hpass.not_sum hn.le hclass hlimit hworkers hs⟩

/-- **Three squares, whenever there are three.**  Let `n` be a positive number of the class one
modulo four, not above the limit of the cache of squares, and let the workers, of whatever number,
have no limit on their trials.  After any history of the bundle of caches the search ends without a
draw: with three roots of `n`, exactly one of them odd, if `n` is a sum of three squares, and with
the failure that says that nobody found any otherwise.  Only a number that cannot be written into the
name of the search is not searched for, and has the fault for that.  The workers that find nothing
have tried every even number up to the root of `n`, each of them once.  The last holds of any oracles
and caches, and of every number of trials that is enough for one worker, so that it is what an
unlimited one comes to. -/
theorem threeSquares_decides [DigitLimit] (hn : 0 < n) (hclass : n % 4 = 1) (hlimit : n ≤ limit)
    (o : Oracles) (htrials : cfg.maxTrials = none) :
    (∀ (primeLimit : ℤ) (history : List Event) (draws : ℕ),
      (Writable n → (∃ x y z : ℤ, x * x + y * y + z * z = n) →
        ∃ w c, threeSquares o cfg n
            ⟨draws, (SearchCache.ofLimits primeLimit limit).after history⟩ = .ok w ⟨draws, c⟩ ∧
          w.RootsOf n ∧ w.toList.countP (· % 2 = 1) = 1) ∧
      (Writable n → (¬∃ x y z : ℤ, x * x + y * y + z * z = n) →
        ∃ c, threeSquares o cfg n
            ⟨draws, (SearchCache.ofLimits primeLimit limit).after history⟩
          = .error (.trialFailed (.threeSquares n)) ⟨draws, c⟩) ∧
      (¬Writable n → ∃ c, threeSquares o cfg n
            ⟨draws, (SearchCache.ofLimits primeLimit limit).after history⟩
          = .error (.fault .longNumeral) ⟨draws, c⟩)) ∧
    ∀ workers trials : ℕ, 0 < workers → sqrt n.toNat / 2 < trials →
      (∀ s s', runWorkers (scanEven o n (sqrt n.toNat / 2) workers trials) (List.range workers)
          .fresh none s = ((.fresh, none), s') ↔
        Fruitless (examine o n) (evenShares (sqrt n.toNat / 2) workers) s s') ∧
      ∀ x, (evenShares (sqrt n.toNat / 2) workers).count x
        = if x % 2 = 0 ∧ x ≤ Nat.sqrt n.toNat then 1 else 0 := by
  refine ⟨fun primeLimit history draws => ?_, fun workers trials hworkers htrials => ⟨?_, ?_⟩⟩
  · have hs : AfterDraws limit draws
        ⟨draws, (SearchCache.ofLimits primeLimit limit).after history⟩ :=
      ⟨rfl, (SearchCache.coherent_ofLimits primeLimit limit).after history⟩
    refine ⟨fun hname hsum => ?_, fun hname hnone => ?_,
      fun hname => ⟨_, threeSquares_of_not_writable hn hclass hname⟩⟩
    · obtain ⟨w, c, hrun, hw⟩ | ⟨-, hnone⟩ :=
        threeSquares_outcome o hn hclass hlimit hname htrials hs
      · exact ⟨w, c, hrun, hw, hw.countP_odd hclass⟩
      · exact (hnone hsum).elim
    · obtain ⟨w, -, -, hw⟩ | ⟨hfailure, -⟩ :=
        threeSquares_outcome o hn hclass hlimit hname htrials hs
      · exact (hnone ⟨w.w₁, w.w₂, w.w₃, hw.sum⟩).elim
      · exact hfailure
  · exact scans_give_up_iff o n hworkers htrials
  · rw [sqrt_eq]
    exact count_evenShares hworkers _

open Unlimited in
/-- Two workers look for three squares of fifty-seven; six is not a root of it, four and two are. -/
theorem threeSquares_decides_fiftySeven :
    ((0 : ℤ) < 57 ∧ (57 : ℤ) % 4 = 1 ∧ (57 : ℤ) ≤ 10000 ∧
      ({ workers := 2 } : Settings).maxTrials = none ∧ ∃ x y z : ℤ, x * x + y * y + z * z = 57) ∧
    (∃ w c, threeSquares (tapeOracles []) { workers := 2 } 57 ⟨0, .standard⟩ = .ok w ⟨0, c⟩ ∧
      w.RootsOf 57 ∧ w.toList.countP (· % 2 = 1) = 1) ∧
    evenShares 3 2 = [6, 2, 4, 0] := by
  have hsum : ∃ x y z : ℤ, x * x + y * y + z * z = 57 := ⟨4, 5, 4, by decide⟩
  obtain ⟨hdecides, -⟩ := threeSquares_decides (by decide : (0 : ℤ) < 57) (by decide)
    (by decide : (57 : ℤ) ≤ 10000) (tapeOracles [])
    (rfl : ({ workers := 2 } : Settings).maxTrials = none)
  exact ⟨⟨by decide, by decide, by decide, rfl, hsum⟩,
    (hdecides 4096 [] 0).1 (writable_off 57) hsum, by decide⟩

end Search

end HiddenOrder
