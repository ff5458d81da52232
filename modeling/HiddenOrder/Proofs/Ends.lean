import HiddenOrder.Proofs.Wording
import HiddenOrder.Race
import Mathlib.Algebra.Order.Ring.Int
import Mathlib.Tactic.SplitIfs

/-!
# How computations end

A search that draws may go on for any number of trials, so what is known of its end is what every
step keeps.  Said once of a single step and carried through sequences, repetitions and races, it is
known of whole searches.

* `Ends` — from states with a property a computation ends in such states, with results of one kind
  or failures of one kind.
* `Ends.bind`, `Ends.ite_bind`, `Ends.mono` — sequences, branches that meet again, and weaker
  statements.
* `Ends.outcome`, `Ends.of_ok`, `Ends.strengthen` — what that says of a single run, and what single
  runs add to it.
* **`Ends.withinTrials`** — a worker ends like its trials, however many there are.
* **`Ends.race`** — a race ends like its workers, or with the failure that says that they all gave
  up.
* `runWorkers_of_none`, `runWorkers_of_some`, `runWorkers_of_raise` — what the first worker that is
  still needed leaves to the others.
* **`race_of_le_one`**, **`race_of_first`**, **`race_of_first_error`** — a race of one worker, and
  races whose first worker wins, or fails.
* **`named_run`** — a search that is named by a number goes on when the number can be written.
* `Ends.draw`, `Ends.ofExcept`, `Ends.named`, `Ends.primes`, `Ends.gaussians`, `Ends.quaternions` —
  the steps that searches are made of.
* `Entropy.below_ends`, `Entropy.bits_ends`, `Entropy.range_ends` — a draw that is asked for with a
  proper bound fails only when the source does.
-/

namespace HiddenOrder

section

variable {ε σ α β : Type} {I : σ → Prop} {P : α → Prop} {E : ε → Prop}

/-- From a state with `I` the computation ends in such a state, with a result that has `P` or a
failure that has `E`. -/
def Ends (I : σ → Prop) (x : EStateM ε σ α) (P : α → Prop) (E : ε → Prop) : Prop :=
  ∀ s, I s → match x s with
    | .ok a s' => P a ∧ I s'
    | .error e s' => E e ∧ I s'

namespace Ends

protected lemma pure {a : α} (h : P a) : Ends I (pure a : EStateM ε σ α) P E :=
  fun _ hs => ⟨h, hs⟩

protected lemma throw {e : ε} (h : E e) : Ends I (throw e : EStateM ε σ α) P E :=
  fun _ hs => ⟨h, hs⟩

protected lemma bind {x : EStateM ε σ α} {f : α → EStateM ε σ β} {Q : β → Prop}
    (hx : Ends I x P E) (hf : ∀ a, P a → Ends I (f a) Q E) : Ends I (x >>= f) Q E := by
  intro s hs
  have h := hx s hs
  cases hrun : x s with
  | ok a s' =>
      rw [hrun] at h
      rw [bind_run_of_ok hrun]
      exact hf a h.1 s' h.2
  | error e s' =>
      rw [hrun] at h
      rw [bind_run_of_error hrun]
      exact h

/-- Two ways that meet again. -/
lemma ite_bind {c : Prop} [Decidable c] {x y : EStateM ε σ α} {f : α → EStateM ε σ β}
    {Q : β → Prop} (hx : c → Ends I x P E) (hy : ¬c → Ends I y P E)
    (hf : ∀ a, P a → Ends I (f a) Q E) : Ends I (if c then x >>= f else y >>= f) Q E := by
  split_ifs with hc
  · exact (hx hc).bind hf
  · exact (hy hc).bind hf

lemma mono {x : EStateM ε σ α} {Q : α → Prop} {F : ε → Prop} (hx : Ends I x P E)
    (hP : ∀ a, P a → Q a) (hE : ∀ e, E e → F e) : Ends I x Q F := by
  intro s hs
  have h := hx s hs
  cases hrun : x s with
  | ok a s' =>
      rw [hrun] at h
      exact ⟨hP a h.1, h.2⟩
  | error e s' =>
      rw [hrun] at h
      exact ⟨hE e h.1, h.2⟩

lemma outcome {x : EStateM ε σ α} (hx : Ends I x P E) {s : σ} (hs : I s) :
    (∃ a s', x s = .ok a s' ∧ P a ∧ I s') ∨ ∃ e s', x s = .error e s' ∧ E e ∧ I s' := by
  have h := hx s hs
  cases hrun : x s with
  | ok a s' =>
      rw [hrun] at h
      exact .inl ⟨a, s', rfl, h⟩
  | error e s' =>
      rw [hrun] at h
      exact .inr ⟨e, s', rfl, h⟩

lemma of_ok {x : EStateM ε σ α} (hx : Ends I x P E) {s s' : σ} {a : α} (hs : I s)
    (hrun : x s = .ok a s') : P a ∧ I s' := by
  have h := hx s hs
  rwa [hrun] at h

/-- What is known of every result is known of the end. -/
lemma strengthen {x : EStateM ε σ α} {Q : α → Prop} (hx : Ends I x P E)
    (hQ : ∀ s a s', x s = .ok a s' → Q a) : Ends I x (fun a => P a ∧ Q a) E := by
  intro s hs
  have h := hx s hs
  cases hrun : x s with
  | ok a s' =>
      rw [hrun] at h
      exact ⟨⟨h.1, hQ s a s' hrun⟩, h.2⟩
  | error e s' =>
      rw [hrun] at h
      exact h

/-! ## Trials and races -/

protected lemma attempt {trial spent : EStateM ε σ (Option α)}
    (htrial : Ends I trial (fun r => ∀ a ∈ r, P a) E)
    (hspent : Ends I spent (fun r => ∀ a ∈ r, P a) E) (trials : ℕ) :
    Ends I (attempt trial spent trials) (fun r => ∀ a ∈ r, P a) E := by
  induction trials with
  | zero => exact hspent
  | succ trials ih =>
      rw [attempt]
      refine htrial.bind fun r hr => ?_
      cases r with
      | some value => exact .pure hr
      | none => exact ih

/-- **A worker ends like its trials.** -/
theorem withinTrials {trial : EStateM ε σ (Option α)} {unended : ε}
    (htrial : Ends I trial (fun r => ∀ a ∈ r, P a) E) (hunended : E unended)
    (maxTrials : Option ℤ) (steps : ℕ) :
    Ends I (withinTrials maxTrials steps unended trial) (fun r => ∀ a ∈ r, P a) E := by
  cases maxTrials with
  | none => exact htrial.attempt (.throw hunended) steps
  | some most =>
      refine htrial.attempt (.pure ?_) most.toNat
      rintro a ⟨⟩

/-- What a race has come to: a winner that has `P`, a failure that has `E`, a state with `I`. -/
def Standing (I : σ → Prop) (P : α → Prop) (E : ε → Prop) (r : (Token α × Option ε) × σ) : Prop :=
  (∀ a ∈ r.1.1.winner, P a) ∧ (∀ e ∈ r.1.2, E e) ∧ I r.2

lemma runWorker {search : EStateM ε σ (Option α)} {token : Token α}
    (hsearch : Ends I search (fun r => ∀ a ∈ r, P a) E) (htoken : ∀ a ∈ token.winner, P a) :
    Ends I (runWorker search token) (fun t => ∀ a ∈ t.winner, P a) E := by
  rw [HiddenOrder.runWorker]
  split_ifs with hcancelled
  · exact .pure htoken
  · refine hsearch.bind fun r hr => ?_
    cases r with
    | none => exact .pure htoken
    | some value =>
        refine .pure ?_
        rw [Token.offer, if_neg hcancelled]
        exact hr

lemma runWorkers {search : ℕ → EStateM ε σ (Option α)}
    (hsearch : ∀ worker, Ends I (search worker) (fun r => ∀ a ∈ r, P a) E) :
    ∀ (workers : List ℕ) {token : Token α} {failure : Option ε} {s : σ},
      Standing I P E ((token, failure), s) →
        Standing I P E (runWorkers search workers token failure s)
  | [], _, _, _, h => h
  | worker :: rest, token, failure, s, ⟨htoken, hfailure, hs⟩ => by
      -- a worker that fails changes neither the token nor a failure that was kept before
      have hstep := (hsearch worker).runWorker htoken s hs
      rw [HiddenOrder.runWorkers]
      cases hrun : HiddenOrder.runWorker (search worker) token s with
      | ok token' s' =>
          rw [hrun] at hstep
          exact runWorkers hsearch rest ⟨hstep.1, hfailure, hstep.2⟩
      | error e s' =>
          rw [hrun] at hstep
          refine runWorkers hsearch rest ⟨htoken, ?_, hstep.2⟩
          intro e' he'
          cases failure with
          | none =>
              obtain rfl : e = e' := by simpa using he'
              exact hstep.1
          | some kept => exact hfailure e' he'

/-- **A race ends like its workers**, or says that they all gave up. -/
theorem race {search : ℕ → ℕ → EStateM ε σ (Option α)} {exhausted : ε}
    (hsearch : ∀ worker workers, Ends I (search worker workers) (fun r => ∀ a ∈ r, P a) E)
    (hexhausted : E exhausted) (workers : ℤ) : Ends I (race search workers exhausted) P E := by
  intro s hs
  have hfresh : Standing I P E (((.fresh : Token α), (none : Option ε)), s) :=
    ⟨by rintro a ⟨⟩, by rintro e ⟨⟩, hs⟩
  have hend := runWorkers (fun worker => hsearch worker (max 1 workers).toNat)
    (List.range (max 1 workers).toNat) hfresh
  rw [HiddenOrder.race]
  rcases hrun : HiddenOrder.runWorkers (search · (max 1 workers).toNat)
    (List.range (max 1 workers).toNat) .fresh none s with ⟨⟨⟨cancelled, winner⟩, failure⟩, s'⟩
  rw [hrun] at hend
  obtain ⟨hwinner, hfailure, hs'⟩ := hend
  cases failure with
  | some e => exact ⟨hfailure e rfl, hs'⟩
  | none =>
      cases winner with
      | some value => exact ⟨hwinner value rfl, hs'⟩
      | none => exact ⟨hexhausted, hs'⟩

end Ends

end

/-! ## The steps of a search -/

section

variable {α : Type} {J : SearchCache → Prop} {P : α → Prop} {E : Error → Prop}

/-- A search that is named by a number before it begins goes on when the number can be written. -/
lemma named_run [DigitLimit] {sought : Sought} {n : ℤ} (hnumbers : sought.wording.numbers = [n])
    (search : Error → Search α) (s : SearchState) :
    (Search.ofExcept (exhausted sought) >>= search) s = if Writable n
      then search (.trialFailed sought) s else .error (.fault .longNumeral) s := by
  split_ifs with hn
  · rw [exhausted_of_writable hnumbers hn]
    rfl
  · rw [exhausted_of_not_writable hnumbers hn]
    rfl

namespace Ends

lemma draw {d : Draw α} (hd : Ends (fun _ => True) d P E) :
    Ends (fun s => J s.cache) (Search.draw d) P E := by
  intro s hs
  have h := hd s.draws trivial
  rw [Search.draw]
  cases hrun : d s.draws with
  | ok a n =>
      rw [hrun] at h
      exact ⟨h.1, hs⟩
  | error e n =>
      rw [hrun] at h
      exact ⟨h.1, hs⟩

lemma ofExcept {I : SearchState → Prop} {r : Except Error α} (h : ∃ a, r = .ok a ∧ P a) :
    Ends I (Search.ofExcept r) P E := by
  obtain ⟨a, rfl, ha⟩ := h
  exact .pure ha

/-- A search that is named by a number before it begins. -/
lemma named [DigitLimit] {I : SearchState → Prop} {sought : Sought} {n : ℤ}
    {search : Error → Search α} (hnumbers : sought.wording.numbers = [n])
    (hlong : ¬Writable n → E (.fault .longNumeral))
    (h : Writable n → Ends I (search (.trialFailed sought)) P E) :
    Ends I (Search.ofExcept (exhausted sought) >>= search) P E := by
  intro s hs
  rw [named_run hnumbers]
  split_ifs with hn
  · exact h hn s hs
  · exact ⟨hlong hn, hs⟩

lemma primes {use : PrimeCache → α × PrimeCache}
    (h : ∀ c, J c → J { c with primes := (use c.primes).2 }) :
    Ends (fun s => J s.cache) (Search.primes use) (fun _ => True) E :=
  fun s hs => ⟨trivial, h s.cache hs⟩

lemma gaussians {use : ScratchPool Gaussian → α × ScratchPool Gaussian}
    (h : ∀ c, J c → J { c with gaussians := (use c.gaussians).2 }) :
    Ends (fun s => J s.cache) (Search.gaussians use) (fun _ => True) E :=
  fun s hs => ⟨trivial, h s.cache hs⟩

lemma quaternions {use : ScratchPool Hurwitz → α × ScratchPool Hurwitz}
    (h : ∀ c, J c → J { c with quaternions := (use c.quaternions).2 }) :
    Ends (fun s => J s.cache) (Search.quaternions use) (fun _ => True) E :=
  fun s hs => ⟨trivial, h s.cache hs⟩

end Ends

end

/-! ## Races that the first worker decides -/

section

variable {ε σ α : Type} {a : α} {e : ε} {s s' : σ}

lemma attempt_of_some {trial spent : EStateM ε σ (Option α)} (h : trial s = .ok (some a) s')
    {trials : ℕ} (htrials : 0 < trials) : attempt trial spent trials s = .ok (some a) s' := by
  obtain ⟨n, rfl⟩ := Nat.exists_eq_succ_of_ne_zero htrials.ne'
  rw [attempt]
  exact bind_run_of_ok h

lemma attempt_of_error {trial spent : EStateM ε σ (Option α)} (h : trial s = .error e s')
    {trials : ℕ} (htrials : 0 < trials) : attempt trial spent trials s = .error e s' := by
  obtain ⟨n, rfl⟩ := Nat.exists_eq_succ_of_ne_zero htrials.ne'
  rw [attempt]
  exact bind_run_of_error h

lemma runWorkers_of_cancelled {search : ℕ → EStateM ε σ (Option α)} {token : Token α}
    (h : token.cancelled = true) (workers : List ℕ) (failure : Option ε) (s : σ) :
    runWorkers search workers token failure s = ((token, failure), s) := by
  induction workers with
  | nil => rfl
  | cons worker rest ih =>
      have hidle : runWorker (search worker) token s = .ok token s := by
        rw [runWorker, if_pos h, pure_run]
      rw [runWorkers, hidle]
      exact ih

/-- The first failure is kept, whatever later workers do. -/
lemma runWorkers_of_failure (search : ℕ → EStateM ε σ (Option α)) (workers : List ℕ)
    (token : Token α) (e : ε) (s : σ) :
    (runWorkers search workers token (some e) s).1.2 = some e := by
  induction workers generalizing token s with
  | nil => rfl
  | cons worker rest ih =>
      rw [runWorkers]
      cases runWorker (search worker) token s with
      | ok token s => exact ih token s
      | error _ s => exact ih token s

section

variable (search : ℕ → EStateM ε σ (Option α)) {worker : ℕ}

/-- What a worker that finds something, or nothing, makes of a race in which nobody has won. -/
lemma runWorker_fresh {search : EStateM ε σ (Option α)} {found : Option α}
    (h : search s = .ok found s') :
    runWorker search .fresh s = .ok (found.elim .fresh fun a => ⟨true, some a⟩) s' := by
  rw [runWorker, if_neg (by simp [Token.fresh]), bind_run_of_ok h]
  cases found with
  | none => rfl
  | some a => rfl

/-- A worker that finds nothing leaves the race to the others. -/
lemma runWorkers_of_none (h : search worker s = .ok none s') (rest : List ℕ) (failure : Option ε) :
    runWorkers search (worker :: rest) .fresh failure s
      = runWorkers search rest .fresh failure s' := by
  rw [runWorkers, runWorker_fresh h]
  rfl

/-- A worker that finds something decides the race. -/
lemma runWorkers_of_some (h : search worker s = .ok (some a) s') (rest : List ℕ)
    (failure : Option ε) :
    runWorkers search (worker :: rest) .fresh failure s = ((⟨true, some a⟩, failure), s') := by
  rw [runWorkers, runWorker_fresh h]
  exact runWorkers_of_cancelled rfl rest failure s'

/-- A worker that fails leaves the race to the others, but what it failed with is kept. -/
lemma runWorkers_of_raise (h : search worker s = .error e s') (rest : List ℕ)
    (failure : Option ε) :
    runWorkers search (worker :: rest) .fresh failure s
      = runWorkers search rest .fresh (failure.or (some e)) s' := by
  have hfirst : runWorker (search worker) .fresh s = .error e s' := by
    rw [runWorker, if_neg (by simp [Token.fresh])]
    exact bind_run_of_error h
  rw [runWorkers, hfirst]

/-- The failure of a worker is kept. -/
lemma runWorkers_of_error (h : search worker s = .error e s') (rest : List ℕ) :
    (runWorkers search (worker :: rest) .fresh none s).1.2 = some e := by
  rw [runWorkers_of_raise search h]
  exact runWorkers_of_failure search rest .fresh e s'

end

section

variable {search : ℕ → ℕ → EStateM ε σ (Option α)} {workers : ℤ} {exhausted : ε}

/-- There is a first worker. -/
lemma range_workers (workers : ℤ) :
    ∃ rest, List.range (max 1 workers).toNat = 0 :: rest := by
  obtain ⟨n, hn⟩ := Nat.exists_eq_succ_of_ne_zero (show (max 1 workers).toNat ≠ 0 by omega)
  exact ⟨_, by rw [hn, List.range_succ_eq_map]⟩

/-- A race of one worker is the search of that worker. -/
theorem race_of_le_one (search : ℕ → ℕ → EStateM ε σ (Option α)) (h : workers ≤ 1)
    (exhausted : ε) (s : σ) : race search workers exhausted s = (do
      match ← search 0 1 with
      | some value => pure value
      | none => throw exhausted : EStateM ε σ α) s := by
  have hcount : (max 1 workers).toNat = 1 := by omega
  have hidle : ¬(Token.fresh : Token α).cancelled = true := by simp [Token.fresh]
  rw [race, hcount, List.range_one, runWorkers, runWorker, if_neg hidle]
  cases hrun : search 0 1 s with
  | error e s' =>
      rw [bind_run_of_error hrun, bind_run_of_error hrun]
      rfl
  | ok found s' =>
      rw [bind_run_of_ok hrun, bind_run_of_ok hrun]
      cases found with
      | none => rfl
      | some value => rfl

/-- **A race that its first worker wins** ends with what that one found, and where it stopped. -/
theorem race_of_first (h : search 0 (max 1 workers).toNat s = .ok (some a) s') :
    race search workers exhausted s = .ok a s' := by
  obtain ⟨rest, hrest⟩ := range_workers workers
  rw [race, hrest, runWorkers_of_some (search · (max 1 workers).toNat) h]

/-- **A race whose first worker fails** ends with that failure. -/
theorem race_of_first_error (h : search 0 (max 1 workers).toNat s = .error e s') :
    ∃ s'', race search workers exhausted s = .error e s'' := by
  obtain ⟨rest, hrest⟩ := range_workers workers
  have hfailure := runWorkers_of_error (search · (max 1 workers).toNat) h rest
  rw [race, hrest]
  generalize runWorkers (search · (max 1 workers).toNat) (0 :: rest) .fresh none s = r at hfailure ⊢
  obtain ⟨⟨token, failure⟩, s''⟩ := r
  obtain rfl : failure = some e := hfailure
  exact ⟨s'', rfl⟩

end

end

/-! ## Draws -/

namespace Entropy

variable {E : Error → Prop}

lemma take_ends (source : Entropy) (bound : ℕ) (hE : E .randomnessExhausted) :
    Ends (fun _ => True) (source.take bound) (fun _ => True) E := by
  intro i _
  rw [take]
  cases hanswer : source i bound with
  | some t =>
      have hnext : source.next bound i = .ok (some (t % (bound : ℤ)).toNat) (i + 1) := by
        rw [next, hanswer, Option.map_some]
      rw [bind_run_of_ok hnext]
      exact ⟨trivial, trivial⟩
  | none =>
      have hnext : source.next bound i = .ok none (i + 1) := by
        rw [next, hanswer, Option.map_none]
      rw [bind_run_of_ok hnext]
      exact ⟨hE, trivial⟩

lemma below_ends [DigitLimit] (source : Entropy) {bound : ℤ} (hbound : 0 < bound)
    (hE : E .randomnessExhausted) :
    Ends (fun _ => True) (source.below bound) (fun _ => True) E := by
  rw [below, if_neg (not_le.mpr hbound)]
  exact (take_ends source bound.toNat hE).bind fun t _ => .pure trivial

lemma bits_ends [DigitLimit] (source : Entropy) {k : ℤ} (hk : 0 < k) (hE : E .randomnessExhausted) :
    Ends (fun _ => True) (source.bits k) (fun _ => True) E := by
  rw [bits, if_neg (not_le.mpr hk)]
  exact (take_ends source (Nat.pow 2 k.toNat) hE).bind fun t _ => .pure trivial

lemma range_ends [DigitLimit] (source : Entropy) {low high : ℤ} (hle : low ≤ high)
    (hE : E .randomnessExhausted) :
    Ends (fun _ => True) (source.range low high) (fun _ => True) E := by
  rw [range, if_neg (by omega)]
  exact (below_ends source (by omega) hE).bind fun t _ => .pure trivial

end Entropy

end HiddenOrder
