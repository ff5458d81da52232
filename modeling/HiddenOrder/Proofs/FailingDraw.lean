import HiddenOrder.Proofs.Ends
import HiddenOrder.Squares.Two

/-!
# Runs that meet a failing draw

Suppose that a source fails at the draw with a certain number, and possibly at others after it.  A
computation that starts before this draw may end before it, in whatever way.  If it does not, it
makes the draw, and what can be said then is that it fails, and how.  This is carried through
sequences, repetitions and races like any other statement about ends, with one difference: a race
goes on when one of its workers has failed, and it reports the first failure.  So with several
workers it matters what each of them fails with, before the draw as well, and what happens after the
first failure does not.

* **`StopsAt`** — a computation ends before the draw, or fails in one of some ways.
* `FailsWith` — it returns before the draw, or fails in one of some ways.
* `StopsAt.bind`, `StopsAt.bind_of_ends`, `StopsAt.and` — sequences, with what else is known of
  their first part, and runs through states of which more is known.
* **`StopsAt.race`**, `StopsAt.race_withinTrials` — a race stops like its workers, and these like
  their trials.
* `Entropy.FailsAt` — a source that fails at a draw.
* `Entropy.below_stops`, `Entropy.range_stops`, `Entropy.bits_stops`, **`Entropy.prime_stops`** —
  the four ways to draw.
* `StopsAt.draw`, `StopsAt.idle` — the steps that searches are made of.
-/

namespace HiddenOrder

section

variable {ε σ α β : Type} {B I : σ → Prop} {P : α → Prop} {E F : ε → Prop}

/-- From a state with `B` the computation ends in such a state, or it fails with a failure that has
`E`. -/
def StopsAt (B : σ → Prop) (x : EStateM ε σ α) (E : ε → Prop) : Prop :=
  ∀ s, B s → match x s with
    | .ok _ s' => B s'
    | .error e s' => B s' ∨ E e

/-- From a state with `B` the computation returns in such a state, or it fails with a failure that
has `E`. -/
def FailsWith (B : σ → Prop) (x : EStateM ε σ α) (E : ε → Prop) : Prop :=
  ∀ s, B s → match x s with
    | .ok _ s' => B s'
    | .error e _ => E e

namespace FailsWith

protected lemma pure (a : α) : FailsWith B (pure a : EStateM ε σ α) E := fun _ hs => hs

protected lemma bind {x : EStateM ε σ α} {f : α → EStateM ε σ β} (hx : FailsWith B x E)
    (hf : ∀ a, FailsWith B (f a) E) : FailsWith B (x >>= f) E := by
  intro s hs
  have h := hx s hs
  cases hrun : x s with
  | ok a s' =>
      rw [hrun] at h
      rw [bind_run_of_ok hrun]
      exact hf a s' h
  | error e s' =>
      rw [hrun] at h
      rw [bind_run_of_error hrun]
      exact h

end FailsWith

namespace StopsAt

protected lemma pure (a : α) : StopsAt B (pure a : EStateM ε σ α) E := fun _ hs => hs

protected lemma throw (e : ε) : StopsAt B (throw e : EStateM ε σ α) E := fun _ hs => .inl hs

/-- A sequence, with what is known of the results of its first part. -/
lemma bind_of_ends {x : EStateM ε σ α} {f : α → EStateM ε σ β} (hx : StopsAt B x E)
    (hends : Ends I x P F) (hI : ∀ s, B s → I s) (hf : ∀ a, P a → StopsAt B (f a) E) :
    StopsAt B (x >>= f) E := by
  intro s hs
  have h := hx s hs
  cases hrun : x s with
  | ok a s' =>
      rw [hrun] at h
      rw [bind_run_of_ok hrun]
      exact hf a (hends.of_ok (hI s hs) hrun).1 s' h
  | error e s' =>
      rw [hrun] at h
      rw [bind_run_of_error hrun]
      exact h

protected lemma bind {x : EStateM ε σ α} {f : α → EStateM ε σ β} (hx : StopsAt B x E)
    (hf : ∀ a, StopsAt B (f a) E) : StopsAt B (x >>= f) E := by
  have hends : Ends (fun _ => True) x (fun _ => True) fun _ => True := by
    intro s _
    cases x s with
    | ok a s' => exact ⟨trivial, trivial⟩
    | error e s' => exact ⟨trivial, trivial⟩
  exact hx.bind_of_ends hends (fun _ _ => trivial) fun a _ => hf a

/-- Two ways that meet again. -/
lemma ite_bind {c : Prop} [Decidable c] {x y : EStateM ε σ α} {f : α → EStateM ε σ β}
    (hx : StopsAt B x E) (hy : StopsAt B y E) (hf : ∀ a, StopsAt B (f a) E) :
    StopsAt B (if c then x >>= f else y >>= f) E := by
  split_ifs with hc
  · exact hx.bind hf
  · exact hy.bind hf

lemma mono {x : EStateM ε σ α} (hx : StopsAt B x E) (hE : ∀ e, E e → F e) : StopsAt B x F := by
  intro s hs
  have h := hx s hs
  cases hrun : x s with
  | ok a s' =>
      rw [hrun] at h
      exact h
  | error e s' =>
      rw [hrun] at h
      exact h.imp_right (hE e)

/-- What is kept throughout is known in the end. -/
lemma and {x : EStateM ε σ α} (hx : StopsAt B x E) (hends : Ends I x P F) :
    StopsAt (fun s => B s ∧ I s) x E := by
  rintro s ⟨hB, hI⟩
  have h := hx s hB
  have h' := hends s hI
  cases hrun : x s with
  | ok a s' =>
      rw [hrun] at h h'
      exact ⟨h, h'.2⟩
  | error e s' =>
      rw [hrun] at h h'
      exact h.imp_left fun hB' => ⟨hB', h'.2⟩

/-- All failures are known when those before the draw are. -/
lemma failsWith {x : EStateM ε σ α} (hx : StopsAt B x E) (hends : Ends I x P E)
    (hI : ∀ s, B s → I s) : FailsWith B x E := by
  intro s hs
  have h := hx s hs
  have h' := hends s (hI s hs)
  cases hrun : x s with
  | ok a s' =>
      rw [hrun] at h
      exact h
  | error e s' =>
      rw [hrun] at h'
      exact h'.1

/-! ## Trials and races -/

protected lemma attempt {trial spent : EStateM ε σ (Option α)} (htrial : StopsAt B trial E)
    (hspent : StopsAt B spent E) (trials : ℕ) : StopsAt B (attempt trial spent trials) E := by
  induction trials with
  | zero => exact hspent
  | succ trials ih =>
      rw [HiddenOrder.attempt]
      refine htrial.bind fun r => ?_
      cases r with
      | some value => exact .pure _
      | none => exact ih

lemma withinTrials {trial : EStateM ε σ (Option α)} (htrial : StopsAt B trial E)
    (maxTrials : Option ℤ) (steps : ℕ) (unended : ε) :
    StopsAt B (withinTrials maxTrials steps unended trial) E := by
  cases maxTrials with
  | none => exact htrial.attempt (.throw unended) steps
  | some most => exact htrial.attempt (.pure none) most.toNat

lemma runWorker_fails {search : EStateM ε σ (Option α)} (hsearch : FailsWith B search E)
    (token : Token α) : FailsWith B (runWorker search token) E := by
  rw [runWorker]
  split_ifs with hcancelled
  · exact .pure token
  · refine hsearch.bind fun r => ?_
    cases r with
    | none => exact .pure token
    | some value => exact .pure _

/-- Workers in order, none of which has failed: either all of them end before the draw, or one fails
with a failure that has `E`, and it is the one that is kept. -/
lemma runWorkers_fails {search : ℕ → EStateM ε σ (Option α)}
    (hsearch : ∀ worker, FailsWith B (search worker) E) :
    ∀ (workers : List ℕ) (token : Token α) {s : σ}, B s →
      (∃ e, (runWorkers search workers token none s).1.2 = some e ∧ E e) ∨
        (runWorkers search workers token none s).1.2 = none ∧
          B (runWorkers search workers token none s).2
  | [], _, _, hs => .inr ⟨rfl, hs⟩
  | worker :: rest, token, s, hs => by
      have hstep := runWorker_fails (hsearch worker) token s hs
      rw [runWorkers]
      cases hrun : runWorker (search worker) token s with
      | ok token' s' =>
          rw [hrun] at hstep
          exact runWorkers_fails hsearch rest token' hstep
      | error e s' =>
          rw [hrun] at hstep
          exact .inl ⟨e, runWorkers_of_failure search rest token e s', hstep⟩

/-- **A race stops like its workers.**  Where there are several, what they fail with has to be known
before the draw too, because the first failure is the one that the race reports. -/
theorem race {search : ℕ → ℕ → EStateM ε σ (Option α)} {workers : ℤ}
    (hstops : ∀ worker count, StopsAt B (search worker count) E)
    (hfails : 1 < workers → ∀ worker count, FailsWith B (search worker count) E)
    (exhausted : ε) : StopsAt B (race search workers exhausted) E := by
  intro s hs
  by_cases hsingle : workers ≤ 1
  · rw [race_of_le_one search hsingle]
    refine (hstops 0 1).bind (fun found => ?_) s hs
    cases found with
    | some value => exact .pure value
    | none => exact .throw exhausted
  · have hend := runWorkers_fails (fun worker => hfails (by omega) worker (max 1 workers).toNat)
      (List.range (max 1 workers).toNat) .fresh hs
    rw [HiddenOrder.race]
    generalize runWorkers (search · (max 1 workers).toNat) (List.range (max 1 workers).toNat)
      .fresh none s = r at hend
    obtain ⟨⟨⟨cancelled, winner⟩, failure⟩, s'⟩ := r
    rcases hend with ⟨e, rfl, he⟩ | ⟨rfl, hs'⟩
    · exact .inr he
    · cases winner with
      | some value => exact hs'
      | none => exact .inl hs'

/-- A race of workers that make one trial after another. -/
theorem race_withinTrials {trial : ℕ → ℕ → EStateM ε σ (Option α)} {workers : ℤ} {unended : ε}
    (hstops : ∀ worker count, StopsAt B (trial worker count) E)
    (hends : 1 < workers → ∀ worker count, Ends I (trial worker count) (fun r => ∀ a ∈ r, P a) E)
    (hunended : 1 < workers → E unended) (hI : ∀ s, B s → I s) (maxTrials : Option ℤ) (steps : ℕ)
    (exhausted : ε) :
    StopsAt B (HiddenOrder.race (fun worker count =>
      HiddenOrder.withinTrials maxTrials steps unended (trial worker count)) workers exhausted)
      E := by
  refine race (fun worker count => (hstops worker count).withinTrials _ _ _) ?_ exhausted
  intro hseveral worker count
  exact ((hstops worker count).withinTrials _ _ _).failsWith
    ((hends hseveral worker count).withinTrials (hunended hseveral) _ _) hI

end StopsAt

end

/-! ## Draws -/

/-- The source fails at draw `k`, whatever the bound. -/
def Entropy.FailsAt (source : Entropy) (k : ℕ) : Prop := ∀ bound, source k bound = none

/-- Draw `k` has not been made. -/
def Draw.Before (k i : ℕ) : Prop := i ≤ k

namespace Entropy

variable {source : Entropy} {k : ℕ} {E : Error → Prop}

/-- Behind a draw, if it was not the failing one. -/
lemma FailsAt.succ_le {i bound : ℕ} {t : ℤ} (h : source.FailsAt k) (hi : Draw.Before k i)
    (ht : source i bound = some t) : Draw.Before k (i + 1) := by
  have hne : i ≠ k := by
    rintro rfl
    simp [h bound] at ht
  rw [Draw.Before] at hi ⊢
  omega

lemma take_stops (h : source.FailsAt k) (hE : E .randomnessExhausted) (bound : ℕ) :
    StopsAt (Draw.Before k) (source.take bound) E := by
  intro i hi
  rw [take]
  cases hanswer : source i bound with
  | some t =>
      have hnext : source.next bound i = .ok (some (t % (bound : ℤ)).toNat) (i + 1) := by
        rw [next, hanswer, Option.map_some]
      rw [bind_run_of_ok hnext]
      exact h.succ_le hi hanswer
  | none =>
      have hnext : source.next bound i = .ok none (i + 1) := by
        rw [next, hanswer, Option.map_none]
      rw [bind_run_of_ok hnext]
      exact .inr hE

lemma below_stops [DigitLimit] (h : source.FailsAt k) (hE : E .randomnessExhausted) (bound : ℤ) :
    StopsAt (Draw.Before k) (source.below bound) E := by
  rw [below]
  split_ifs with hbound
  · exact (StopsAt.throw _).bind fun _ => (take_stops h hE _).bind fun t => .pure _
  · exact (take_stops h hE _).bind fun t => .pure _

lemma bits_stops [DigitLimit] (h : source.FailsAt k) (hE : E .randomnessExhausted) (n : ℤ) :
    StopsAt (Draw.Before k) (source.bits n) E := by
  rw [bits]
  split_ifs with hn
  · exact (StopsAt.throw _).bind fun _ => (take_stops h hE _).bind fun t => .pure _
  · exact (take_stops h hE _).bind fun t => .pure _

lemma range_stops [DigitLimit] (h : source.FailsAt k) (hE : E .randomnessExhausted) (low high : ℤ) :
    StopsAt (Draw.Before k) (source.range low high) E := by
  rw [range]
  split_ifs with hempty
  · exact (StopsAt.throw _).bind fun _ => (below_stops h hE _).bind fun t => .pure _
  · exact (below_stops h hE _).bind fun t => .pure _

/-- **Primes are drawn by other means**: there the failure of the source is a fault of its own. -/
theorem prime_stops (h : source.FailsAt k) (hE : E (.fault .entropySource)) (isPrime : ℕ → Bool)
    (bits steps : ℕ) : StopsAt (Draw.Before k) (source.prime isPrime bits steps) E := by
  induction steps with
  | zero => exact .throw _
  | succ steps ih =>
      intro i hi
      rw [prime]
      cases hanswer : source i (Nat.pow 2 bits) with
      | some t =>
          have hnext : source.next (Nat.pow 2 bits) i
              = .ok (some (t % (Nat.pow 2 bits : ℤ)).toNat) (i + 1) := by
            rw [next, hanswer, Option.map_some]
          rw [bind_run_of_ok hnext]
          dsimp only
          split_ifs with hprime
          · exact h.succ_le hi hanswer
          · exact ih (i + 1) (h.succ_le hi hanswer)
      | none =>
          have hnext : source.next (Nat.pow 2 bits) i = .ok none (i + 1) := by
            rw [next, hanswer, Option.map_none]
          rw [bind_run_of_ok hnext]
          exact .inr hE

end Entropy

/-! ## Steps -/

namespace StopsAt

variable {α : Type} {k : ℕ} {E : Error → Prop}

lemma drawOfExcept (r : Except Error α) : StopsAt (Draw.Before k) (Draw.ofExcept r) E := by
  cases r with
  | ok a => exact .pure a
  | error e => exact .throw e

lemma times {d : Draw α} (hd : StopsAt (Draw.Before k) d E) (n : ℕ) :
    StopsAt (Draw.Before k) (d.times n) E := by
  induction n with
  | zero => exact .pure []
  | succ n ih =>
      rw [Draw.times]
      exact hd.bind fun a => ih.bind fun rest => .pure _

end StopsAt

/-- Draw `k` has not been made. -/
def Search.Before (k : ℕ) (s : SearchState) : Prop := s.draws ≤ k

namespace StopsAt

variable {α : Type} {k : ℕ} {E : Error → Prop}

lemma draw {d : Draw α} (hd : StopsAt (Draw.Before k) d E) :
    StopsAt (Search.Before k) (Search.draw d) E := by
  intro s hs
  have h := hd s.draws hs
  rw [Search.draw]
  cases hrun : d s.draws with
  | ok a n =>
      rw [hrun] at h
      exact h
  | error e n =>
      rw [hrun] at h
      exact h

/-- A step that makes no draw. -/
lemma idle {x : Search α} (hx : ∀ s, match x s with
    | .ok _ s' => s'.draws = s.draws
    | .error _ s' => s'.draws = s.draws) : StopsAt (Search.Before k) x E := by
  intro s hs
  have h := hx s
  cases hrun : x s with
  | ok a s' =>
      rw [hrun] at h
      exact h.trans_le hs
  | error e s' =>
      rw [hrun] at h
      exact .inl (h.trans_le hs)

lemma ofExcept {B : SearchState → Prop} (r : Except Error α) :
    StopsAt B (Search.ofExcept r) E := by
  cases r with
  | ok a => exact .pure a
  | error e => exact .throw e

lemma primes (use : PrimeCache → α × PrimeCache) :
    StopsAt (Search.Before k) (Search.primes use) E := .idle fun _ => rfl

lemma gaussians (use : ScratchPool Gaussian → α × ScratchPool Gaussian) :
    StopsAt (Search.Before k) (Search.gaussians use) E := .idle fun _ => rfl

lemma quaternions (use : ScratchPool Hurwitz → α × ScratchPool Hurwitz) :
    StopsAt (Search.Before k) (Search.quaternions use) E := .idle fun _ => rfl

lemma squareLimit : StopsAt (Search.Before k) squareLimit E := .idle fun _ => rfl

lemma squares (use : SquareCache → Except Error α × SquareCache) :
    StopsAt (Search.Before k) (Search.squares use) E := by
  refine .idle fun s => ?_
  rw [Search.squares]
  rcases use s.cache.squares with ⟨r, c⟩
  cases r with
  | ok a => rfl
  | error e => rfl

end StopsAt

end HiddenOrder
