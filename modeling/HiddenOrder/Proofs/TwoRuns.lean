import HiddenOrder.Proofs.Outcome
import HiddenOrder.Race
import Mathlib.Algebra.Order.Ring.Int
import Mathlib.Tactic.SplitIfs

/-!
# Two runs of one computation

That a computation does not depend on some part of its state is said of two of its runs: from states
that differ in that part at most, they end with the same result or the same failure, and again in
such states.  Like what is known of single ends, it is said of the steps and carried through
sequences, repetitions and races.

* `EndAlike`, **`Respects`** — two ends, and a computation all of whose runs from related states end
  alike.
* `Respects.bind`, `Respects.attempt`, `Respects.withinTrials`, **`Respects.race`** — from the steps
  to the whole.
-/

namespace HiddenOrder

variable {ε σ α β : Type} {R : σ → σ → Prop}

/-- Two runs with the same result or the same failure, and with related states at the end. -/
inductive EndAlike (R : σ → σ → Prop) : EStateM.Result ε σ α → EStateM.Result ε σ α → Prop
  | ok (a : α) {s s' : σ} (h : R s s') : EndAlike R (.ok a s) (.ok a s')
  | error (e : ε) {s s' : σ} (h : R s s') : EndAlike R (.error e s) (.error e s')

/-- From related states the computation ends alike. -/
def Respects (R : σ → σ → Prop) (x : EStateM ε σ α) : Prop :=
  ∀ s s', R s s' → EndAlike R (x s) (x s')

namespace Respects

protected lemma pure (a : α) : Respects R (pure a : EStateM ε σ α) := fun _ _ h => .ok a h

protected lemma throw (e : ε) : Respects R (throw e : EStateM ε σ α) := fun _ _ h => .error e h

protected lemma bind {x : EStateM ε σ α} {f : α → EStateM ε σ β} (hx : Respects R x)
    (hf : ∀ a, Respects R (f a)) : Respects R (x >>= f) := by
  intro s s' h
  have hend := hx s s' h
  generalize hrun : x s = r at hend
  generalize hrun' : x s' = r' at hend
  cases hend with
  | ok a h =>
      rw [bind_run_of_ok hrun, bind_run_of_ok hrun']
      exact hf a _ _ h
  | error e h =>
      rw [bind_run_of_error hrun, bind_run_of_error hrun']
      exact .error e h

/-- Two ways that meet again. -/
lemma ite_bind {c : Prop} [Decidable c] {x y : EStateM ε σ α} {f : α → EStateM ε σ β}
    (hx : Respects R x) (hy : Respects R y) (hf : ∀ a, Respects R (f a)) :
    Respects R (if c then x >>= f else y >>= f) := by
  split_ifs
  · exact hx.bind hf
  · exact hy.bind hf

/-! ## Trials and races -/

protected lemma attempt {trial spent : EStateM ε σ (Option α)} (htrial : Respects R trial)
    (hspent : Respects R spent) (trials : ℕ) : Respects R (attempt trial spent trials) := by
  induction trials with
  | zero => exact hspent
  | succ trials ih =>
      rw [attempt]
      refine htrial.bind fun r => ?_
      cases r with
      | some value => exact .pure _
      | none => exact ih

protected lemma withinTrials {trial : EStateM ε σ (Option α)} (htrial : Respects R trial)
    (maxTrials : Option ℤ) (steps : ℕ) (unended : ε) :
    Respects R (withinTrials maxTrials steps unended trial) := by
  cases maxTrials with
  | none => exact htrial.attempt (.throw unended) steps
  | some most => exact htrial.attempt (.pure none) most.toNat

lemma runWorker {search : EStateM ε σ (Option α)} (hsearch : Respects R search) (token : Token α) :
    Respects R (runWorker search token) := by
  rw [HiddenOrder.runWorker]
  split_ifs
  · exact .pure token
  · refine hsearch.bind fun r => ?_
    cases r with
    | some value => exact .pure _
    | none => exact .pure token

lemma runWorkers {search : ℕ → EStateM ε σ (Option α)} (hsearch : ∀ w, Respects R (search w))
    (workers : List ℕ) (token : Token α) (failure : Option ε) {s s' : σ} (h : R s s') :
    (runWorkers search workers token failure s).1 = (runWorkers search workers token failure s').1 ∧
      R (runWorkers search workers token failure s).2
        (runWorkers search workers token failure s').2 := by
  induction workers generalizing token failure s s' with
  | nil => exact ⟨rfl, h⟩
  | cons worker rest ih =>
      have hend := (hsearch worker).runWorker token s s' h
      rw [HiddenOrder.runWorkers, HiddenOrder.runWorkers]
      generalize HiddenOrder.runWorker (search worker) token s = r at hend
      generalize HiddenOrder.runWorker (search worker) token s' = r' at hend
      cases hend with
      | ok token h => exact ih token failure h
      | error e h => exact ih token (failure.or (some e)) h

/-- **A race respects what its workers respect.** -/
protected theorem race {search : ℕ → ℕ → EStateM ε σ (Option α)}
    (hsearch : ∀ worker workers, Respects R (search worker workers)) (workers : ℤ) (exhausted : ε) :
    Respects R (race search workers exhausted) := by
  intro s s' h
  obtain ⟨hfirst, hstate⟩ := runWorkers (fun worker => hsearch worker (max 1 workers).toNat)
    (List.range (max 1 workers).toNat) .fresh none h
  rw [HiddenOrder.race, HiddenOrder.race]
  generalize HiddenOrder.runWorkers (search · (max 1 workers).toNat)
    (List.range (max 1 workers).toNat) .fresh none s = r at hfirst hstate
  generalize HiddenOrder.runWorkers (search · (max 1 workers).toNat)
    (List.range (max 1 workers).toNat) .fresh none s' = r' at hfirst hstate
  obtain ⟨⟨⟨cancelled, winner⟩, failure⟩, t⟩ := r
  obtain ⟨_, t'⟩ := r'
  cases hfirst
  cases failure with
  | some e => exact .error e hstate
  | none =>
      cases winner with
      | some value => exact .ok value hstate
      | none => exact .error exhausted hstate

end Respects

end HiddenOrder
