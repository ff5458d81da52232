import HiddenOrder.Search
import Mathlib.Tactic.Lemma

/-!
# Outcomes of computations

The library computes in three layers: plain computations that may fail, computations that also
draw from a source of entropy, and searches that remember besides.  A statement about one of them
starts by taking it apart into its steps.

* `ok_bind`, `error_bind`, **`bind_eq_ok`**, `bind_eq_error` — a computation in two steps returns
  exactly when both steps do.
* `ite_bind_ite` — two steps that return under conditions.
* `Decides` — a computation returns whether a proposition holds.
* `OkOrRefused` — a computation returns something of a kind, or refuses one of its inputs.
* **`bind_run_eq_ok`** — the same with a state; `endState` — the state that is left.
* `bind_run_congr`, `bind_congr_of_ok` — two steps that go on alike from what the first one gives.
* `Draw.ofExcept_run_eq_ok`, `Search.ofExcept_run_eq_ok`, `Search.draw_run_eq_ok` — the embeddings
  of one layer into the next.
* `Draw.times_succ_eq_ok`, `Draw.length_times` — the results of a repeated draw, and how many there
  are.
-/

namespace HiddenOrder

/-! ## Computations that may fail -/

section Plain

variable {ε α β : Type}

@[simp]
lemma ok_bind (a : α) (f : α → Except ε β) : ((Except.ok a : Except ε α) >>= f) = f a := rfl

@[simp]
lemma error_bind (e : ε) (f : α → Except ε β) :
    ((Except.error e : Except ε α) >>= f) = .error e := rfl

@[simp]
lemma pure_eq_ok (a : α) : (pure a : Except ε α) = .ok a := rfl

/-- **Two steps return exactly when both do.** -/
theorem bind_eq_ok {x : Except ε α} {f : α → Except ε β} {b : β} :
    (x >>= f) = .ok b ↔ ∃ a, x = .ok a ∧ f a = .ok b := by
  cases x with
  | ok a => simp
  | error e => simp

/-- The failures of two steps: that of the first one, or that of the second one when the first
returns. -/
lemma bind_eq_error {x : Except ε α} {f : α → Except ε β} {e : ε} :
    (x >>= f) = .error e ↔ x = .error e ∨ ∃ a, x = .ok a ∧ f a = .error e := by
  cases x with
  | ok a => simp
  | error e => simp

/-- Two steps with one failure, each returning under a condition of its own, return under both. -/
lemma ite_bind_ite {γ : Type} {p q r : Prop} [Decidable p] [Decidable q] [Decidable r]
    (h : r ↔ p ∧ q) (a : α) (b : β) (f : α → β → γ) (e : ε) :
    ((if p then .ok a else .error e : Except ε α) >>= fun x =>
      (if q then .ok b else .error e : Except ε β) >>= fun y => pure (f x y))
      = if r then .ok (f a b) else .error e := by
  by_cases hp : p
  · by_cases hq : q
    · rw [if_pos hp, if_pos hq, if_pos (h.mpr ⟨hp, hq⟩)]
      rfl
    · rw [if_pos hp, if_neg hq, if_neg fun hr => hq (h.mp hr).2]
      rfl
  · rw [if_neg hp, if_neg fun hr => hp (h.mp hr).1]
    rfl

lemma toOption_eq_some {x : Except ε α} {a : α} : x.toOption = some a ↔ x = .ok a := by
  cases x with
  | ok b => simp [Except.toOption]
  | error e => simp [Except.toOption]

end Plain

/-- The computation does not fail, and returns whether `P` holds. -/
def Decides (r : Except Error Bool) (P : Prop) : Prop :=
  ∃ verdict, r = .ok verdict ∧ (verdict = true ↔ P)

namespace Decides

variable {r : Except Error Bool} {P : Prop}

lemma of_false (hr : r = .ok false) (hP : ¬P) : Decides r P :=
  ⟨false, hr, by simpa using hP⟩

lemma eq_true_iff (h : Decides r P) : r = .ok true ↔ P := by
  obtain ⟨verdict, hr, hP⟩ := h
  rw [hr, ← hP, Except.ok.injEq]

lemma eq_false_iff (h : Decides r P) : r = .ok false ↔ ¬P := by
  obtain ⟨verdict, hr, hP⟩ := h
  rw [hr, ← hP, Bool.not_eq_true, Except.ok.injEq]

lemma returns (h : Decides r P) : ∃ b, r = .ok b := by
  obtain ⟨b, hb, _⟩ := h
  exact ⟨b, hb⟩

end Decides

/-- The computation returns something with `P`, or refuses one of its inputs. -/
def OkOrRefused {α : Type} (P : α → Prop) (r : Except Error α) : Prop :=
  (∃ a, r = .ok a ∧ P a) ∨ ∃ cause, r = .error (.precondition cause)

namespace OkOrRefused

variable {α β : Type} {P : α → Prop} {Q : β → Prop}

lemma ok {a : α} (h : P a) : OkOrRefused P (.ok a) := .inl ⟨a, rfl, h⟩

lemma refused (cause : Precondition) : OkOrRefused P (.error (.precondition cause)) :=
  .inr ⟨cause, rfl⟩

lemma bind {x : Except Error α} {f : α → Except Error β} (hx : OkOrRefused P x)
    (hf : ∀ a, P a → OkOrRefused Q (f a)) : OkOrRefused Q (x >>= f) := by
  obtain ⟨a, rfl, ha⟩ | ⟨cause, rfl⟩ := hx
  · exact hf a ha
  · exact refused cause

end OkOrRefused

/-! ## Computations with a state -/

section Stateful

variable {ε σ α β : Type}

/-- The state that a run ended in, whether with a result or with a failure. -/
def endState : EStateM.Result ε σ α → σ
  | .ok _ s => s
  | .error _ s => s

@[simp]
lemma pure_run (a : α) (s : σ) : (pure a : EStateM ε σ α) s = .ok a s := rfl

@[simp]
lemma throw_run (e : ε) (s : σ) : (throw e : EStateM ε σ α) s = .error e s := rfl

lemma bind_run_of_ok {x : EStateM ε σ α} {f : α → EStateM ε σ β} {s s₁ : σ} {a : α}
    (h : x s = .ok a s₁) : (x >>= f) s = f a s₁ := by
  show EStateM.bind x f s = _
  rw [EStateM.bind, h]

lemma bind_run_of_error {x : EStateM ε σ α} {f : α → EStateM ε σ β} {s s₁ : σ} {e : ε}
    (h : x s = .error e s₁) : (x >>= f) s = .error e s₁ := by
  show EStateM.bind x f s = _
  rw [EStateM.bind, h]

/-- **Two steps with a state return exactly when both do**, the second from where the first left
off. -/
theorem bind_run_eq_ok {x : EStateM ε σ α} {f : α → EStateM ε σ β} {s s' : σ} {b : β} :
    (x >>= f) s = .ok b s' ↔ ∃ a s₁, x s = .ok a s₁ ∧ f a s₁ = .ok b s' := by
  cases h : x s with
  | ok a s₁ =>
      rw [bind_run_of_ok h]
      refine ⟨fun hf => ⟨a, s₁, rfl, hf⟩, ?_⟩
      rintro ⟨_, _, ⟨⟩, hf⟩
      exact hf
  | error e s₁ =>
      rw [bind_run_of_error h]
      simp

/-- Two steps end alike when the first ones do and the second ones go on alike from there. -/
lemma bind_run_congr {x y : EStateM ε σ α} {f g : α → EStateM ε σ β} {s : σ} (hx : x s = y s)
    (h : ∀ a s', y s = .ok a s' → f a s' = g a s') : (x >>= f) s = (y >>= g) s := by
  cases hy : y s with
  | ok a s' => rw [bind_run_of_ok (hx.trans hy), bind_run_of_ok hy, h a s' hy]
  | error e s' => rw [bind_run_of_error (hx.trans hy), bind_run_of_error hy]

/-- Computations that go on alike from whatever their first step gives are alike. -/
lemma bind_congr_of_ok {x : EStateM ε σ α} {f g : α → EStateM ε σ β}
    (h : ∀ s a s', x s = .ok a s' → f a s' = g a s') : x >>= f = x >>= g :=
  funext fun s => bind_run_congr rfl (h s)

lemma run'_eq_some {x : EStateM ε σ α} {s : σ} {a : α} :
    x.run' s = some a ↔ ∃ s', x s = .ok a s' := by
  change (match x s with | .ok b _ => some b | .error _ _ => none) = some a ↔ _
  cases x s with
  | ok b s' => simp
  | error e s' => simp

end Stateful

/-! ## From one layer to the next -/

section Layers

variable {α : Type}

/-- A plain computation among draws returns what it returns, and no draw is made. -/
lemma Draw.ofExcept_run_eq_ok {r : Except Error α} {n n' : Nat} {a : α} :
    Draw.ofExcept r n = .ok a n' ↔ r = .ok a ∧ n = n' := by
  cases r with
  | ok b => simp [Draw.ofExcept]
  | error e => simp [Draw.ofExcept]

lemma Draw.ofExcept_run_of_error {r : Except Error α} {n : Nat} {e : Error} (h : r = .error e) :
    Draw.ofExcept r n = .error e n := by
  rw [h]
  rfl

/-- A plain computation in a search leaves the state as it is. -/
lemma Search.ofExcept_run_eq_ok {r : Except Error α} {s s' : SearchState} {a : α} :
    Search.ofExcept r s = .ok a s' ↔ r = .ok a ∧ s = s' := by
  cases r with
  | ok b => simp [Search.ofExcept]
  | error e => simp [Search.ofExcept]

/-- What is drawn in a search is drawn where the search stands. -/
lemma Search.draw_run_eq_ok {d : Draw α} {s s' : SearchState} {a : α}
    (h : Search.draw d s = .ok a s') : d s.draws = .ok a s'.draws := by
  rw [Search.draw] at h
  cases hd : d s.draws with
  | ok b n =>
      rw [hd] at h
      simp only [EStateM.Result.ok.injEq] at h
      rw [h.1, ← h.2]
  | error e n =>
      rw [hd] at h
      simp at h

lemma Search.draw_run_of_ok {d : Draw α} {s : SearchState} {a : α} {n : Nat}
    (h : d s.draws = .ok a n) : Search.draw d s = .ok a { s with draws := n } := by
  rw [Search.draw, h]

/-- A draw is repeated by being made once, and then as often as is left. -/
lemma Draw.times_succ_eq_ok {d : Draw α} {n i i' : Nat} {as : List α} :
    Draw.times d (n + 1) i = .ok as i' ↔
      ∃ a i₁ rest, d i = .ok a i₁ ∧ Draw.times d n i₁ = .ok rest i' ∧ as = a :: rest := by
  rw [Draw.times, bind_run_eq_ok]
  constructor
  · rintro ⟨a, i₁, ha, h⟩
    obtain ⟨rest, i₂, hrest, h⟩ := bind_run_eq_ok.mp h
    cases h
    exact ⟨a, i₁, rest, ha, hrest, rfl⟩
  · rintro ⟨a, i₁, rest, ha, hrest, rfl⟩
    exact ⟨a, i₁, ha, bind_run_eq_ok.mpr ⟨rest, i', hrest, rfl⟩⟩

lemma Draw.length_times {d : Draw α} {n : Nat} :
    ∀ {i i' : Nat} {as : List α}, Draw.times d n i = .ok as i' → as.length = n := by
  induction n with
  | zero =>
      intro i i' as h
      rw [Draw.times, pure_run] at h
      simp only [EStateM.Result.ok.injEq] at h
      rw [← h.1, List.length_nil]
  | succ n ih =>
      intro i i' as h
      obtain ⟨a, i₁, rest, -, hrest, rfl⟩ := Draw.times_succ_eq_ok.mp h
      rw [List.length_cons, ih hrest]

end Layers

end HiddenOrder
