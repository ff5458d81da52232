import HiddenOrder.Error.Message
import HiddenOrder.Proofs.Outcome
import Mathlib.Algebra.Group.Int.Defs
import Mathlib.Algebra.Group.Nat.Defs
import Mathlib.Tactic.SplitIfs

/-!
# What can be written under a limit

The limit on numerals decides over the integers in a text and over nothing else: a text is written
when all of them are within the limit, and otherwise the fault takes its place.  Smaller integers
are within the limit when larger ones are, and short ones always are.

* `Writable.of_natAbs_le`, **`writable_of_lt_threshold`** — integers within the limit.
* `Wording.Fits` — a text whose integers are within the limit.
* **`Wording.write_eq`**, **`refuse_eq`**, `exhausted_eq` — what is written, and what a failure with
  a text comes to.
* `exhausted_of_writable`, `exhausted_of_not_writable` — a search that is named by a number.
-/

namespace HiddenOrder

/-- Without a limit every integer can be written. -/
lemma writable_off (n : ℤ) : @Writable .off n := nofun

/-- By default 4300 digits are written, and 4301 are not. -/
example : @Writable .standard (Nat.pow 10 4300 - 1 : Nat) ∧
    ¬@Writable .standard (Nat.pow 10 4300 : Nat) := by
  decide +kernel

section

variable [DigitLimit] {m n : ℤ}

/-! ## Integers -/

lemma Writable.of_natAbs_le (hn : Writable n) (h : m.natAbs ≤ n.natAbs) : Writable m :=
  fun d hd => Nat.lt_of_le_of_lt h (hn d hd)

lemma Writable.of_lt (hn : Writable n) (hm : 0 ≤ m) (h : m < n) : Writable m :=
  hn.of_natAbs_le (by omega)

/-- **Short integers can be written under every limit.** -/
theorem writable_of_lt_threshold (h : n.natAbs < 10 ^ digitThreshold) : Writable n := fun _ hd =>
  Nat.lt_of_lt_of_le h (Nat.pow_le_pow_right (by decide) (DigitLimit.threshold_le _ hd))

lemma Decimal.write_of_writable (h : Writable n) : Decimal.write n = .ok (toString n) := if_pos h

lemma Decimal.write_of_not_writable (h : ¬Writable n) :
    Decimal.write n = .error (.fault .longNumeral) := if_neg h

lemma Decimal.write_eq_ok_iff {s : String} :
    Decimal.write n = .ok s ↔ Writable n ∧ s = toString n := by
  rw [Decimal.write]
  split_ifs with h
  · rw [Except.ok.injEq, eq_comm]
    exact (and_iff_right h).symm
  · simp [h]

/-! ## Texts -/

omit [DigitLimit] in
lemma Wording.render_append (v w : Wording) : render (v ++ w) = render v ++ render w := by
  fun_induction render v with
  | case1 => rfl
  | case2 t rest ih => rw [List.cons_append, render, ih, List.append_assoc]
  | case3 n rest ih => rw [List.cons_append, render, ih, List.append_assoc]

omit [DigitLimit] in
lemma Wording.numbers_append (v w : Wording) : numbers (v ++ w) = numbers v ++ numbers w := by
  fun_induction numbers v with
  | case1 => rfl
  | case2 t rest ih => rw [List.cons_append, numbers, ih]
  | case3 n rest ih => rw [List.cons_append, numbers, ih, List.cons_append]

/-- The integers in a text can be written. -/
def Wording.Fits (w : Wording) : Prop := ∀ n ∈ w.numbers, Writable n

instance (w : Wording) : Decidable w.Fits :=
  inferInstanceAs (Decidable (∀ n ∈ w.numbers, Writable n))

namespace Wording

variable {w : Wording} {e : Error}

/-- **A text is written when its integers can be.** -/
theorem write_eq (w : Wording) :
    w.write = if w.Fits then .ok w.render else .error (.fault .longNumeral) := by
  induction w with
  | nil => rfl
  | cons p w ih =>
      cases p with
      | text t =>
          rw [write, ih]
          by_cases h : Fits w
          · rw [if_pos h, if_pos (show Fits (.text t :: w) from h)]
            rfl
          · rw [if_neg h, if_neg (show ¬Fits (.text t :: w) from h)]
            rfl
      | number n =>
          have hfits : Fits (.number n :: w) ↔ Writable n ∧ Fits w := List.forall_mem_cons
          rw [write, ih]
          exact ite_bind_ite hfits _ _ _ _

lemma failure_eq (w : Wording) (e : Error) :
    w.failure e = if w.Fits then e else .fault .longNumeral := by
  rw [failure, write_eq]
  split_ifs <;> rfl

end Wording

/-! ## Failures -/

/-- **A refusal comes about when its text can be written**, and the fault in its place otherwise. -/
theorem refuse_eq (cause : Precondition) :
    refuse cause = if cause.wording.Fits then .precondition cause else .fault .longNumeral :=
  Wording.failure_eq _ _

lemma refuse_of_fits {cause : Precondition} (h : cause.wording.Fits) :
    refuse cause = .precondition cause := by
  rw [refuse_eq, if_pos h]

/-- A refusal with two numbers in its text. -/
lemma refuse_of_two {cause : Precondition} (hnumbers : cause.wording.numbers = [m, n]) :
    refuse cause = if Writable m ∧ Writable n then .precondition cause
      else .fault .longNumeral := by
  have hfits : cause.wording.Fits ↔ Writable m ∧ Writable n := by
    rw [Wording.Fits, hnumbers, List.forall_mem_cons, List.forall_mem_singleton]
  rw [refuse_eq]
  by_cases h : Writable m ∧ Writable n
  · rw [if_pos (hfits.mpr h), if_pos h]
  · rw [if_neg fun hw => h (hfits.mp hw), if_neg h]

lemma refuse_cases (cause : Precondition) :
    refuse cause = .precondition cause ∨ refuse cause = .fault .longNumeral := by
  rw [refuse_eq]
  split_ifs
  · exact .inl rfl
  · exact .inr rfl

omit [DigitLimit] in
/-- Without a limit every refusal has its text. -/
lemma refuse_off (cause : Precondition) : @refuse .off cause = .precondition cause :=
  @refuse_of_fits .off cause fun n _ => writable_off n

/-- What is refused with a text that can be written is refused. -/
lemma OkOrRefused.of_fits {α : Type} {P : α → Prop} {cause : Precondition}
    (h : cause.wording.Fits) : OkOrRefused P (.error (refuse cause)) := by
  rw [refuse_of_fits h]
  exact .refused cause

lemma exhausted_eq (sought : Sought) :
    exhausted sought = if sought.wording.Fits then .ok (.trialFailed sought)
      else .error (.fault .longNumeral) := by
  rw [exhausted, Wording.write_eq]
  split_ifs <;> rfl

/-! A search is named by one number. -/

section

variable {sought : Sought}

lemma exhausted_of_writable (hnumbers : sought.wording.numbers = [n]) (hn : Writable n) :
    exhausted sought = .ok (.trialFailed sought) := by
  rw [exhausted_eq, if_pos]
  rw [Wording.Fits, hnumbers, List.forall_mem_singleton]
  exact hn

lemma exhausted_of_not_writable (hnumbers : sought.wording.numbers = [n]) (hn : ¬Writable n) :
    exhausted sought = .error (.fault .longNumeral) := by
  rw [exhausted_eq, if_neg]
  rw [Wording.Fits, hnumbers, List.forall_mem_singleton]
  exact hn

end

end

end HiddenOrder
