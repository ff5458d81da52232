import HiddenOrder.Proofs.Outcome
import HiddenOrder.Accumulator.Tree
import Mathlib.Algebra.BigOperators.Group.Multiset.Basic
import Mathlib.Algebra.GroupWithZero.Nat

/-!
# Threads that prove a tree

The forked strategy counts its tasks, but works them off one after the other.  What an executor does
with them is told here: threads that each have some lines to work off and take turns as they like,
tasks that get a thread of their own while there may be another one and are queued when there may
not, and lines that wait for a task.  A thread gets one line further in a step.  Where a line proves
a range depth first it does so at once; that writes into the range and nowhere else, so nobody else
can tell.

* `Line`, `Thread`, `Executor` — what is still to be done, by whom, and with how many at a time.
* **`Executor.Step`**, `Executor.Steps` — what can happen next, and what has happened after so many
  steps.
* `Executor.total` — a quantity added up over all that is still to be done.
* **`Executor.Step.cost_lt`**, **`Executor.Steps.add_cost_le`** — every step leaves less to do, so
  that every run ends.
-/

namespace HiddenOrder

/-! ## Threads -/

/-- What a thread has still to do. -/
inductive Line where
  /-- The base of the left half of a range is worked out. -/
  | leftBase (node : TreeNode)
  /-- A range is proved, with so many levels of its tree split off. -/
  | call (depth : ℕ) (node : TreeNode)
  /-- The range has been cut; when the base of its left half is there, its halves are proved. -/
  | join (depth : ℕ) (node : TreeNode) (future : ℕ)
  /-- The left half of a range has been submitted, and its end is waited for. -/
  | await (future : ℕ)
deriving DecidableEq

namespace Line

/-- How many steps the proof of a range takes at most, with those of its tasks. -/
def callCost : (depth : ℕ) → ℕ
  | 0 => 1
  | depth + 1 => 2 * callCost depth + 6

lemma callCost_add_six (depth : ℕ) : callCost depth + 6 = 7 * 2 ^ depth := by
  induction depth with
  | zero => rfl
  | succ depth ih =>
      rw [callCost, pow_succ]
      omega

lemma callCost_pos (depth : ℕ) : 0 < callCost depth := by
  cases depth with
  | zero => exact Nat.one_pos
  | succ depth => exact Nat.succ_pos _

/-- How many steps a line takes at most, with those of the tasks that it submits. -/
def cost : Line → ℕ
  | .leftBase _ => 1
  | .call depth _ => callCost depth
  | .join depth _ _ => 2 * callCost depth + 3
  | .await _ => 1

lemma cost_pos (line : Line) : 0 < line.cost := by
  cases line with
  | leftBase node => exact Nat.one_pos
  | call depth node => exact callCost_pos depth
  | join depth node future => exact Nat.succ_pos _
  | await future => exact Nat.one_pos

end Line

/-- A thread: the task that it works off, by the number under which that was submitted, or none for
the thread that the proofs were asked from; and what is still to be done, the next in front. -/
structure Thread where
  /-- The number of its task. -/
  future : Option ℕ
  /-- What is still to be done. -/
  lines : List Line
deriving DecidableEq

/-- An executor in the middle of its work, and the list that the proofs are written to.  What a task
gives is determined by what was submitted, so it is not kept but worked out again where it is
used. -/
structure Executor where
  /-- How many threads there may be, apart from the one that waits for the proofs. -/
  workers : ℕ
  /-- The threads that have something to do, in no order. -/
  threads : Multiset Thread
  /-- The tasks that wait for a thread. -/
  queue : List (ℕ × Line)
  /-- The numbers of the tasks that have come to their end. -/
  finished : List ℕ
  /-- How many tasks have been submitted. -/
  submitted : ℕ
  /-- The list of proofs. -/
  proofs : List ℤ
deriving DecidableEq

namespace Executor

/-- How many threads work off a task. -/
def busy (s : Executor) : ℕ := s.threads.countP (·.future.isSome)

/-- The executor for a budget of levels, when the root of the tree is about to be proved. -/
def start (base : ℤ) (reps : List ℤ) (budget : ℕ) : Executor where
  workers := 2 <<< budget
  threads := {⟨none, [.call budget (rootNode base reps)]⟩}
  queue := []
  finished := []
  submitted := 0
  proofs := blankProofs reps

/-- One thread has got further, and the others have not. -/
def proceed (s : Executor) (thread : Thread) (others : Multiset Thread) : Executor :=
  { s with threads := thread ::ₘ others }

/-- A task is submitted.  It starts at once if there may be another thread; else it is queued. -/
def submit (s : Executor) (task : Line) : Executor :=
  if s.busy < s.workers then
    { s with threads := ⟨some s.submitted, [task]⟩ ::ₘ s.threads, submitted := s.submitted + 1 }
  else { s with queue := s.queue ++ [(s.submitted, task)], submitted := s.submitted + 1 }

lemma submit_of_lt {s : Executor} (h : s.busy < s.workers) (task : Line) :
    s.submit task = { s with
      threads := ⟨some s.submitted, [task]⟩ ::ₘ s.threads
      submitted := s.submitted + 1 } := by
  rw [submit, if_pos h]

/-- A task has come to its end.  Its thread takes the next task from the queue. -/
def finish (s : Executor) (future : ℕ) (others : Multiset Thread) : Executor :=
  match s.queue with
  | [] => { s with threads := others, finished := future :: s.finished }
  | (next, task) :: queue =>
    { s with threads := ⟨some next, [task]⟩ ::ₘ others, queue, finished := future :: s.finished }

lemma finish_of_queue_nil {s : Executor} (h : s.queue = []) (future : ℕ)
    (others : Multiset Thread) : s.finish future others = { s with
      threads := others
      finished := future :: s.finished } := by
  rw [finish, h]

/-- What can happen next: some thread that does not wait gets further. -/
inductive Step [DigitLimit] (reps : List ℤ) (N : ℤ) : Executor → Executor → Prop
  /-- A range that is short, or none of whose levels is split off, is proved by the thread. -/
  | work {s : Executor} {future : Option ℕ} {depth : ℕ} {node : TreeNode} {rest : List Line}
      {others : Multiset Thread} {proofs : List ℤ}
      (running : s.threads = ⟨future, .call depth node :: rest⟩ ::ₘ others)
      (short : depth = 0 ∨ node.length ≤ 2) (proved : node.prove reps N s.proofs = .ok proofs) :
      Step reps N s { s.proceed ⟨future, rest⟩ others with proofs }
  /-- A long range is cut, and the base of its left half is submitted. -/
  | cut {s : Executor} {future : Option ℕ} {depth : ℕ} {node : TreeNode} {rest : List Line}
      {others : Multiset Thread}
      (running : s.threads = ⟨future, .call (depth + 1) node :: rest⟩ ::ₘ others)
      (long : ¬node.length ≤ 2) :
      Step reps N s
        ((s.proceed ⟨future, .join depth node s.submitted :: rest⟩ others).submit (.leftBase node))
  /-- The base of a left half is worked out. -/
  | leftBase {s : Executor} {future : Option ℕ} {node : TreeNode} {rest : List Line}
      {others : Multiset Thread} {base : ℤ}
      (running : s.threads = ⟨future, .leftBase node :: rest⟩ ::ₘ others)
      (value : TreeNode.absorb node.base reps node.mid node.right N = .ok base) :
      Step reps N s (s.proceed ⟨future, rest⟩ others)
  /-- The base of the left half has come, and the thread has worked out that of the right half
  itself.  The left half is submitted, and the right half is next. -/
  | join {s : Executor} {future : Option ℕ} {depth : ℕ} {node left right : TreeNode} {base : ℕ}
      {rest : List Line} {others : Multiset Thread}
      (running : s.threads = ⟨future, .join depth node base :: rest⟩ ::ₘ others)
      (came : base ∈ s.finished) (halves : node.split reps N = .ok (left, right)) :
      Step reps N s
        ((s.proceed ⟨future, .call depth right :: .await s.submitted :: rest⟩ others).submit
          (.call depth left))
  /-- The left half has come to its end. -/
  | await {s : Executor} {future : Option ℕ} {half : ℕ} {rest : List Line}
      {others : Multiset Thread}
      (running : s.threads = ⟨future, .await half :: rest⟩ ::ₘ others) (came : half ∈ s.finished) :
      Step reps N s (s.proceed ⟨future, rest⟩ others)
  /-- Nothing of a task is left to do. -/
  | finish {s : Executor} {future : ℕ} {others : Multiset Thread}
      (running : s.threads = ⟨some future, []⟩ ::ₘ others) : Step reps N s (s.finish future others)

/-- So many steps lead from one executor to another. -/
inductive Steps [DigitLimit] (reps : List ℤ) (N : ℤ) : ℕ → Executor → Executor → Prop
  | done (s : Executor) : Steps reps N 0 s s
  | next {n : ℕ} {s t u : Executor} (steps : Steps reps N n s t) (step : Step reps N t u) :
      Steps reps N (n + 1) s u

/-- Nothing is left to do. -/
def Ended (s : Executor) : Prop := ∀ t ∈ s.threads, t = ⟨none, []⟩

lemma Step.workers_eq [DigitLimit] {reps : List ℤ} {N : ℤ} {s t : Executor} (h : Step reps N s t) :
    t.workers = s.workers := by
  cases h with
  | work => rfl
  | cut => rw [Executor.submit]; split_ifs <;> rfl
  | leftBase => rfl
  | join => rw [Executor.submit]; split_ifs <;> rfl
  | await => rfl
  | finish => rw [Executor.finish]; split <;> rfl

lemma Steps.workers_eq [DigitLimit] {reps : List ℤ} {N : ℤ} {n : ℕ} {s t : Executor}
    (h : Steps reps N n s t) : t.workers = s.workers := by
  induction h with
  | done s => rfl
  | next _ step ih => rw [step.workers_eq, ih]

/-! ## Sums over what is left to do -/

section Total

variable {M : Type} [AddCommMonoid M]

/-- A quantity added up over all that threads have still to do. -/
def total (f : Line → M) (threads : Multiset Thread) : M :=
  (threads.map fun t => (t.lines.map f).sum).sum

@[simp]
lemma total_cons (f : Line → M) (t : Thread) (threads : Multiset Thread) :
    total f (t ::ₘ threads) = (t.lines.map f).sum + total f threads := by
  rw [total, Multiset.map_cons, Multiset.sum_cons, total]

lemma total_of_running {s : Executor} {future : Option ℕ} {line : Line} {rest : List Line}
    {others : Multiset Thread} (running : s.threads = ⟨future, line :: rest⟩ ::ₘ others)
    (f : Line → M) : total f s.threads = f line + ((rest.map f).sum + total f others) := by
  rw [running, total_cons, List.map_cons, List.sum_cons, add_assoc]

@[simp]
lemma total_singleton (f : Line → M) (t : Thread) : total f {t} = (t.lines.map f).sum := by
  rw [total, Multiset.map_singleton, Multiset.sum_singleton]

lemma total_of_ended {s : Executor} (h : s.Ended) (f : Line → M) : total f s.threads = 0 := by
  refine Multiset.sum_eq_zero fun x hx => ?_
  obtain ⟨t, ht, rfl⟩ := Multiset.mem_map.mp hx
  rw [h t ht]
  rfl

end Total

/-! ## Every run ends -/

/-- How many steps are left at most: every thread takes one more to end its task. -/
def cost (s : Executor) : ℕ :=
  total Line.cost s.threads + s.busy + (s.queue.map fun waiting => Line.cost waiting.2 + 1).sum

section Cost

variable {s t : Executor} {reps : List ℤ} {N : ℤ} {future : Option ℕ} {lines : List Line}
  {others : Multiset Thread}

lemma busy_of_threads (h : s.threads = ⟨future, lines⟩ ::ₘ others) :
    s.busy = others.countP (·.future.isSome) + if future.isSome then 1 else 0 := by
  rw [busy, h, Multiset.countP_cons]

/-- A thread that gets further is as busy as before. -/
lemma busy_proceed (h : s.threads = ⟨future, lines⟩ ::ₘ others) (lines' : List Line) :
    (s.proceed ⟨future, lines'⟩ others).busy = s.busy := by
  rw [busy_of_threads h, busy_of_threads (s := s.proceed ⟨future, lines'⟩ others) rfl]

lemma cost_proceed (h : s.threads = ⟨future, lines⟩ ::ₘ others) (lines' : List Line) :
    (s.proceed ⟨future, lines'⟩ others).cost + (lines.map Line.cost).sum
      = s.cost + (lines'.map Line.cost).sum := by
  rw [cost, busy_proceed h, cost, h, total_cons]
  simp only [proceed, total_cons]
  omega

/-- A thread that has a line behind it leaves less to do. -/
lemma cost_proceed_lt {line : Line} {rest : List Line}
    (h : s.threads = ⟨future, line :: rest⟩ ::ₘ others) :
    (s.proceed ⟨future, rest⟩ others).cost < s.cost := by
  have hcost := cost_proceed h rest
  have hpos := line.cost_pos
  rw [List.map_cons, List.sum_cons] at hcost
  omega

/-- A task costs what its lines cost, and the end of it. -/
lemma cost_submit (s : Executor) (task : Line) :
    (s.submit task).cost = s.cost + Line.cost task + 1 := by
  rw [submit]
  split_ifs
  · simp only [cost, busy, total_cons, Multiset.countP_cons_of_pos, Option.isSome_some,
      List.map_singleton, List.sum_singleton]
    omega
  · simp only [cost, busy, List.map_append, List.sum_append, List.map_singleton,
      List.sum_singleton]
    omega

lemma cost_finish {f : ℕ} (h : s.threads = ⟨some f, []⟩ ::ₘ others) :
    (s.finish f others).cost + 1 = s.cost := by
  rw [finish]
  cases hqueue : s.queue with
  | nil =>
      simp only [cost, busy, h, hqueue, total_cons, Multiset.countP_cons_of_pos, Option.isSome_some,
        List.map_nil, List.sum_nil]
      omega
  | cons waiting queue =>
      simp only [cost, busy, h, hqueue, total_cons, Multiset.countP_cons_of_pos, Option.isSome_some,
        List.map_nil, List.sum_nil, List.map_cons, List.sum_cons]
      omega

/-- **Every step leaves less to do**, whatever the numbers are and however many threads there may
be. -/
theorem Step.cost_lt [DigitLimit] (h : Step reps N s t) : t.cost < s.cost := by
  cases h with
  | work running _ _ => exact cost_proceed_lt running
  | @cut _ depth node rest _ running _ =>
      have hcost := cost_proceed running (.join depth node s.submitted :: rest)
      simp only [List.map_cons, List.sum_cons, Line.cost, Line.callCost] at hcost
      rw [cost_submit, Line.cost]
      omega
  | leftBase running _ => exact cost_proceed_lt running
  | @join _ depth _ _ right _ rest _ running _ _ =>
      have hcost := cost_proceed running (.call depth right :: .await s.submitted :: rest)
      simp only [List.map_cons, List.sum_cons, Line.cost] at hcost
      rw [cost_submit, Line.cost]
      omega
  | await running _ => exact cost_proceed_lt running
  | finish running => exact (cost_finish running).le

/-- **Every run ends**: there are no more steps than what is to be done at first costs. -/
theorem Steps.add_cost_le [DigitLimit] {n : ℕ} (h : Steps reps N n s t) : n + t.cost ≤ s.cost := by
  induction h with
  | done s => rw [zero_add]
  | next _ step ih =>
      have hless := step.cost_lt
      omega

lemma cost_start (base : ℤ) (reps : List ℤ) (budget : ℕ) :
    (start base reps budget).cost = Line.callCost budget := rfl

end Cost

end Executor

end HiddenOrder
