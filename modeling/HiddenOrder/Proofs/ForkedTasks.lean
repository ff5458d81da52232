import HiddenOrder.Proofs.Executor
import HiddenOrder.Proofs.Schedule

/-!
# Tasks that never wait for a thread

A thread that waits for a task whose turn never comes would wait for ever, if all threads did so.
That cannot happen when there may be more threads than there will ever be tasks: none is queued.
How many tasks there will be is known before the first one is submitted, from the length of the list
and the number of levels that are split off (`TreeNode.submissions`), and it is no more than what a
full tree of so many levels would take.

Then nothing stalls.  A thread waits only for tasks that were submitted after its own, so the thread
whose task was submitted last can go on.

* **`TreeNode.submissions_add_two_le`**, **`TreeNode.submitted_of_fork`** — how many tasks.
* `Executor.Sound` — what holds of an executor as long as it runs.
* **`Executor.Sound.step`** — every step keeps that.
* **`Executor.Sound.ended_or_step`** — nothing stalls.
* **`forked_tasks_start_at_once`** — every run for a list.
-/

namespace HiddenOrder

open Executor

section

variable [DigitLimit]

namespace TreeNode

variable {N : ℤ} {reps : List ℤ}

/-! ## How many tasks are submitted -/

/-- The tasks that are submitted for a range when so many levels of its tree are split off: two for
a split, and those of the two halves. -/
def submissions : (depth left right : ℕ) → ℕ
  | 0, _, _ => 0
  | depth + 1, left, right =>
    if right - left ≤ 2 then 0
    else submissions depth left ((left + right) / 2)
      + submissions depth ((left + right) / 2) right + 2

omit [DigitLimit] in
/-- **No more tasks are submitted than a full tree has**, however long the range is. -/
theorem submissions_add_two_le (depth left right : ℕ) :
    submissions depth left right + 2 ≤ 2 ^ (depth + 1) := by
  induction depth generalizing left right with
  | zero => exact le_rfl
  | succ depth ih =>
      rw [submissions, pow_succ]
      split_ifs
      · have := Nat.one_le_two_pow (n := depth + 1)
        omega
      · have hleft := ih left ((left + right) / 2)
        have hright := ih ((left + right) / 2) right
        omega

omit [DigitLimit] in
lemma submissions_of_short {depth left right : ℕ} (h : depth = 0 ∨ right - left ≤ 2) :
    submissions depth left right = 0 := by
  cases depth with
  | zero => rfl
  | succ depth =>
      rw [submissions, if_pos]
      omega

/-- The number that comes with the proofs counts the tasks. -/
theorem submitted_of_fork {depth : ℕ} {node : TreeNode} {proofs proofs' : List ℤ} {submitted : ℕ}
    (h : fork reps N depth node proofs = .ok (proofs', submitted)) :
    submitted = submissions depth node.left node.right := by
  induction depth generalizing node proofs proofs' submitted with
  | zero =>
      obtain ⟨_, -, h⟩ := bind_eq_ok.mp h
      exact (Prod.mk.inj (Except.ok.inj h)).2.symm
  | succ depth ih =>
      rw [fork] at h
      by_cases hshort : node.length ≤ 2
      · rw [if_pos hshort] at h
        obtain ⟨_, -, h⟩ := bind_eq_ok.mp h
        rw [submissions_of_short (.inr hshort)]
        exact (Prod.mk.inj (Except.ok.inj h)).2.symm
      · rw [if_neg hshort] at h
        obtain ⟨⟨left, right⟩, hsplit, h⟩ := bind_eq_ok.mp h
        obtain ⟨⟨proofs₁, n⟩, hright, h⟩ := bind_eq_ok.mp h
        obtain ⟨⟨proofs₂, m⟩, hleft, h⟩ := bind_eq_ok.mp h
        obtain ⟨-, rfl⟩ := Prod.mk.inj (Except.ok.inj h)
        obtain ⟨h₁, h₂, h₃, h₄⟩ := split_ranges hsplit
        have hlong : ¬node.right - node.left ≤ 2 := hshort
        rw [submissions, if_neg hlong, ih hright, ih hleft, h₁, h₂, h₃, h₄, mid]

end TreeNode

/-! ## What executors keep -/

namespace Line

/-- How many tasks a line submits, with those that its tasks submit. -/
def tasks : Line → ℕ
  | .leftBase _ => 0
  | .call depth node => TreeNode.submissions depth node.left node.right
  | .join depth node _ => TreeNode.submissions depth node.left node.mid
      + TreeNode.submissions depth node.mid node.right + 1
  | .await _ => 0

/-- The range that a line has to prove. -/
def pending : Line → Multiset TreeNode
  | .leftBase _ => 0
  | .call _ node => {node}
  | .join _ node _ => {node}
  | .await _ => 0

/-- The task that a line waits for. -/
def awaited : Line → Option ℕ
  | .leftBase _ => none
  | .call _ _ => none
  | .join _ _ future => some future
  | .await future => some future

/-- A base can be worked out, and what has been cut was long. -/
def Sound (reps : List ℤ) (N : ℤ) : Line → Prop
  | .leftBase node => ∃ base, TreeNode.absorb node.base reps node.mid node.right N = .ok base
  | .call _ _ => True
  | .join _ node _ => ¬node.length ≤ 2
  | .await _ => True

end Line

/-- A thread waits for tasks only that were submitted after its own. -/
structure Thread.Sound (reps : List ℤ) (N : ℤ) (submitted : ℕ) (t : Thread) : Prop where
  future_lt : ∀ f ∈ t.future, f < submitted
  lines : ∀ line ∈ t.lines, line.Sound reps N
  awaits : ∀ line ∈ t.lines, ∀ g ∈ line.awaited, g < submitted ∧ ∀ f ∈ t.future, f < g

namespace Thread.Sound

variable {reps : List ℤ} {N : ℤ} {submitted : ℕ} {future : Option ℕ} {line task : Line}
  {added rest : List Line}

lemma mono {t : Thread} {submitted' : ℕ} (h : t.Sound reps N submitted)
    (hle : submitted ≤ submitted') : t.Sound reps N submitted' where
  future_lt f hf := (h.future_lt f hf).trans_le hle
  lines := h.lines
  awaits line hline g hg :=
    ⟨(h.awaits line hline g hg).1.trans_le hle, (h.awaits line hline g hg).2⟩

lemma tail (h : Thread.Sound reps N submitted ⟨future, line :: rest⟩) :
    Thread.Sound reps N submitted ⟨future, rest⟩ where
  future_lt := h.future_lt
  lines l hl := h.lines l (List.mem_cons_of_mem line hl)
  awaits l hl := h.awaits l (List.mem_cons_of_mem line hl)

/-- Lines that wait for the task that is submitted now, which comes behind all others. -/
lemma append (h : Thread.Sound reps N submitted ⟨future, rest⟩)
    (hadded : ∀ l ∈ added, l.Sound reps N ∧ ∀ g ∈ l.awaited, g = submitted) :
    Thread.Sound reps N (submitted + 1) ⟨future, added ++ rest⟩ where
  future_lt f hf := Nat.lt_succ_of_lt (h.future_lt f hf)
  lines l hl := (List.mem_append.mp hl).elim (fun hl => (hadded l hl).1) (h.lines l)
  awaits l hl g hg := by
    obtain hl | hl := List.mem_append.mp hl
    · rw [(hadded l hl).2 g hg]
      exact ⟨Nat.lt_succ_self _, h.future_lt⟩
    · obtain ⟨hlt, hafter⟩ := h.awaits l hl g hg
      exact ⟨Nat.lt_succ_of_lt hlt, hafter⟩

/-- The thread of a task that is submitted now. -/
lemma of_task (htask : task.Sound reps N) (hnone : task.awaited = none) :
    Thread.Sound reps N (submitted + 1) ⟨some submitted, [task]⟩ where
  future_lt f hf := by
    obtain rfl := Option.some.inj hf
    exact Nat.lt_succ_self _
  lines l hl := List.mem_singleton.mp hl ▸ htask
  awaits l hl g hg := by
    rw [List.mem_singleton.mp hl, hnone] at hg
    cases hg

end Thread.Sound

namespace Executor

/-- Whether one of some threads works off the task of a number. -/
def Running (threads : Multiset Thread) (f : ℕ) : Prop := ∃ t ∈ threads, t.future = some f

omit [DigitLimit] in
lemma running_cons {t : Thread} {threads : Multiset Thread} {f : ℕ} :
    Running (t ::ₘ threads) f ↔ t.future = some f ∨ Running threads f := by
  simp [Running]

/-- Every task that was submitted has a thread, or has come to its end; with the tasks that are
still to be submitted they are so many, fewer than there may be threads.  And what is to be proved
has been reached by taking nodes of the tree. -/
structure Sound (base N : ℤ) (reps : List ℤ) (tasks : ℕ) (s : Executor) : Prop where
  room : tasks < s.workers
  queue_nil : s.queue = []
  balance : s.submitted + total Line.tasks s.threads = tasks
  busy_add : s.busy + s.finished.length = s.submitted
  threads : ∀ t ∈ s.threads, t.Sound reps N s.submitted
  started : ∀ f < s.submitted, f ∈ s.finished ∨ Running s.threads f
  reached : ∃ order written,
    Run reps N order (Stage.start base reps) ⟨total Line.pending s.threads, s.proofs, written⟩

namespace Sound

variable {base N : ℤ} {reps : List ℤ} {tasks : ℕ} {s t : Executor} {future : Option ℕ} {line : Line}
  {rest : List Line} {others : Multiset Thread}

lemma busy_lt (h : s.Sound base N reps tasks) : s.busy < s.workers := by
  have hbalance := h.balance
  have hbusy := h.busy_add
  have hroom := h.room
  omega

/-- A thread that has a line behind it. -/
lemma advance {proofs : List ℤ} (h : s.Sound base N reps tasks)
    (running : s.threads = ⟨future, line :: rest⟩ ::ₘ others) (htasks : line.tasks = 0)
    (hreached : ∃ order written, Run reps N order (Stage.start base reps)
      ⟨(rest.map Line.pending).sum + total Line.pending others, proofs, written⟩) :
    ({ s.proceed ⟨future, rest⟩ others with proofs } : Executor).Sound base N reps tasks := by
  have hbalance := h.balance
  rw [total_of_running running, htasks, zero_add] at hbalance
  have hthreads := h.threads
  rw [running, Multiset.forall_mem_cons] at hthreads
  have hstarted := h.started
  simp only [running, running_cons] at hstarted
  constructor
  · exact h.room
  · exact h.queue_nil
  · rwa [proceed, total_cons]
  · exact (congrArg (· + _) (busy_proceed running rest)).trans h.busy_add
  · exact Multiset.forall_mem_cons.mpr ⟨hthreads.1.tail, hthreads.2⟩
  · simpa only [proceed, running_cons] using hstarted
  · rwa [proceed, total_cons]

/-- A thread that submits a task, which starts at once. -/
lemma spawn {task : Line} (h : s.Sound base N reps tasks) (added : List Line)
    (running : s.threads = ⟨future, line :: rest⟩ ::ₘ others)
    (htasks : task.tasks + (added.map Line.tasks).sum + 1 = line.tasks)
    (hadded : ∀ l ∈ added, l.Sound reps N ∧ ∀ g ∈ l.awaited, g = s.submitted)
    (htask : task.Sound reps N) (hnone : task.awaited = none)
    (hreached : ∃ order written, Run reps N order (Stage.start base reps)
      ⟨task.pending + (added.map Line.pending).sum
        + ((rest.map Line.pending).sum + total Line.pending others), s.proofs, written⟩) :
    ((s.proceed ⟨future, added ++ rest⟩ others).submit task).Sound base N reps tasks := by
  have hbusy := busy_proceed running (added ++ rest)
  have hfree := h.busy_lt
  rw [← hbusy] at hfree
  have hthreads := h.threads
  rw [running, Multiset.forall_mem_cons] at hthreads
  have hstarted := h.started
  simp only [running, running_cons] at hstarted
  rw [submit_of_lt hfree]
  constructor
  · exact h.room
  · exact h.queue_nil
  · have hbalance := h.balance
    rw [total_of_running running] at hbalance
    simp only [proceed, total_cons, List.map_singleton, List.sum_singleton, List.map_append,
      List.sum_append]
    omega
  · have hcount := h.busy_add
    rw [← hbusy] at hcount
    simp only [busy, Multiset.countP_cons_of_pos, Option.isSome_some, proceed] at hcount ⊢
    omega
  · rw [Multiset.forall_mem_cons, proceed, Multiset.forall_mem_cons]
    exact ⟨.of_task htask hnone, hthreads.1.tail.append hadded,
      fun t ht => (hthreads.2 t ht).mono (Nat.le_succ _)⟩
  · intro f hf
    simp only [proceed, running_cons]
    obtain hlt | rfl := Nat.lt_succ_iff_lt_or_eq.mp hf
    · exact (hstarted f hlt).imp_right .inr
    · exact .inr (.inl rfl)
  · simpa only [proceed, total_cons, List.map_singleton, List.sum_singleton, List.map_append,
      List.sum_append, add_assoc] using hreached

/-- A task that comes to its end. -/
lemma finish {f : ℕ} (h : s.Sound base N reps tasks)
    (running : s.threads = ⟨some f, []⟩ ::ₘ others) :
    (s.finish f others).Sound base N reps tasks := by
  have hthreads := h.threads
  rw [running, Multiset.forall_mem_cons] at hthreads
  have htotal {M : Type} [AddCommMonoid M] (q : Line → M) : total q s.threads = total q others := by
    rw [running, total_cons, List.map_nil, List.sum_nil, zero_add]
  rw [finish_of_queue_nil h.queue_nil]
  constructor
  · exact h.room
  · exact h.queue_nil
  · exact htotal Line.tasks ▸ h.balance
  · have hbusy := h.busy_add
    rw [busy_of_threads running, Option.isSome_some, if_pos rfl] at hbusy
    rw [busy, List.length_cons, ← add_assoc, add_right_comm]
    exact hbusy
  · exact hthreads.2
  · intro g hg
    have hstarted := h.started g hg
    rw [running, running_cons, Option.some.injEq] at hstarted
    obtain hfinished | rfl | hrunning := hstarted
    · exact .inl (List.mem_cons_of_mem f hfinished)
    · exact .inl List.mem_cons_self
    · exact .inr hrunning
  · exact htotal Line.pending ▸ h.reached

/-! ### Steps -/

section Ranges

variable (hN : 2 ≤ N) (hbase : 0 < base ∧ base < N) (hreps : ∀ e ∈ reps, 0 < e) (hne : reps ≠ [])
include hN hbase hreps hne

/-- What is still to be proved are ranges, with the bases that they have to carry. -/
lemma eq_rangeNode (h : s.Sound base N reps tasks) {node : TreeNode}
    (hnode : node ∈ total Line.pending s.threads) :
    node.left < node.right ∧ node.right ≤ reps.length ∧
      node = TreeNode.rangeNode base N reps node.left node.right := by
  obtain ⟨order, written, hrun⟩ := h.reached
  have hstart := Stage.Tiling.start base hne
  have htiling := hrun.tiling hstart
  have hcarried := hrun.carried hN hreps hstart (Stage.Carried.start hN hbase)
  exact ⟨htiling.nonempty node hnode, htiling.right_le hnode, hcarried.carries node hnode⟩

lemma exists_prove (h : s.Sound base N reps tasks) {node : TreeNode}
    (hnode : node ∈ total Line.pending s.threads) :
    ∃ proofs, node.prove reps N s.proofs = .ok proofs := by
  obtain ⟨hlr, hr, heq⟩ := h.eq_rangeNode hN hbase hreps hne hnode
  rw [heq]
  exact ⟨_, TreeNode.prove_rangeNode hN hreps hlr hr s.proofs⟩

lemma exists_split (h : s.Sound base N reps tasks) {node : TreeNode}
    (hnode : node ∈ total Line.pending s.threads) :
    ∃ left right, node.split reps N = .ok (left, right) := by
  obtain ⟨hlr, hr, heq⟩ := h.eq_rangeNode hN hbase hreps hne hnode
  rw [heq]
  exact ⟨_, _, TreeNode.split_rangeNode hN hreps hlr.le⟩

/-- **Every step keeps an executor sound.** -/
theorem step (h : s.Sound base N reps tasks) (hstep : Step reps N s t) :
    t.Sound base N reps tasks := by
  obtain ⟨order, written, hrun⟩ := h.reached
  cases hstep with
  | @work _ _ node _ _ _ running short proved =>
      rw [total_of_running running, Line.pending, Multiset.singleton_add] at hrun
      obtain ⟨order', written', hprove⟩ := Run.of_prove node _ _ _ written proved
      exact h.advance running (TreeNode.submissions_of_short short)
        ⟨_, _, hrun.append hprove⟩
  | @cut _ depth node _ _ running long =>
      have hnode : node ∈ total Line.pending s.threads := by
        rw [total_of_running running]
        exact Multiset.mem_add.mpr (.inl (Multiset.mem_singleton_self node))
      obtain ⟨_, _, hsplit⟩ := h.exists_split hN hbase hreps hne hnode
      obtain ⟨leftBase, habsorb, -⟩ := bind_eq_ok.mp hsplit
      rw [total_of_running running] at hrun
      refine h.spawn [.join depth node s.submitted] running ?_ ?_ ⟨leftBase, habsorb⟩ rfl
        ⟨order, written, ?_⟩
      · have hlong : ¬node.right - node.left ≤ 2 := long
        rw [List.map_singleton, List.sum_singleton, Line.tasks, Line.tasks, Line.tasks,
          TreeNode.submissions, if_neg hlong, zero_add, TreeNode.mid]
      · exact List.forall_mem_singleton.mpr ⟨long, fun g hg => (Option.some.inj hg).symm⟩
      · rw [List.map_singleton, List.sum_singleton, Line.pending, zero_add]
        exact hrun
  | leftBase running _ =>
      rw [total_of_running running, Line.pending, zero_add] at hrun
      exact h.advance running rfl ⟨order, written, hrun⟩
  | @join _ depth node left right _ rest _ running _ halves =>
      have hthread := h.threads _ (running ▸ Multiset.mem_cons_self _ _)
      have hlong : ¬node.length ≤ 2 := hthread.lines _ List.mem_cons_self
      obtain ⟨h₁, h₂, h₃, h₄⟩ := TreeNode.split_ranges halves
      rw [total_of_running running, Line.pending, Multiset.singleton_add] at hrun
      have hhalves := hrun.append
        (.single (Multiset.mem_cons_self _ _) (Stage.take_cons_of_long hlong halves))
      refine h.spawn [.call depth right, .await s.submitted] running ?_ ?_ trivial rfl
        ⟨order ++ [node], written, ?_⟩
      · simp only [List.map_cons, List.map_nil, List.sum_cons, List.sum_nil, Line.tasks, h₁, h₂, h₃,
          h₄]
        omega
      · exact List.forall_mem_cons.mpr ⟨⟨trivial, fun g hg => absurd hg (Option.not_mem_none g)⟩,
          List.forall_mem_singleton.mpr ⟨trivial, fun g hg => (Option.some.inj hg).symm⟩⟩
      · simp only [List.map_cons, List.map_nil, List.sum_cons, List.sum_nil, Line.pending, add_zero,
          Multiset.singleton_add, Multiset.cons_add]
        exact hhalves
  | await running _ =>
      rw [total_of_running running, Line.pending, zero_add] at hrun
      exact h.advance running rfl ⟨order, written, hrun⟩
  | finish running => exact h.finish running

/-- A thread has nothing left to do, or it can go on, or it waits for a task that has not come to
its end. -/
lemma idle_or_step_or_waits (h : s.Sound base N reps tasks) {thread : Thread}
    (hthread : thread ∈ s.threads) :
    thread = ⟨none, []⟩ ∨ (∃ t, Step reps N s t) ∨
      ∃ line ∈ thread.lines, ∃ g ∈ line.awaited, g ∉ s.finished := by
  have hsound := h.threads thread hthread
  obtain ⟨others, running⟩ := Multiset.exists_cons_of_mem hthread
  obtain ⟨future, lines⟩ := thread
  cases lines with
  | nil =>
      cases future with
      | none => exact .inl rfl
      | some f => exact .inr (.inl ⟨_, .finish running⟩)
  | cons line rest =>
      have hmem : line ∈ line :: rest := List.mem_cons_self
      have hpending {node : TreeNode} (hnode : node ∈ line.pending) :
          node ∈ total Line.pending s.threads := by
        rw [total_of_running running]
        exact Multiset.mem_add.mpr (.inl hnode)
      cases line with
      | leftBase node =>
          obtain ⟨leftBase, habsorb⟩ := hsound.lines _ hmem
          exact .inr (.inl ⟨_, .leftBase running habsorb⟩)
      | call depth node =>
          have hnode := hpending (Multiset.mem_singleton_self node)
          by_cases hshort : node.length ≤ 2
          · obtain ⟨proofs, hproofs⟩ := h.exists_prove hN hbase hreps hne hnode
            exact .inr (.inl ⟨_, .work running (.inr hshort) hproofs⟩)
          · cases depth with
            | zero =>
                obtain ⟨proofs, hproofs⟩ := h.exists_prove hN hbase hreps hne hnode
                exact .inr (.inl ⟨_, .work running (.inl rfl) hproofs⟩)
            | succ depth => exact .inr (.inl ⟨_, .cut running hshort⟩)
      | join depth node g =>
          by_cases hg : g ∈ s.finished
          · obtain ⟨left, right, hsplit⟩ := h.exists_split hN hbase hreps hne
              (hpending (Multiset.mem_singleton_self node))
            exact .inr (.inl ⟨_, .join running hg hsplit⟩)
          · exact .inr (.inr ⟨_, hmem, g, rfl, hg⟩)
      | await g =>
          by_cases hg : g ∈ s.finished
          · exact .inr (.inl ⟨_, .await running hg⟩)
          · exact .inr (.inr ⟨_, hmem, g, rfl, hg⟩)

/-- What has a thread gets further, or something else does: a thread waits only for tasks that were
submitted after its own. -/
lemma exists_step_of_running (h : s.Sound base N reps tasks) {thread : Thread} {f : ℕ}
    (hthread : thread ∈ s.threads) (hf : thread.future = some f) : ∃ t, Step reps N s t := by
  -- the induction is on how many tasks were submitted after this one
  induction hlater : s.submitted - f using Nat.strong_induction_on generalizing thread f with
  | _ n ih =>
      subst hlater
      obtain hidle | hstep | ⟨line, hline, g, hg, hopen⟩ :=
        h.idle_or_step_or_waits hN hbase hreps hne hthread
      · rw [hidle] at hf
        cases hf
      · exact hstep
      · obtain ⟨hlt, hafter⟩ := (h.threads thread hthread).awaits line hline g hg
        have hless : f < g := hafter f hf
        obtain ⟨other, hother, hfuture⟩ := (h.started g hlt).resolve_left hopen
        exact ih (s.submitted - g) (by omega) hother hfuture rfl

/-- **Nothing stalls**: as long as there is something left to do, some thread gets further. -/
theorem ended_or_step (h : s.Sound base N reps tasks) : s.Ended ∨ ∃ t, Step reps N s t := by
  by_cases hworker : ∃ thread ∈ s.threads, ∃ f, thread.future = some f
  · obtain ⟨thread, hthread, f, hf⟩ := hworker
    exact .inr (h.exists_step_of_running hN hbase hreps hne hthread hf)
  · refine or_iff_not_imp_right.mpr fun hstep thread hthread => ?_
    obtain hidle | hgoes | ⟨line, hline, g, hg, hopen⟩ :=
      h.idle_or_step_or_waits hN hbase hreps hne hthread
    · exact hidle
    · exact absurd hgoes hstep
    · -- there is no thread that the task could have
      have hlt := ((h.threads thread hthread).awaits line hline g hg).1
      obtain ⟨other, hother, hfuture⟩ := (h.started g hlt).resolve_left hopen
      exact absurd ⟨other, hother, g, hfuture⟩ hworker

/-- **Some run comes to its end**, from wherever an executor has got to. -/
theorem exists_ended {start : Executor} {n : ℕ} (h : s.Sound base N reps tasks)
    (hsteps : Steps reps N n start s) : ∃ m t, Steps reps N m start t ∧ t.Ended := by
  induction hcost : s.cost using Nat.strong_induction_on generalizing s n with
  | _ cost ih =>
      subst hcost
      obtain hended | ⟨t, hstep⟩ := h.ended_or_step hN hbase hreps hne
      · exact ⟨n, s, hsteps, hended⟩
      · exact ih t.cost hstep.cost_lt (h.step hN hbase hreps hne hstep) (hsteps.next hstep) rfl

theorem steps {n : ℕ} (h : s.Sound base N reps tasks) (hsteps : Steps reps N n s t) :
    t.Sound base N reps tasks := by
  induction hsteps with
  | done s => exact h
  | next _ hstep ih => exact (ih h).step hN hbase hreps hne hstep

/-- At the end every proof is in its place. -/
theorem proofs_of_ended (h : s.Sound base N reps tasks) (hended : s.Ended) :
    s.proofs = (List.range reps.length).map (membershipProof base N reps) := by
  obtain ⟨order, written, hrun⟩ := h.reached
  rw [total_of_ended hended] at hrun
  have hstart := Stage.Tiling.start base hne
  have htiles := (hrun.tiling hstart).tiles
  rw [Multiset.zero_bind, add_zero] at htiles
  refine (hrun.carried hN hreps hstart (Stage.Carried.start hN hbase)).filled.trans ?_
  rw [htiles, ← TreeNode.fill_blankProofs]
  refine TreeNode.fill_congr (fun i => ?_) _
  rw [TreeNode.covers, ← Bool.decide_and]
  exact decide_eq_decide.mpr (by rw [Multiset.mem_range]; omega)

end Ranges

/-- At the end every task has been submitted. -/
lemma submitted_of_ended (h : s.Sound base N reps tasks) (hended : s.Ended) :
    s.submitted = tasks := by
  rw [← h.balance, total_of_ended hended, add_zero]

lemma start (base N : ℤ) (reps : List ℤ) (budget : ℕ) :
    (start base reps budget).Sound base N reps
      (TreeNode.submissions budget 0 reps.length) where
  room := by
    have hle := TreeNode.submissions_add_two_le budget 0 reps.length
    have hworkers : (Executor.start base reps budget).workers = 2 ^ (budget + 1) := by
      rw [Executor.start, Nat.shiftLeft_eq, ← pow_succ']
    omega
  queue_nil := rfl
  balance := by
    rw [Executor.start, total_singleton, List.map_singleton, List.sum_singleton, zero_add]
    rfl
  busy_add := rfl
  threads t ht := by
    obtain rfl := Multiset.mem_singleton.mp ht
    refine ⟨fun f hf => (nomatch hf), fun line hline => ?_, fun line hline g hg => ?_⟩
    · rw [List.mem_singleton.mp hline]
      trivial
    · rw [List.mem_singleton.mp hline] at hg
      cases hg
  started f hf := absurd hf (Nat.not_lt_zero f)
  reached := by
    refine ⟨[], 0, ?_⟩
    rw [Executor.start, total_singleton, List.map_singleton, List.sum_singleton, Line.pending]
    exact .done _

end Sound

end Executor

/-! ## Whole lists -/

/-- The computation returns something of a kind, or refuses one of its inputs, as far as the refusal
can be put into words. -/
def ReturnsOrRefuses {α : Type} (P : α → Prop) (r : Except Error α) : Prop :=
  (∃ a, r = .ok a ∧ P a) ∨ ∃ cause, r = .error (refuse cause)

namespace ReturnsOrRefuses

variable {α : Type} {P : α → Prop}

lemma ok {a : α} (h : P a) : ReturnsOrRefuses P (.ok a) := .inl ⟨a, rfl, h⟩

lemma refused (cause : Precondition) : ReturnsOrRefuses P (.error (refuse cause)) :=
  .inr ⟨cause, rfl⟩

end ReturnsOrRefuses

lemma returnsOrRefuses_checkRepresentatives (i : ℕ) (reps : List ℤ) :
    ReturnsOrRefuses (fun _ => ∀ e ∈ reps, 0 < e) (checkRepresentatives i reps) := by
  induction reps generalizing i with
  | nil => exact .ok fun e he => nomatch he
  | cons e es ih =>
      rw [checkRepresentatives]
      split_ifs with he
      · exact .refused _
      · obtain ⟨_, hok, hes⟩ | ⟨cause, herror⟩ := ih (i + 1)
        · exact .inl ⟨_, hok, List.forall_mem_cons.mpr ⟨not_le.mp he, hes⟩⟩
        · exact .inr ⟨cause, herror⟩

lemma returnsOrRefuses_validate (base N : ℤ) (reps : List ℤ) :
    ReturnsOrRefuses (fun _ => 2 ≤ N ∧ (0 < base ∧ base < N) ∧ ∀ e ∈ reps, 0 < e)
      (validate base N reps) := by
  rw [validate]
  split_ifs with hN hbase
  · exact .refused _
  · obtain ⟨_, hok, hreps⟩ | ⟨cause, herror⟩ := returnsOrRefuses_checkRepresentatives 0 reps
    · exact .inl ⟨_, hok, not_lt.mp hN, hbase, hreps⟩
    · exact .inr ⟨cause, herror⟩
  · exact .refused _

lemma of_validate_eq_ok {base N : ℤ} {reps : List ℤ} (h : validate base N reps = .ok ()) :
    2 ≤ N ∧ (0 < base ∧ base < N) ∧ ∀ e ∈ reps, 0 < e := by
  obtain ⟨_, -, hvalid⟩ | ⟨cause, herror⟩ := returnsOrRefuses_validate base N reps
  · exact hvalid
  · rw [h] at herror
    cases herror

/-- What is not accepted is refused before there is an executor. -/
lemma proveMembershipForked_of_error {base N : ℤ} {reps : List ℤ} {budget : ℤ} {e : Error}
    (hbudget : 0 ≤ budget) (h : validate base N reps = .error e) :
    proveMembershipForked base N reps budget = .error e := by
  rw [proveMembershipForked, checkBudget_ok hbudget, ok_bind, h, error_bind]

/-- Whatever it is asked for, the forked strategy returns as many proofs as there are numbers, or
refuses. -/
theorem returnsOrRefuses_proveMembershipForked (base N : ℤ) (reps : List ℤ) (budget : ℤ) :
    ReturnsOrRefuses (fun proofs => proofs.length = reps.length)
      (proveMembershipForked base N reps budget) := by
  obtain hbudget | hbudget := lt_or_ge budget 0
  · rw [proveMembershipForked, checkBudget, if_pos hbudget]
    exact .refused _
  · obtain ⟨_, -, hN, hbase, hreps⟩ | ⟨cause, herror⟩ := returnsOrRefuses_validate base N reps
    · rw [proveMembershipForked_ok hN hbase hreps hbudget]
      exact .ok (by rw [List.length_map, List.length_range])
    · rw [proveMembershipForked_of_error hbudget herror]
      exact .refused cause

/-- **No task waits for a thread.**  Whatever it is asked for, the forked strategy returns or
refuses, and however its threads take turns, it takes a limited number of steps.  What is not
accepted is refused before there is an executor.  For numbers that are accepted there is a count of
tasks, at least two below twice the leaves of a full tree, and so less than how many threads there
may be.  At every moment of every run no more tasks have been submitted, none is queued and another
thread might start, and what a thread waits for, now or later on, has a thread or has come to its
end.  As long as something is left to do, some thread gets further; some run comes to its end, and
every one that does has submitted as many tasks as were counted and leaves the proofs that are
returned. -/
theorem forked_tasks_start_at_once (base N : ℤ) (reps : List ℤ) :
    (∀ budget : ℤ, ReturnsOrRefuses (fun proofs => proofs.length = reps.length)
      (proveMembershipForked base N reps budget)) ∧
    (∀ (budget n : ℕ) (s : Executor), Steps reps N n (start base reps budget) s →
      n + 6 ≤ 7 * 2 ^ budget) ∧
    (∀ (budget : ℕ) (e : Error), validate base N reps = .error e →
      proveMembershipForked base N reps budget = .error e) ∧
    ∀ budget : ℕ, reps ≠ [] → validate base N reps = .ok () →
      ∃ proofs submitted,
        TreeNode.fork reps N budget (rootNode base reps) (blankProofs reps)
          = .ok (proofs, submitted) ∧
        proveMembershipForked base N reps budget = .ok proofs ∧
        submitted + 2 ≤ 2 ^ (budget + 1) ∧ submitted < 2 <<< budget ∧
        (∃ n s, Steps reps N n (start base reps budget) s ∧ s.Ended) ∧
        ∀ n s, Steps reps N n (start base reps budget) s →
          s.workers = 2 <<< budget ∧ s.submitted ≤ submitted ∧ s.queue = [] ∧
          s.busy < s.workers ∧
          (∀ thread ∈ s.threads, ∀ line ∈ thread.lines, ∀ g ∈ line.awaited,
            g ∈ s.finished ∨ Running s.threads g) ∧
          (s.Ended ∧ s.submitted = submitted ∧ s.proofs = proofs ∨ ∃ t, Step reps N s t) := by
  refine ⟨returnsOrRefuses_proveMembershipForked base N reps, fun budget n s hsteps => ?_,
    fun budget e => proveMembershipForked_of_error (Int.natCast_nonneg budget),
    fun budget hne hvalid => ?_⟩
  · have hcost := hsteps.add_cost_le
    rw [cost_start] at hcost
    rw [← Line.callCost_add_six]
    omega
  · obtain ⟨hN, hbase, hreps⟩ := of_validate_eq_ok hvalid
    have hstart := Sound.start base N reps budget
    obtain ⟨submitted, hfork⟩ := TreeNode.fork_rangeNode base hN hreps budget
      (List.length_pos_of_ne_nil hne) le_rfl (blankProofs reps)
    rw [← TreeNode.rootNode_eq hN hbase, TreeNode.fill_blankProofs] at hfork
    obtain rfl : submitted = TreeNode.submissions budget 0 reps.length :=
      TreeNode.submitted_of_fork hfork
    refine ⟨_, _, hfork, proveMembershipForked_ok hN hbase hreps (Int.natCast_nonneg budget),
      TreeNode.submissions_add_two_le budget 0 reps.length, hstart.room,
      hstart.exists_ended hN hbase hreps hne (.done _), fun n s hsteps => ?_⟩
    have h := hstart.steps hN hbase hreps hne hsteps
    refine ⟨hsteps.workers_eq, ?_, h.queue_nil, h.busy_lt, fun thread hthread line hline g hg =>
      h.started g ((h.threads thread hthread).awaits line hline g hg).1, ?_⟩
    · rw [← h.balance]
      exact Nat.le_add_right _ _
    · obtain hended | hstep := h.ended_or_step hN hbase hreps hne
      · exact .inl ⟨hended, h.submitted_of_ended hended,
          h.proofs_of_ended hN hbase hreps hne hended⟩
      · exact .inr hstep

end

open Unlimited in
/-- Five numbers with two levels split off, at the moment when the base of the left half has come
and that half has been submitted: it has a thread, and the other half waits for it later on. -/
theorem forked_tasks_start_at_once_five :
    validate 2 667 [3, 5, 3, 11, 7] = .ok () ∧ ∃ proofs,
      TreeNode.fork [3, 5, 3, 11, 7] 667 2 (rootNode 2 [3, 5, 3, 11, 7])
        (blankProofs [3, 5, 3, 11, 7]) = .ok (proofs, 4) ∧
      proveMembershipForked 2 667 [3, 5, 3, 11, 7] 2 = .ok proofs ∧ 4 < 2 <<< 2 ∧
      (∃ n s, Steps [3, 5, 3, 11, 7] 667 n (start 2 [3, 5, 3, 11, 7] 2) s ∧ s.Ended) ∧
      ∃ s, Steps [3, 5, 3, 11, 7] 667 4 (start 2 [3, 5, 3, 11, 7] 2) s ∧
        s.threads = {⟨some 1, [.call 1 ⟨0, 2, 70⟩]⟩, ⟨none, [.call 1 ⟨2, 5, 85⟩, .await 1]⟩} ∧
        s.submitted ≤ 4 ∧ s.queue = [] ∧ s.busy < s.workers ∧
        (1 ∈ s.finished ∨ Running s.threads 1) := by
  have hsteps : Steps [3, 5, 3, 11, 7] 667 4 (start 2 [3, 5, 3, 11, 7] 2) {
      workers := 8
      threads := {⟨some 1, [.call 1 ⟨0, 2, 70⟩]⟩, ⟨none, [.call 1 ⟨2, 5, 85⟩, .await 1]⟩}
      queue := []
      finished := [0]
      submitted := 2
      proofs := [0, 0, 0, 0, 0] } :=
    .next (.next (.next (.next (.done _)
      (@Step.cut _ _ _ _ none 1 ⟨0, 5, 2⟩ [] 0 rfl (by decide)))
      (@Step.leftBase _ _ _ _ (some 0) ⟨0, 5, 2⟩ [] {⟨none, [.join 1 ⟨0, 5, 2⟩ 0]⟩} 70 rfl
        (toOption_eq_some.mp (by decide +kernel))))
      (@Step.finish _ _ _ _ 0 {⟨none, [.join 1 ⟨0, 5, 2⟩ 0]⟩} rfl))
      (@Step.join _ _ _ _ none 1 ⟨0, 5, 2⟩ ⟨0, 2, 70⟩ ⟨2, 5, 85⟩ 0 [] 0 rfl (by decide)
        (toOption_eq_some.mp (by decide +kernel)))
  obtain ⟨-, -, -, hforked⟩ := forked_tasks_start_at_once 2 667 [3, 5, 3, 11, 7]
  obtain ⟨proofs, submitted, hfork, hproofs, -, hroom, hends, hruns⟩ := hforked 2 (by decide) rfl
  obtain rfl : submitted = 4 := TreeNode.submitted_of_fork hfork
  obtain ⟨-, hsubmitted, hqueue, hbusy, hawaits, -⟩ := hruns 4 _ hsteps
  exact ⟨rfl, proofs, hfork, hproofs, hroom, hends, _, hsteps, rfl, hsubmitted, hqueue, hbusy,
    hawaits ⟨none, [.call 1 ⟨2, 5, 85⟩, .await 1]⟩ (by decide) (.await 1) (by decide) 1 rfl⟩

end HiddenOrder
