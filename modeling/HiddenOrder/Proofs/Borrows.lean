import HiddenOrder.Proofs.ScratchPool
import Mathlib.Data.List.Perm.Basic

/-!
# Borrows that overlap

The searches borrow one slot inside another, but nothing asks for that: threads that share a pool
enter and leave their borrows in any order, and some of them leave by an error.  A *session* is what
then happens to a pool, event by event.  A slot is taken out of the pool and blanked in two steps,
since others may come in between; a slot may be written to by whoever knows it, also by those who
have given it back; and a borrow that has been left is not left again, whatever its body did.

* `ScratchPool.take`, **`ScratchPool.acquire_eq`** — the first of the two steps.
* `Event`, `Loan`, **`Session.step`** — what happens, the borrows, and a pool with its borrows.
* `Session.Orderly` — slots taken and slots idle are different, there is room for the idle ones, and
  the borrows that were left are those that released their slots.
* **`Session.Orderly.step`** — every event keeps that.
* **`Session.after_borrow`**, `Session.after_scratchGcd` — a borrow around a body is a session.
* **`borrows_keep_apart`** — what holds after any events.
-/

namespace HiddenOrder

namespace ScratchPool

variable {α β : Type}

/-- A slot that is not blanked yet: the idle one returned last, or else a new one. -/
def take (p : ScratchPool α) : ℕ × ScratchPool α :=
  match p.idle with
  | slot :: rest => (slot, { p with idle := rest })
  | [] => (p.values.length, { p with values := p.values ++ [p.blank] })

/-- **Acquiring a slot is taking it and blanking it.** -/
theorem acquire_eq (p : ScratchPool α) :
    p.acquire = (p.take.1, p.take.2.write p.take.1 p.blank) := by
  rw [acquire, take]
  cases hidle : p.idle with
  | nil => simp [write]
  | cons slot rest => rfl

section Fields

variable (p : ScratchPool α) (slot : ℕ) (value : α)

@[simp]
lemma blank_take : p.take.2.blank = p.blank := by
  rw [take]
  split <;> rfl

@[simp]
lemma maxSize_take : p.take.2.maxSize = p.maxSize := by
  rw [take]
  split <;> rfl

lemma size_take_le : p.take.2.size ≤ p.size := by
  rw [take, size, size]
  cases hidle : p.idle with
  | nil => simp
  | cons slot rest => exact Nat.le_succ _

@[simp]
lemma blank_release : (p.release slot).blank = p.blank := by
  rw [release]
  split_ifs <;> rfl

@[simp]
lemma maxSize_release : (p.release slot).maxSize = p.maxSize := by
  rw [release]
  split_ifs <;> rfl

/-- A slot is dropped rather than that more lie idle than may. -/
lemma size_release_le {most : ℤ} (hmost : p.maxSize ≤ most) (h : (p.size : ℤ) ≤ most) :
    ((p.release slot).size : ℤ) ≤ most := by
  rw [release, size]
  split_ifs with hroom
  · rw [List.length_cons]
    omega
  · exact h

end Fields

variable {p : ScratchPool α} {lent lent' : List ℕ}

namespace Holds

lemma perm (h : p.Holds lent) (hperm : lent.Perm lent') : p.Holds lent' where
  nodup := (hperm.append_right p.idle).nodup_iff.mp h.nodup
  made slot hslot := h.made slot ((hperm.append_right p.idle).mem_iff.mpr hslot)

lemma of_write {slot : ℕ} {value : α} (h : (p.write slot value).Holds lent) : p.Holds lent where
  nodup := h.nodup
  made other hother := by
    have hmade := h.made other hother
    simpa [ScratchPool.write] using hmade

/-- What is taken was not held by anybody, nor does it lie idle. -/
lemma take (h : p.Holds lent) : p.take.2.Holds (p.take.1 :: lent) := by
  have hacquire := h.acquire
  rw [acquire_eq] at hacquire
  exact hacquire.of_write

end Holds

/-! ## Sessions -/

/-- What happens to a pool that is borrowed from. -/
inductive Event (α : Type) where
  /-- A borrow begins to be entered: a slot is taken.  Borrows are numbered in this order. -/
  | take
  /-- The slot of a borrow is blanked and handed out, and the body begins. -/
  | handOut (borrow : ℕ)
  /-- A slot is given a value. -/
  | update (slot : ℕ) (value : α)
  /-- A borrow is left, because its body came to an end or raised an error. -/
  | leave (borrow : ℕ) (ending : Except Error Unit)

/-- How far a borrow has got. -/
inductive Progress where
  /-- It has a slot, which is not blanked yet. -/
  | taken
  /-- Its body is under way. -/
  | lent
  /-- It has been left. -/
  | returned
deriving DecidableEq

/-- A borrow: its slot, and how far it has got. -/
structure Loan where
  /-- The slot. -/
  slot : ℕ
  /-- How far it has got. -/
  progress : Progress
deriving DecidableEq

/-- The slots of the borrows that have not been left. -/
def heldSlots (loans : List Loan) : List ℕ :=
  (loans.filter fun loan => loan.progress ≠ .returned).map Loan.slot

/-- A pool and the borrows from it. -/
structure Session (α : Type) where
  /-- The pool. -/
  pool : ScratchPool α
  /-- The borrows, by number. -/
  loans : List Loan
  /-- The numbers of the borrows whose slots were released, the latest in front. -/
  released : List ℕ

/-- A new pool, before the first borrow. -/
def Session.start (blank : α) (maxSize : ℤ) : Session α := ⟨empty blank maxSize, [], []⟩

/-- The session after an event.  The slot of a borrow is handed out when it was taken, and released
when it was handed out; it is the way out of the body that releases it, so that an error does not
keep it. -/
def Session.step (s : Session α) : Event α → Session α
  | .take => { s with
      pool := s.pool.take.2
      loans := s.loans ++ [⟨s.pool.take.1, .taken⟩] }
  | .handOut borrow =>
    match s.loans[borrow]? with
    | some ⟨slot, .taken⟩ => { s with
        pool := s.pool.write slot s.pool.blank
        loans := s.loans.set borrow ⟨slot, .lent⟩ }
    | _ => s
  | .update slot value => { s with pool := s.pool.write slot value }
  | .leave borrow _ =>
    match s.loans[borrow]? with
    | some ⟨slot, .lent⟩ => {
        pool := s.pool.release slot
        loans := s.loans.set borrow ⟨slot, .returned⟩
        released := borrow :: s.released }
    | _ => s

/-- The session after some events. -/
def Session.after (s : Session α) (events : List (Event α)) : Session α := events.foldl step s

/-! ## Slots of borrows -/

section Loans

variable {loans : List Loan} {i slot : ℕ} {progress progress' : Progress}

lemma heldSlots_append_taken (loans : List Loan) (slot : ℕ) :
    (heldSlots (loans ++ [⟨slot, .taken⟩])).Perm (slot :: heldSlots loans) := by
  rw [heldSlots, List.filter_append, List.map_append]
  exact List.perm_append_singleton slot _

lemma heldSlots_set (hi : loans[i]? = some ⟨slot, progress⟩) (h : progress ≠ .returned)
    (h' : progress' ≠ .returned) : heldSlots (loans.set i ⟨slot, progress'⟩) = heldSlots loans := by
  induction loans generalizing i with
  | nil => cases hi
  | cons loan loans ih =>
      cases i with
      | zero =>
          obtain rfl := Option.some.inj hi
          simp [heldSlots, h, h']
      | succ i =>
          have hrest := ih hi
          by_cases hloan : loan.progress = .returned <;> simpa [heldSlots, hloan] using hrest

/-- Leaving a borrow takes its slot off the held ones. -/
lemma heldSlots_set_returned (hi : loans[i]? = some ⟨slot, progress⟩) (h : progress ≠ .returned) :
    (heldSlots loans).Perm (slot :: heldSlots (loans.set i ⟨slot, .returned⟩)) := by
  induction loans generalizing i with
  | nil => cases hi
  | cons loan loans ih =>
      cases i with
      | zero =>
          obtain rfl := Option.some.inj hi
          simp [heldSlots, h]
      | succ i =>
          have hrest := ih hi
          by_cases hloan : loan.progress = .returned
          · simpa [heldSlots, hloan] using hrest
          · have hswap := (hrest.cons loan.slot).trans (List.Perm.swap slot loan.slot _)
            simpa [heldSlots, hloan] using hswap

lemma mem_heldSlots (hi : loans[i]? = some ⟨slot, progress⟩) (h : progress ≠ .returned) :
    slot ∈ heldSlots loans := by
  refine List.mem_map.mpr ⟨⟨slot, progress⟩, List.mem_filter.mpr ⟨List.mem_of_getElem? hi, ?_⟩, rfl⟩
  exact decide_eq_true h

/-- A borrow that begins is neither under way nor left. -/
lemma getElem?_append_taken {slot' : ℕ} (h : progress ≠ .taken) :
    (loans ++ [⟨slot', .taken⟩])[i]? = some ⟨slot, progress⟩
      ↔ loans[i]? = some ⟨slot, progress⟩ := by
  rw [List.getElem?_append]
  split_ifs with hi
  · rfl
  · rw [List.getElem?_eq_none (not_lt.mp hi), List.getElem?_singleton]
    split_ifs <;> simp [h.symm]

/-- When the held slots are different, a slot is held by one borrow. -/
lemma eq_of_nodup_heldSlots {j : ℕ} (hnodup : (heldSlots loans).Nodup)
    (hi : loans[i]? = some ⟨slot, progress⟩) (h : progress ≠ .returned)
    (hj : loans[j]? = some ⟨slot, progress'⟩) (h' : progress' ≠ .returned) : i = j := by
  by_contra hne
  have hother := (heldSlots_set_returned hi h).nodup_iff.mp hnodup
  refine (List.nodup_cons.mp hother).1 (mem_heldSlots (i := j) ?_ h')
  rwa [List.getElem?_set_ne hne]

end Loans

namespace Session

section Steps

variable {s : Session α} {borrow slot : ℕ}

lemma step_handOut (h : s.loans[borrow]? = some ⟨slot, .taken⟩) :
    s.step (.handOut borrow) = { s with
      pool := s.pool.write slot s.pool.blank
      loans := s.loans.set borrow ⟨slot, .lent⟩ } := by
  rw [step, h]

lemma step_leave (h : s.loans[borrow]? = some ⟨slot, .lent⟩) (ending : Except Error Unit) :
    s.step (.leave borrow ending) = {
      pool := s.pool.release slot
      loans := s.loans.set borrow ⟨slot, .returned⟩
      released := borrow :: s.released } := by
  rw [step, h]

/-- A slot that is handed out was taken for that borrow. -/
lemma step_handOut_cases (s : Session α) (borrow : ℕ) :
    (∃ slot, s.loans[borrow]? = some ⟨slot, .taken⟩) ∨ s.step (.handOut borrow) = s := by
  rw [step]
  split
  · exact .inl ⟨_, ‹_›⟩
  · exact .inr rfl

/-- A borrow that is left was entered. -/
lemma step_leave_cases (s : Session α) (borrow : ℕ) (ending : Except Error Unit) :
    (∃ slot, s.loans[borrow]? = some ⟨slot, .lent⟩) ∨ s.step (.leave borrow ending) = s := by
  rw [step]
  split
  · exact .inl ⟨_, ‹_›⟩
  · exact .inr rfl

end Steps

/-! ## What every event keeps -/

/-- The borrows have slots of their own, none of which lies idle; no more slots lie idle than may;
and the slots that were released are those of the borrows that were left, once each. -/
structure Orderly (blank : α) (maxSize : ℤ) (s : Session α) : Prop where
  blank_eq : s.pool.blank = blank
  maxSize_eq : s.pool.maxSize = maxSize
  holds : s.pool.Holds (heldSlots s.loans)
  size_le : (s.pool.size : ℤ) ≤ max 0 maxSize
  nodup_released : s.released.Nodup
  mem_released : ∀ i, i ∈ s.released ↔ ∃ slot, s.loans[i]? = some ⟨slot, .returned⟩

variable {s : Session α} {blank : α} {maxSize : ℤ} {borrow slot : ℕ}

namespace Orderly

lemma start (blank : α) (maxSize : ℤ) : (Session.start blank maxSize).Orderly blank maxSize where
  blank_eq := rfl
  maxSize_eq := rfl
  holds := holds_empty blank maxSize
  size_le := le_max_left 0 maxSize
  nodup_released := List.nodup_nil
  mem_released i := by simp [Session.start]

lemma take (h : s.Orderly blank maxSize) : (s.step .take).Orderly blank maxSize where
  blank_eq := s.pool.blank_take.trans h.blank_eq
  maxSize_eq := s.pool.maxSize_take.trans h.maxSize_eq
  holds := h.holds.take.perm (heldSlots_append_taken s.loans _).symm
  size_le := (Int.ofNat_le.mpr s.pool.size_take_le).trans h.size_le
  nodup_released := h.nodup_released
  mem_released i := by
    rw [show (s.step .take).released = s.released from rfl, h.mem_released]
    exact exists_congr fun slot => (getElem?_append_taken (by decide)).symm

lemma handOut (h : s.Orderly blank maxSize) (hslot : s.loans[borrow]? = some ⟨slot, .taken⟩) :
    (s.step (.handOut borrow)).Orderly blank maxSize := by
  rw [step_handOut hslot]
  have hheld : heldSlots (s.loans.set borrow ⟨slot, .lent⟩) = heldSlots s.loans :=
    heldSlots_set hslot (by decide) (by decide)
  constructor
  · exact h.blank_eq
  · exact h.maxSize_eq
  · rw [hheld]
    exact h.holds.write slot _
  · exact h.size_le
  · exact h.nodup_released
  · intro i
    rw [h.mem_released, List.getElem?_set]
    split_ifs with hi hlt
    · simp [← hi, hslot]
    · simp [← hi, hslot]
    · rfl

lemma leave (h : s.Orderly blank maxSize) (hslot : s.loans[borrow]? = some ⟨slot, .lent⟩)
    (ending : Except Error Unit) : (s.step (.leave borrow ending)).Orderly blank maxSize := by
  rw [step_leave hslot]
  have hlt : borrow < s.loans.length := (List.getElem?_eq_some_iff.mp hslot).1
  constructor
  · exact (s.pool.blank_release slot).trans h.blank_eq
  · exact (s.pool.maxSize_release slot).trans h.maxSize_eq
  · exact (h.holds.perm (heldSlots_set_returned hslot (by decide))).release
  · exact s.pool.size_release_le slot (h.maxSize_eq ▸ le_max_right 0 maxSize) h.size_le
  · -- its slot was not released before, since the borrow had not been left
    refine h.nodup_released.cons fun hmem => ?_
    obtain ⟨slot', hslot'⟩ := (h.mem_released borrow).mp hmem
    rw [hslot] at hslot'
    cases hslot'
  · intro i
    rw [List.mem_cons, h.mem_released, List.getElem?_set]
    split_ifs with hi
    · simp [hi]
    · simp [Ne.symm hi]

/-- **Every event keeps a session orderly.** -/
theorem step (h : s.Orderly blank maxSize) (event : Event α) :
    (s.step event).Orderly blank maxSize := by
  cases event with
  | take => exact h.take
  | handOut borrow =>
      obtain ⟨slot, hslot⟩ | hsame := s.step_handOut_cases borrow
      · exact h.handOut hslot
      · rwa [hsame]
  | update slot value => exact { h with holds := h.holds.write slot value }
  | leave borrow ending =>
      obtain ⟨slot, hslot⟩ | hsame := s.step_leave_cases borrow ending
      · exact h.leave hslot ending
      · rwa [hsame]

theorem after (h : s.Orderly blank maxSize) (events : List (Event α)) :
    (s.after events).Orderly blank maxSize :=
  List.foldlRecOn events Session.step h fun _ hs event _ => hs.step event

lemma eq_of_slot (h : s.Orderly blank maxSize) {i j : ℕ} {progress progress' : Progress}
    (hi : s.loans[i]? = some ⟨slot, progress⟩) (hne : progress ≠ .returned)
    (hj : s.loans[j]? = some ⟨slot, progress'⟩) (hne' : progress' ≠ .returned) :
    i = j ∧ slot ∉ s.pool.idle := by
  obtain ⟨hheld, -, hdisjoint⟩ := List.nodup_append'.mp h.holds.nodup
  exact ⟨eq_of_nodup_heldSlots hheld hi hne hj hne', hdisjoint (mem_heldSlots hi hne)⟩

/-- A slot becomes lent when it is handed out, and is blank then. -/
lemma blank_of_lent (h : s.Orderly blank maxSize) {event : Event α}
    (hbefore : s.loans[borrow]? ≠ some ⟨slot, .lent⟩)
    (hafter : (s.step event).loans[borrow]? = some ⟨slot, .lent⟩) :
    (s.step event).pool.values[slot]? = some blank := by
  cases event with
  | take => exact absurd ((getElem?_append_taken (by decide)).mp hafter) hbefore
  | handOut other =>
      obtain ⟨slot', hslot'⟩ | hsame := s.step_handOut_cases other
      · rw [step_handOut hslot'] at hafter ⊢
        rw [List.getElem?_set] at hafter
        split_ifs at hafter with hother
        · obtain rfl : slot' = slot := congrArg Loan.slot (Option.some.inj hafter)
          have hheld := mem_heldSlots hslot' (by decide)
          have hmade := h.holds.made slot' (List.mem_append_left _ hheld)
          rw [ScratchPool.write, List.getElem?_set_self hmade, h.blank_eq]
        · exact absurd hafter hbefore
      · rw [hsame] at hafter
        exact absurd hafter hbefore
  | update slot' value => exact absurd hafter hbefore
  | leave other ending =>
      obtain ⟨slot', hslot'⟩ | hsame := s.step_leave_cases other ending
      · rw [step_leave hslot', List.getElem?_set] at hafter
        split_ifs at hafter with hother
        · cases hafter
        · exact absurd hafter hbefore
      · rw [hsame] at hafter
        exact absurd hafter hbefore

end Orderly

/-- When nothing comes in between, entering a borrow acquires its slot. -/
lemma step_take_handOut (s : Session α) :
    (s.step .take).step (.handOut s.loans.length) = { s with
      pool := s.pool.acquire.2
      loans := s.loans ++ [⟨s.pool.acquire.1, .lent⟩] } := by
  have htaken : (s.step .take).loans[s.loans.length]? = some ⟨s.pool.take.1, .taken⟩ := by
    simp [step]
  rw [step_handOut htaken, acquire_eq]
  simp [step]

/-- **A borrow around a body is a session**: the slot is taken, handed out, and released behind the
events of the body, in whatever way the body ends. -/
theorem after_borrow (s : Session α) (use : ℕ → ScratchPool α → β × ScratchPool α)
    (body : List (Event α)) (ending : Except Error Unit)
    (huse : (s.after (.take :: .handOut s.loans.length :: body)).pool
      = (use s.pool.acquire.1 s.pool.acquire.2).2)
    (hlent : (s.after (.take :: .handOut s.loans.length :: body)).loans[s.loans.length]?
      = some ⟨s.pool.acquire.1, .lent⟩) :
    (s.after (.take :: .handOut s.loans.length :: body ++ [.leave s.loans.length ending])).pool
      = (s.pool.borrow use).2 := by
  rw [after, List.foldl_append, List.foldl_cons, List.foldl_nil]
  rw [after] at huse hlent
  rw [step_leave hlent, huse]
  rfl

/-- A divisor is worked out in two borrows, one inside the other. -/
theorem after_scratchGcd (s : Session Gaussian) (a b : Gaussian)
    (ending ending' : Except Error Unit) :
    (s.after [.take, .handOut s.loans.length, .take, .handOut (s.loans.length + 1),
      .update s.pool.acquire.1 a, .update s.pool.acquire.2.acquire.1 b,
      .leave (s.loans.length + 1) ending, .leave s.loans.length ending']).pool
      = (scratchGcd a b s.pool).2 := by
  obtain ⟨opened, hopened⟩ : ∃ opened, opened = (s.step .take).step (.handOut s.loans.length) :=
    ⟨_, rfl⟩
  rw [step_take_handOut] at hopened
  have hlen : s.loans.length + 1 = opened.loans.length := by simp [hopened]
  have hfirst : opened.loans[s.loans.length]? = some ⟨s.pool.acquire.1, .lent⟩ := by
    simp [hopened]
  refine s.after_borrow _ [.take, .handOut (s.loans.length + 1), .update s.pool.acquire.1 a,
    .update s.pool.acquire.2.acquire.1 b, .leave (s.loans.length + 1) ending] ending' ?_ ?_
  · -- the inner borrow is a session as well, from where the outer one has opened
    rw [after, List.foldl_cons, List.foldl_cons, step_take_handOut, ← hopened, hlen]
    refine (opened.after_borrow (fun y pool =>
        let pool := (pool.write s.pool.acquire.1 a).write y b
        (Gaussian.gcd (pool.read s.pool.acquire.1) (pool.read y), pool))
      [.update s.pool.acquire.1 a, .update s.pool.acquire.2.acquire.1 b] ending ?_ ?_).trans ?_
    · rw [after, List.foldl_cons, List.foldl_cons, step_take_handOut, hopened]
      rfl
    · rw [after, List.foldl_cons, List.foldl_cons, step_take_handOut]
      simp [step]
    · rw [hopened]
  · rw [after, List.foldl_cons, List.foldl_cons, step_take_handOut, ← hopened, hlen,
      List.foldl_cons, List.foldl_cons, step_take_handOut]
    have hlt : s.loans.length < opened.loans.length := by omega
    simp [step, List.getElem?_append_left hlt, hfirst]

end Session

/-- **Borrows keep apart.**  After any events at a new pool, two borrows that have not been left do
not have one slot, and what they have does not lie idle.  Entering a borrow is acquiring a slot when
nothing comes in between.  Whatever comes in between, a slot that was taken can be handed out, and
whichever event makes it a lent one leaves it blank; and leaving a lent slot releases it, in
whatever way the body ends.  No borrow releases a slot twice, and those that released one are those
that were left.  No more slots lie idle than may, and none lies idle twice. -/
theorem borrows_keep_apart (blank : α) (maxSize : ℤ) (events : List (Event α)) (s : Session α)
    (hs : (Session.start blank maxSize).after events = s) :
    (∀ (i j slot : ℕ) progress progress',
      s.loans[i]? = some ⟨slot, progress⟩ → progress ≠ .returned →
      s.loans[j]? = some ⟨slot, progress'⟩ → progress' ≠ .returned →
      i = j ∧ slot ∉ s.pool.idle) ∧
    (s.step .take).step (.handOut s.loans.length) = { s with
      pool := s.pool.acquire.2
      loans := s.loans ++ [⟨s.pool.acquire.1, .lent⟩] } ∧
    (∀ (k slot : ℕ), s.loans[k]? = some ⟨slot, .taken⟩ →
      (s.step (.handOut k)).loans = s.loans.set k ⟨slot, .lent⟩) ∧
    (∀ event (k slot : ℕ), s.loans[k]? ≠ some ⟨slot, .lent⟩ →
      (s.step event).loans[k]? = some ⟨slot, .lent⟩ →
      (s.step event).pool.values[slot]? = some blank) ∧
    (∀ (k slot : ℕ) ending, s.loans[k]? = some ⟨slot, .lent⟩ → s.step (.leave k ending) = {
      pool := s.pool.release slot
      loans := s.loans.set k ⟨slot, .returned⟩
      released := k :: s.released }) ∧
    s.released.Nodup ∧
    (∀ k : ℕ, k ∈ s.released ↔ ∃ slot, s.loans[k]? = some ⟨slot, .returned⟩) ∧
    (s.pool.size : ℤ) ≤ max 0 maxSize ∧ s.pool.idle.Nodup := by
  have h : s.Orderly blank maxSize := hs ▸ (Session.Orderly.start blank maxSize).after events
  refine ⟨fun i j slot progress progress' hi hne hj hne' => h.eq_of_slot hi hne hj hne',
    s.step_take_handOut, fun k slot hk => ?_, fun event k slot => h.blank_of_lent,
    fun k slot ending hk => Session.step_leave hk ending, h.nodup_released, h.mem_released,
    h.size_le, (List.nodup_append'.mp h.holds.nodup).2.1⟩
  rw [Session.step_handOut hk]

/-- Of three borrows one writes and raises an error; the next gets its slot with what was written,
but blanked, and the slot of the first is not that one. -/
theorem borrows_keep_apart_three :
    ∃ s : Session ℤ, (Session.start 0 1).after [.take, .take, .handOut 1, .update 1 7,
        .leave 1 (.error .outOfSteps), .leave 1 (.ok ()), .take] = s ∧
      s.loans = [⟨0, .taken⟩, ⟨1, .returned⟩, ⟨1, .taken⟩] ∧ s.released = [1] ∧
      s.pool.values = [0, 7] ∧ 1 ∉ s.pool.idle ∧
      (s.step (.handOut 2)).pool.values[1]? = some 0 ∧
      ((s.step (.handOut 2)).step (.leave 2 (.ok ()))).pool.idle = [1] ∧
      (s.pool.size : ℤ) ≤ max 0 1 ∧ s.pool.idle.Nodup := by
  obtain ⟨happart, -, -, hblank, -, -, -, hsize, hidle⟩ :=
    borrows_keep_apart (0 : ℤ) 1 [.take, .take, .handOut 1, .update 1 7,
      .leave 1 (.error .outOfSteps), .leave 1 (.ok ()), .take] _ rfl
  exact ⟨_, rfl, rfl, rfl, rfl, (happart 2 2 1 .taken .taken rfl (by decide) rfl (by decide)).2,
    hblank (.handOut 2) 2 1 (by decide) rfl, rfl, hsize, hidle⟩

end ScratchPool

end HiddenOrder
