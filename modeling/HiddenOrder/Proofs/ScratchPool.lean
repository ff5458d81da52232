import HiddenOrder.Proofs.FourSquareSearch
import Mathlib.Data.List.Nodup

/-!
# Slots that are not lent twice

A computation in two borrowed slots needs them to be two.  A pool lends what lies idle, so that is a
matter of the idle slots and the lent ones together: all of them are different, and each of them was
made.  Acquiring and releasing a slot moves it from one side to the other, and a new pool has
neither.

* `ScratchPool.Stocked` — the idle slots were made.
* `ScratchPool.Holds` — idle slots and lent ones are different, and were made.
* **`ScratchPool.Holds.borrow`** — a borrowed slot is returned.
* **`ScratchPool.scratchGcd_ok`**, **`ScratchPool.scratchGcrd_ok`** — what is worked out in borrowed
  slots is what would be worked out without.
* `SearchCache.Sound` — both pools have nothing lent.
* **`SearchCache.Sound.kept`** — searches leave them so.
-/

namespace HiddenOrder

namespace ScratchPool

variable {α β : Type} {p : ScratchPool α} {lent : List ℕ} {slot other : ℕ}

/-- Every idle slot was made: its number is that of a slot with a value. -/
def Stocked (p : ScratchPool α) : Prop := ∀ slot ∈ p.idle, slot < p.values.length

/-- The slots that are lent and those that lie idle are all different, and all of them were made. -/
structure Holds (p : ScratchPool α) (lent : List ℕ) : Prop where
  nodup : (lent ++ p.idle).Nodup
  made : ∀ slot ∈ lent ++ p.idle, slot < p.values.length

lemma holds_empty (blank : α) (maxSize : ℤ) : (empty blank maxSize).Holds [] := by
  constructor
  · exact List.nodup_nil
  · rintro slot ⟨⟩

lemma Holds.stocked (h : p.Holds lent) : p.Stocked :=
  fun slot hslot => h.made slot (List.mem_append_right lent hslot)

/-- The slot that is handed out was made. -/
lemma Stocked.acquire_lt (h : p.Stocked) : p.acquire.1 < p.acquire.2.values.length := by
  rw [acquire]
  cases hidle : p.idle with
  | nil =>
      rw [List.length_append, List.length_singleton]
      exact Nat.lt_succ_self _
  | cons slot rest =>
      rw [List.length_set]
      exact h slot (hidle ▸ List.mem_cons_self)

/-! ## Values -/

lemma read_write (h : slot < p.values.length) (value : α) :
    (p.write slot value).read slot = value := by
  simp [read, write, h]

lemma read_write_of_ne (h : slot ≠ other) (value : α) :
    (p.write slot value).read other = p.read other := by
  simp [read, write, List.getD_eq_getElem?_getD, h]

namespace Holds

lemma write (h : p.Holds lent) (slot : ℕ) (value : α) : (p.write slot value).Holds lent := by
  constructor
  · exact h.nodup
  · intro other hother
    have hmade := h.made other hother
    simpa [ScratchPool.write] using hmade

/-! ## Lending -/

lemma acquire (h : p.Holds lent) : p.acquire.2.Holds (p.acquire.1 :: lent) := by
  rw [ScratchPool.acquire]
  cases hidle : p.idle with
  | nil =>
      have hnodup := h.nodup
      have hmade := h.made
      rw [hidle, List.append_nil] at hnodup hmade
      -- the new slot has a number that no slot had
      have hfresh : p.values.length ∉ lent := fun hmem => lt_irrefl _ (hmade _ hmem)
      constructor
      · simpa [hidle] using ⟨hfresh, hnodup⟩
      · intro slot hslot
        simp only [List.append_nil, List.mem_cons] at hslot
        rw [List.length_append, List.length_singleton]
        rcases hslot with rfl | hslot
        · exact Nat.lt_succ_self _
        · exact Nat.lt_succ_of_lt (hmade slot hslot)
  | cons slot rest =>
      have hnodup := h.nodup
      have hmade := h.made
      rw [hidle] at hnodup hmade
      constructor
      · exact List.nodup_middle.mp hnodup
      · intro other hother
        rw [List.length_set]
        exact hmade other (List.perm_middle.mem_iff.mpr hother)

lemma release (h : p.Holds (slot :: lent)) : (p.release slot).Holds lent := by
  rw [ScratchPool.release]
  split_ifs with hroom
  · constructor
    · exact List.nodup_middle.mpr h.nodup
    · intro other hother
      exact h.made other (List.perm_middle.mem_iff.mp hother)
  · constructor
    · exact h.nodup.of_cons
    · intro other hother
      exact h.made other (List.mem_cons_of_mem _ hother)

/-- **A borrowed slot is returned**, and is lent to nobody else while it is used. -/
theorem borrow {Q : β → Prop} {use : ℕ → ScratchPool α → β × ScratchPool α} (h : p.Holds lent)
    (huse : ∀ slot q, q.Holds (slot :: lent) →
      Q (use slot q).1 ∧ (use slot q).2.Holds (slot :: lent)) :
    Q (p.borrow use).1 ∧ (p.borrow use).2.Holds lent := by
  obtain ⟨hresult, hholds⟩ := huse p.acquire.1 p.acquire.2 h.acquire
  exact ⟨hresult, hholds.release⟩

end Holds

/-! ## Divisors worked out in borrowed slots -/

/-- **Two borrowed slots are two.** -/
theorem scratchGcd_ok {p : ScratchPool Gaussian} (h : p.Holds lent) (a b : Gaussian) :
    (scratchGcd a b p).1 = Gaussian.gcd a b ∧ (scratchGcd a b p).2.Holds lent := by
  refine h.borrow (Q := (· = Gaussian.gcd a b)) fun x q hx => ?_
  refine hx.borrow (Q := (· = Gaussian.gcd a b)) fun y q hy => ?_
  have hne : y ≠ x := by
    have hnodup := hy.nodup
    simp only [List.cons_append, List.nodup_cons, List.mem_cons, not_or] at hnodup
    exact hnodup.1.1
  have hxmade : x < q.values.length := hy.made x (by simp)
  have hymade : y < (q.write x a).values.length := (hy.write x a).made y (by simp)
  constructor
  · dsimp only
    rw [read_write_of_ne hne, read_write hxmade, read_write hymade]
  · exact (hy.write x a).write y b

/-- One borrowed slot only has to be there. -/
lemma scratchGcrd_of_stocked {p : ScratchPool Hurwitz} (hp : p.Stocked) (h : Hurwitz) (odd : ℕ) :
    (scratchGcrd h odd p).1 = Hurwitz.gcrd h (.ofInts odd 0 0 0) := by
  show Hurwitz.gcrd h ((p.acquire.2.write p.acquire.1 (.ofInts odd 0 0 0)).read p.acquire.1) = _
  rw [read_write hp.acquire_lt]

theorem scratchGcrd_ok {p : ScratchPool Hurwitz} (hp : p.Holds lent) (h : Hurwitz) (odd : ℕ) :
    (scratchGcrd h odd p).1 = Hurwitz.gcrd h (.ofInts odd 0 0 0) ∧
      (scratchGcrd h odd p).2.Holds lent := by
  refine ⟨scratchGcrd_of_stocked hp.stocked h odd, ?_⟩
  exact (hp.borrow (Q := fun _ => True) fun x q hx => ⟨trivial, hx.write x _⟩).2

end ScratchPool

namespace SearchCache

/-- Nothing of the two pools is lent, and no slot lies idle twice. -/
structure Sound (c : SearchCache) : Prop where
  gaussians : c.gaussians.Holds []
  quaternions : c.quaternions.Holds []

lemma sound_ofLimits (primeLimit squareLimit : ℤ) : (ofLimits primeLimit squareLimit).Sound where
  gaussians := ScratchPool.holds_empty 0 poolSize
  quaternions := ScratchPool.holds_empty 0 poolSize

/-- **Searches leave the pools sound.** -/
theorem Sound.kept : Kept Sound where
  primes _ _ h := ⟨h.gaussians, h.quaternions⟩
  gaussians _ a b h := ⟨(ScratchPool.scratchGcd_ok h.gaussians a b).2, h.quaternions⟩
  quaternions _ q odd h := ⟨h.gaussians, (ScratchPool.scratchGcrd_ok h.quaternions q odd).2⟩

end SearchCache

end HiddenOrder
