/-!
# Pools of scratch slots

A search that runs for a long time does not want a new scratch object for every trial.  A pool
lends numbered slots that hold one value each, takes them back, and lends the one returned last
first.  A slot is blank whenever it is handed out; what it held before never leaks into the next
computation.

* **`ScratchPool`** — the slots that lie idle, and the value of every slot ever made.
* **`ScratchPool.acquire`** — the idle slot returned last, or a new one; blank in either case.
* **`ScratchPool.release`** — a slot is given back; it is dropped when enough lie idle already.
  Nothing checks that it was lent: a slot given back twice lies idle twice.
* `ScratchPool.read`, `ScratchPool.write` — the value of a slot.
* **`ScratchPool.borrow`** — acquire a slot, use it, and release it.
-/

namespace HiddenOrder

/-- A pool of scratch slots that hold values of a type. -/
structure ScratchPool (α : Type) where
  /-- The value of a slot when it is handed out. -/
  blank : α
  /-- How many slots may lie idle. -/
  maxSize : Int
  /-- The idle slots, the one returned last in front. -/
  idle : List Nat
  /-- The values of all slots ever made, by number. -/
  values : List α

namespace ScratchPool

variable {α : Type}

/-- A pool without a slot. -/
def empty (blank : α) (maxSize : Int) : ScratchPool α := ⟨blank, maxSize, [], []⟩

/-- How many slots lie idle. -/
def size (p : ScratchPool α) : Nat := p.idle.length

/-- The value of a slot. -/
def read (p : ScratchPool α) (slot : Nat) : α := p.values.getD slot p.blank

/-- The pool with a new value in a slot. -/
def write (p : ScratchPool α) (slot : Nat) (value : α) : ScratchPool α :=
  { p with values := p.values.set slot value }

/-- A blank slot: the idle one returned last, or else a new one. -/
def acquire (p : ScratchPool α) : Nat × ScratchPool α :=
  match p.idle with
  | slot :: rest => (slot, { p with idle := rest, values := p.values.set slot p.blank })
  | [] => (p.values.length, { p with values := p.values ++ [p.blank] })

/-- The pool with a slot given back, or dropped when enough lie idle. -/
def release (p : ScratchPool α) (slot : Nat) : ScratchPool α :=
  if (p.idle.length : Int) < p.maxSize then { p with idle := slot :: p.idle } else p

/-- A slot lent for one use: what the use gives, and the pool with the slot given back. -/
def borrow {β : Type} (p : ScratchPool α) (use : Nat → ScratchPool α → β × ScratchPool α) :
    β × ScratchPool α :=
  let (slot, p) := p.acquire
  let (result, p) := use slot p
  (result, p.release slot)

end ScratchPool

end HiddenOrder
