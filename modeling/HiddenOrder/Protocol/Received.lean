import HiddenOrder.Transcript

/-!
# What a verifier is handed

A proof that comes from outside need not look like one that a prover made: a field may be absent, or
hold something that is no integer.  A verifier does not look for that in advance.  It goes its way,
may well refuse the proof before it comes to such a field, and fails only when it has to use it.

So a verifier works on a *received* proof, whose fields may hold anything; a proof in the library's
own form is a received proof in which every field holds what it should.

* **`Datum`** — an integer, or something else, of which only the text is known, because that is what
  a transcript takes down.
* `Datum.entry`, **`Datum.get`** — the datum as an entry of a transcript, and as an integer.
* **`Sequence`** — data in a row, or something that has no length.
* **`present`** — what a field holds; an absent field is a fault.
-/

namespace HiddenOrder

/-- What stands in a place where an integer is expected. -/
inductive Datum where
  /-- An integer. -/
  | int (n : Int)
  /-- Something else; its text. -/
  | other (shown : Wording)
deriving DecidableEq, Repr

namespace Datum

/-- The datum as an entry of a transcript. -/
def entry : Datum → Entry
  | .int n => .number n
  | .other shown => .shown shown

/-- The integer that a datum is; something else is a fault. -/
def get : Datum → Except Error Int
  | .int n => .ok n
  | .other _ => .error (.fault .wrongKind)

@[simp]
theorem entry_int (n : Int) : (int n).entry = .number n := rfl

@[simp]
theorem get_int (n : Int) : (int n).get = .ok n := rfl

/-- The integers that some data are, the first fault deciding. -/
def getAll : List Datum → Except Error (List Int)
  | [] => .ok []
  | d :: rest => do
    let n ← d.get
    let ns ← getAll rest
    pure (n :: ns)

/-- Integers are read back as they are. -/
@[simp]
theorem getAll_map_int (ns : List Int) : getAll (ns.map int) = .ok ns := by
  induction ns with
  | nil => rfl
  | cons n ns ih => simp only [List.map_cons, getAll, get_int, ih]; rfl

end Datum

/-- What stands in a place where a row of integers is expected. -/
inductive Sequence where
  /-- A row of data. -/
  | items (data : List Datum)
  /-- Something without a length. -/
  | unsized
deriving DecidableEq, Repr

namespace Sequence

/-- A row of integers. -/
def ofInts (ns : List Int) : Sequence := .items (ns.map .int)

/-- The data of a row; something without a length is a fault. -/
def toList : Sequence → Except Error (List Datum)
  | .items data => .ok data
  | .unsized => .error (.fault .wrongKind)

@[simp]
theorem toList_ofInts (ns : List Int) : (ofInts ns).toList = .ok (ns.map .int) := rfl

end Sequence

/-- What a field holds; an absent field is a fault. -/
def present {α : Type} : Option α → Except Error α
  | some a => .ok a
  | none => .error (.fault .notAnObject)

@[simp]
theorem present_some {α : Type} (a : α) : present (some a) = .ok a := rfl

/-- The integer that a field holds. -/
def presentInt (field : Option Datum) : Except Error Int := do
  let d ← present field
  d.get

@[simp]
theorem presentInt_some_int (n : Int) : presentInt (some (.int n)) = .ok n := rfl

/-- The data of the row that a field holds. -/
def presentRow (field : Option Sequence) : Except Error (List Datum) := do
  let s ← present field
  s.toList

@[simp]
theorem presentRow_some_ofInts (ns : List Int) :
    presentRow (some (.ofInts ns)) = .ok (ns.map .int) := rfl

end HiddenOrder
