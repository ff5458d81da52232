/-!
# Memo tables

A memo table remembers the answers of a computation that is worth not repeating.

* **`Memo`** — answers by key, the latest first.
* `Memo.find?`, `Memo.insert`, `Memo.empty` — look-up, the table with one more answer, and the
  table without any.  `find?_insert` says what a look-up finds after an insertion.
-/

namespace HiddenOrder

/-- A table of remembered answers. -/
structure Memo (κ υ : Type) where
  /-- Keys and answers, the latest first. -/
  entries : List (κ × υ)

namespace Memo

variable {κ υ : Type} [DecidableEq κ]

/-- The table without any answer. -/
def empty : Memo κ υ := ⟨[]⟩

/-- The first answer for a key in a list of them. -/
def findIn (key : κ) : List (κ × υ) → Option υ
  | [] => none
  | (k, v) :: rest => if k = key then some v else findIn key rest

/-- The remembered answer for a key. -/
def find? (m : Memo κ υ) (key : κ) : Option υ := findIn key m.entries

/-- The table with one more answer. -/
def insert (m : Memo κ υ) (key : κ) (answer : υ) : Memo κ υ := ⟨(key, answer) :: m.entries⟩

@[simp]
theorem find?_empty (key : κ) : (empty : Memo κ υ).find? key = none := rfl

/-- A look-up after an insertion finds the new answer under its key and the old ones elsewhere. -/
theorem find?_insert (m : Memo κ υ) (key key' : κ) (answer : υ) :
    (m.insert key answer).find? key' = if key = key' then some answer else m.find? key' := rfl

end Memo

end HiddenOrder
