import HiddenOrder.Proofs.Hurwitz
import HiddenOrder.Proofs.Outcome

/-!
# Quaternions kept as bare coordinates

The type of Hurwitz integers carries the proof that the four doubled coordinates have one parity, so
the question whether an operation might leave the type does not arise.  It does for a store that
keeps four integers for every quaternion and nothing else, and whose only protection is a check of
the parities when a quaternion is made or overwritten.  Such a store is described here, with the
arithmetic worked out on the four integers and every result checked.

Both are the same: what is made of quaternions with proofs is what is made of their coordinates, so
no check on the result of an operation ever fails.  What may fail is what comes from outside,
coordinates of mixed parity and a divisor that is zero, and since nothing is written before it is
checked, the store then is as it was.

* `Coordinates`, `Coordinates.checked` — four integers, and the check of their parities.
* `Coordinates.mul`, `Coordinates.divMod`, `Coordinates.gcrd`, … — the arithmetic with its checks.
* **`Coordinates.lawful`** — the laws that it obeys, halves and quarters exact.
* `QuaternionStore.Operation`, `QuaternionStore.exec`, `QuaternionStore.after` — quaternions by
  their places in a store, in either arithmetic.
* **`QuaternionStore.exec_eq`** — what an operation does, all its checks before its one write.
* **`QuaternionStore.hurwitz_agree_bare`**, **`QuaternionStore.after_map`** — the two arithmetics
  agree, and those that do make for the same stores.
* `QuaternionStore.Refused`, **`QuaternionStore.outcome_eq_error_iff`** — what is refused.
* **`QuaternionStore.wellKept_after`** — the store after any operations.
-/

namespace HiddenOrder

/-! ## Arithmetic on bare coordinates -/

/-- Four doubled coordinates, with nothing known about them. -/
@[ext]
structure Coordinates where
  /-- Twice the real coordinate. -/
  r : ℤ
  /-- Twice the coordinate of `i`. -/
  i : ℤ
  /-- Twice the coordinate of `j`. -/
  j : ℤ
  /-- Twice the coordinate of `k`. -/
  k : ℤ
deriving DecidableEq

namespace Coordinates

instance : Zero Coordinates := ⟨⟨0, 0, 0, 0⟩⟩

/-- The coordinates have one parity. -/
def OneParity (c : Coordinates) : Prop :=
  c.i % 2 = c.r % 2 ∧ c.j % 2 = c.r % 2 ∧ c.k % 2 = c.r % 2

instance : DecidablePred OneParity := fun _ => inferInstanceAs (Decidable (_ ∧ _ ∧ _))

variable [DigitLimit]

/-- The coordinates, unless their parities are mixed. -/
def checked (c : Coordinates) : Except Error Coordinates :=
  if c.OneParity then .ok c else .error (refuse (.mixedParity c.r c.i c.j c.k))

/-- Whether every coordinate is zero. -/
def isZero (c : Coordinates) : Bool := c.r == 0 && c.i == 0 && c.j == 0 && c.k == 0

/-- A quarter of the sum of the squares. -/
def norm (c : Coordinates) : ℤ := (c.r * c.r + c.i * c.i + c.j * c.j + c.k * c.k) / 4

/-- The negative. -/
def neg (c : Coordinates) : Except Error Coordinates := checked ⟨-c.r, -c.i, -c.j, -c.k⟩

/-- The conjugate. -/
def conj (c : Coordinates) : Except Error Coordinates := checked ⟨c.r, -c.i, -c.j, -c.k⟩

/-- The sum. -/
def add (c d : Coordinates) : Except Error Coordinates :=
  checked ⟨c.r + d.r, c.i + d.i, c.j + d.j, c.k + d.k⟩

/-- The difference. -/
def sub (c d : Coordinates) : Except Error Coordinates :=
  checked ⟨c.r - d.r, c.i - d.i, c.j - d.j, c.k - d.k⟩

/-- The Hamilton product of the doubled coordinates, halved. -/
def mul (c d : Coordinates) : Except Error Coordinates :=
  checked ⟨(c.r * d.r - c.i * d.i - c.j * d.j - c.k * d.k) / 2,
    (c.r * d.i + c.i * d.r + c.j * d.k - c.k * d.j) / 2,
    (c.r * d.j - c.i * d.k + c.j * d.r + c.k * d.i) / 2,
    (c.r * d.k + c.i * d.j - c.j * d.i + c.k * d.r) / 2⟩

/-- Quotient and remainder; a divisor of norm zero is refused. -/
def divMod (c d : Coordinates) : Except Error (Coordinates × Coordinates) :=
  if d.norm = 0 then .error (refuse .hurwitzDivision)
  else do
    let num ← c.mul (← d.conj)
    let q ← checked ⟨2 * roundDiv num.r (2 * d.norm), 2 * roundDiv num.i (2 * d.norm),
      2 * roundDiv num.j (2 * d.norm), 2 * roundDiv num.k (2 * d.norm)⟩
    let q' ← checked ⟨2 * (num.r / (2 * d.norm)) + 1, 2 * (num.i / (2 * d.norm)) + 1,
      2 * (num.j / (2 * d.norm)) + 1, 2 * (num.k / (2 * d.norm)) + 1⟩
    let rem ← c.sub (← q.mul d)
    let rem' ← c.sub (← q'.mul d)
    pure (if rem'.norm < rem.norm then (q', rem') else (q, rem))

/-- Euclid's algorithm with this division, on copies of the operands. -/
def gcrd (c d : Coordinates) : Except Error Coordinates := do
  let c ← c.checked
  let d ← d.checked
  Euclid.checkedRun divMod isZero (d.norm.toNat.log2 + 2) c d

/-! ## The coordinates of Hurwitz integers -/

/-- The coordinates of a Hurwitz integer. -/
def ofHurwitz (a : Hurwitz) : Coordinates := ⟨a.r, a.i, a.j, a.k⟩

omit [DigitLimit] in
lemma ofHurwitz_injective : Function.Injective ofHurwitz := by
  intro a b h
  rw [Coordinates.ext_iff] at h
  exact Hurwitz.ext h.1 h.2.1 h.2.2.1 h.2.2.2

/-- The check of four parities is that of a Hurwitz integer made of them. -/
lemma checked_eq (r i j k : ℤ) :
    checked ⟨r, i, j, k⟩ = (Hurwitz.ofDoubled r i j k).map ofHurwitz := by
  rw [Hurwitz.ofDoubled]
  split_ifs with hparity
  · exact if_pos hparity
  · exact if_neg hparity

omit [DigitLimit] in
/-- Coordinates of one parity are those of a Hurwitz integer. -/
lemma exists_ofHurwitz {c : Coordinates} (hc : c.OneParity) : ∃ a, ofHurwitz a = c :=
  ⟨⟨c.r, c.i, c.j, c.k, hc⟩, rfl⟩

omit [DigitLimit] in
lemma oneParity_ofHurwitz (a : Hurwitz) : (ofHurwitz a).OneParity := a.parity

section Agreement

variable (a b : Hurwitz)

lemma checked_ofHurwitz : (ofHurwitz a).checked = .ok (ofHurwitz a) := if_pos a.parity

lemma neg_ofHurwitz : (ofHurwitz a).neg = .ok (ofHurwitz (-a)) := checked_ofHurwitz (-a)

lemma conj_ofHurwitz : (ofHurwitz a).conj = .ok (ofHurwitz a.conj) := checked_ofHurwitz a.conj

lemma add_ofHurwitz : (ofHurwitz a).add (ofHurwitz b) = .ok (ofHurwitz (a + b)) :=
  checked_ofHurwitz (a + b)

lemma sub_ofHurwitz : (ofHurwitz a).sub (ofHurwitz b) = .ok (ofHurwitz (a - b)) :=
  checked_ofHurwitz (a - b)

lemma mul_ofHurwitz : (ofHurwitz a).mul (ofHurwitz b) = .ok (ofHurwitz (a * b)) :=
  checked_ofHurwitz (a * b)

/-- **Division** of coordinates is refused when that of the quaternions is, and otherwise none of
its checks fails. -/
lemma divMod_ofHurwitz : (ofHurwitz a).divMod (ofHurwitz b)
    = (a.divModChecked b).map (Prod.map ofHurwitz ofHurwitz) := by
  have hnorm (c : Hurwitz) : (ofHurwitz c).norm = c.norm := rfl
  rw [divMod, Hurwitz.divModChecked, hnorm]
  split_ifs with hb
  · rfl
  · -- the two candidates for the quotient are those of the division of quaternions
    have hq : checked ⟨2 * roundDiv (ofHurwitz (a * b.conj)).r (2 * b.norm),
        2 * roundDiv (ofHurwitz (a * b.conj)).i (2 * b.norm),
        2 * roundDiv (ofHurwitz (a * b.conj)).j (2 * b.norm),
        2 * roundDiv (ofHurwitz (a * b.conj)).k (2 * b.norm)⟩
          = .ok (ofHurwitz (a.integralQuotient b)) := checked_ofHurwitz (a.integralQuotient b)
    have hq' : checked ⟨2 * ((ofHurwitz (a * b.conj)).r / (2 * b.norm)) + 1,
        2 * ((ofHurwitz (a * b.conj)).i / (2 * b.norm)) + 1,
        2 * ((ofHurwitz (a * b.conj)).j / (2 * b.norm)) + 1,
        2 * ((ofHurwitz (a * b.conj)).k / (2 * b.norm)) + 1⟩
          = .ok (ofHurwitz (a.halfQuotient b)) := checked_ofHurwitz (a.halfQuotient b)
    rw [conj_ofHurwitz, ok_bind, mul_ofHurwitz, ok_bind, hq, ok_bind, hq', ok_bind, mul_ofHurwitz,
      ok_bind, sub_ofHurwitz, ok_bind, mul_ofHurwitz, ok_bind, sub_ofHurwitz, ok_bind, hnorm, hnorm,
      Hurwitz.divMod_eq]
    split_ifs
    · rfl
    · rfl

omit [DigitLimit] in
lemma isZero_ofHurwitz : (ofHurwitz b).isZero = b.isZero := rfl

/-- **Euclid's algorithm** on coordinates never fails. -/
lemma gcrd_ofHurwitz : (ofHurwitz a).gcrd (ofHurwitz b) = .ok (ofHurwitz (a.gcrd b)) := by
  have hrun (n : ℕ) : ∀ a b : Hurwitz, Euclid.checkedRun divMod isZero n (ofHurwitz a) (ofHurwitz b)
      = .ok (ofHurwitz (Hurwitz.gcrdSteps n a b)) := by
    induction n with
    | zero => exact fun a b => rfl
    | succ n ih =>
        intro a b
        rw [Euclid.checkedRun, Hurwitz.gcrdSteps, isZero_ofHurwitz]
        cases hb : b.isZero with
        | true => rfl
        | false =>
            rw [divMod_ofHurwitz, Hurwitz.divModChecked_ok a (Hurwitz.isZero_eq_false.mp hb)]
            exact ih b (a.divMod b).2
  rw [gcrd, checked_ofHurwitz, ok_bind, checked_ofHurwitz, ok_bind]
  exact hrun _ a b

end Agreement

/-! ## Laws -/

/-- The quaternion with these doubled coordinates. -/
def toQuaternion (c : Coordinates) : Quaternion ℚ := ⟨c.r / 2, c.i / 2, c.j / 2, c.k / 2⟩

/-- What the arithmetic makes of coordinates. -/
structure Lawful (c d e : Coordinates) : Prop where
  neg_eq : c.neg = .ok ⟨-c.r, -c.i, -c.j, -c.k⟩
  conj_eq : c.conj = .ok ⟨c.r, -c.i, -c.j, -c.k⟩
  add_eq : c.add d = .ok ⟨c.r + d.r, c.i + d.i, c.j + d.j, c.k + d.k⟩
  sub_eq : c.sub d = .ok ⟨c.r - d.r, c.i - d.i, c.j - d.j, c.k - d.k⟩
  /-- The halves of a product are exact, it is the product of quaternions, and norms multiply. -/
  mul_eq : ∃ p, c.mul d = .ok p ∧
    2 * p.r = c.r * d.r - c.i * d.i - c.j * d.j - c.k * d.k ∧
    2 * p.i = c.r * d.i + c.i * d.r + c.j * d.k - c.k * d.j ∧
    2 * p.j = c.r * d.j - c.i * d.k + c.j * d.r + c.k * d.i ∧
    2 * p.k = c.r * d.k + c.i * d.j - c.j * d.i + c.k * d.r ∧
    p.toQuaternion = c.toQuaternion * d.toQuaternion ∧ p.norm = c.norm * d.norm
  /-- So is the quarter of a norm. -/
  norm_eq : 4 * c.norm = c.r * c.r + c.i * c.i + c.j * c.j + c.k * c.k
  mul_assoc : (c.mul d >>= fun cd => cd.mul e) = (d.mul e >>= fun de => c.mul de)
  conj_mul : (c.mul d >>= conj) = (d.conj >>= fun d' => c.conj >>= fun c' => d'.mul c')

/-- **The laws of quaternions hold for coordinates of one parity.** -/
theorem lawful {c d e : Coordinates} (hc : c.OneParity) (hd : d.OneParity) (he : e.OneParity) :
    Lawful c d e := by
  obtain ⟨a, rfl⟩ := exists_ofHurwitz hc
  obtain ⟨b, rfl⟩ := exists_ofHurwitz hd
  obtain ⟨z, rfl⟩ := exists_ofHurwitz he
  obtain ⟨hr, hi, hj, hk⟩ := Hurwitz.two_mul_mul a b
  exact {
    neg_eq := neg_ofHurwitz a
    conj_eq := conj_ofHurwitz a
    add_eq := add_ofHurwitz a b
    sub_eq := sub_ofHurwitz a b
    mul_eq := ⟨ofHurwitz (a * b), mul_ofHurwitz a b, hr, hi, hj, hk, Hurwitz.toQuaternion_mul a b,
      Hurwitz.norm_mul a b⟩
    norm_eq := Hurwitz.four_mul_norm a
    mul_assoc := by
      rw [mul_ofHurwitz, mul_ofHurwitz, ok_bind, ok_bind, mul_ofHurwitz, mul_ofHurwitz, mul_assoc]
    conj_mul := by
      rw [mul_ofHurwitz, conj_ofHurwitz, conj_ofHurwitz, ok_bind, ok_bind, ok_bind, conj_ofHurwitz,
        mul_ofHurwitz]
      exact congrArg (fun p => Except.ok (ofHurwitz p)) (star_mul a b) }

end Coordinates

/-! ## Stores -/

namespace QuaternionStore

/-- What makes a new quaternion of one that is there. -/
inductive Unary where
  | copy
  | neg
  | conj

/-- What makes a new quaternion of two that are there. -/
inductive Binary where
  | add
  | sub
  | mul
  | div
  | mod
  | gcrd

/-- An operation on quaternions that are named by their places in a store. -/
inductive Operation where
  /-- A new quaternion, by its coordinates or by its doubled coordinates. -/
  | make (doubled : Bool) (r i j k : ℤ)
  /-- Other coordinates for a quaternion. -/
  | update (x : ℕ) (doubled : Bool) (r i j k : ℤ)
  /-- A new quaternion made of one. -/
  | unary (f : Unary) (x : ℕ)
  /-- A new quaternion made of two. -/
  | binary (f : Binary) (x y : ℕ)

/-- Zero for a quaternion: its coordinates are overwritten like any others. -/
def Operation.reset (x : ℕ) : Operation := .update x true 0 0 0 0

/-- A way to keep quaternions and to calculate with them. -/
structure Arithmetic (α : Type) where
  /-- A quaternion from its coordinates, or from its doubled ones. -/
  make : (doubled : Bool) → (r i j k : ℤ) → Except Error α
  /-- A quaternion made of one. -/
  unary : Unary → α → Except Error α
  /-- A quaternion made of two. -/
  binary : Binary → α → α → Except Error α

section Kept

variable [DigitLimit]

/-- Hurwitz integers. -/
def hurwitz : Arithmetic Hurwitz where
  make doubled r i j k :=
    if doubled then Hurwitz.ofDoubled r i j k else .ok (Hurwitz.ofInts r i j k)
  unary
    | .copy, a => .ok a
    | .neg, a => .ok (-a)
    | .conj, a => .ok a.conj
  binary
    | .add, a, b => .ok (a + b)
    | .sub, a, b => .ok (a - b)
    | .mul, a, b => .ok (a * b)
    | .div, a, b => (a.divModChecked b).map (·.1)
    | .mod, a, b => (a.divModChecked b).map (·.2)
    | .gcrd, a, b => .ok (a.gcrd b)

/-- Bare coordinates. -/
def bare : Arithmetic Coordinates where
  make doubled r i j k :=
    if doubled then Coordinates.checked ⟨r, i, j, k⟩
    else Coordinates.checked ⟨2 * r, 2 * i, 2 * j, 2 * k⟩
  unary
    | .copy, c => c.checked
    | .neg, c => c.neg
    | .conj, c => c.conj
  binary
    | .add, c, d => c.add d
    | .sub, c, d => c.sub d
    | .mul, c, d => c.mul d
    | .div, c, d => (c.divMod d).map (·.1)
    | .mod, c, d => (c.divMod d).map (·.2)
    | .gcrd, c, d => c.gcrd d

section Stores

variable {α β : Type} (A : Arithmetic α)

/-- The quaternion at a place; a place without one is refused. -/
def lookup (s : List α) (x : ℕ) : Except Error α :=
  match s[x]? with
  | some a => .ok a
  | none => .error (.fault .position)

/-- What was worked out for a store, or the failure of it, with the store as it is. -/
def given (r : Except Error α) : EStateM Error (List β) α := fun s =>
  match r with
  | .ok a => .ok a s
  | .error e => .error e s

/-- The quaternion at a place of the store that is worked on. -/
def item (x : ℕ) : EStateM Error (List α) α := do given (lookup (← get) x)

/-- One operation. -/
def exec : Operation → EStateM Error (List α) Unit
  | .make doubled r i j k => do
    let a ← given (A.make doubled r i j k)
    modify (· ++ [a])
  | .update x doubled r i j k => do
    let _ ← item x
    let a ← given (A.make doubled r i j k)
    modify (·.set x a)
  | .unary f x => do
    let a ← given (A.unary f (← item x))
    modify (· ++ [a])
  | .binary f x y => do
    let a ← item x
    let b ← item y
    let c ← given (A.binary f a b)
    modify (· ++ [c])

/-- The store after some operations.  One that fails does not keep the others from being done. -/
def after (ops : List Operation) : List α :=
  ops.foldl (fun s op => endState (exec A op s)) []

/-- The quaternion that an operation writes down. -/
def outcome (s : List α) : Operation → Except Error α
  | .make doubled r i j k => A.make doubled r i j k
  | .update x doubled r i j k => do
    let _ ← lookup s x
    A.make doubled r i j k
  | .unary f x => do A.unary f (← lookup s x)
  | .binary f x y => do A.binary f (← lookup s x) (← lookup s y)

/-- Where it writes it: over the quaternion that changes, or behind all others. -/
def write (s : List α) (a : α) : Operation → List α
  | .update x .. => s.set x a
  | _ => s ++ [a]

omit [DigitLimit] in
/-- What was worked out goes on, and a failure ends the operation where it is. -/
lemma given_bind (r : Except Error β) (f : β → EStateM Error (List α) Unit) (s : List α) :
    (given r >>= f) s = match r with
      | .ok b => f b s
      | .error e => .error e s := by
  cases r with
  | ok b => rfl
  | error e => rfl

omit [DigitLimit] in
lemma item_bind (x : ℕ) (f : α → EStateM Error (List α) Unit) (s : List α) :
    (item x >>= f) s = match lookup s x with
      | .ok a => f a s
      | .error e => .error e s := given_bind (lookup s x) f s

omit [DigitLimit] in
/-- **All checks come before the one write**: an operation writes its quaternion down, or leaves the
store as it was. -/
theorem exec_eq (s : List α) (op : Operation) :
    exec A op s = match outcome A s op with
      | .ok a => .ok () (write s a op)
      | .error e => .error e s := by
  cases op with
  | make doubled r i j k => exact given_bind _ _ s
  | update x doubled r i j k =>
      rw [exec, item_bind, outcome]
      cases lookup s x with
      | ok _ => exact given_bind _ _ s
      | error e => rfl
  | unary f x =>
      rw [exec, item_bind, outcome]
      cases lookup s x with
      | ok a => exact given_bind _ _ s
      | error e => rfl
  | binary f x y =>
      rw [exec, item_bind, outcome]
      cases lookup s x with
      | error e => rfl
      | ok a =>
          dsimp only [ok_bind]
          rw [item_bind]
          cases lookup s y with
          | ok b => exact given_bind _ _ s
          | error e => rfl

omit [DigitLimit] in
lemma exec_of_ok {s : List α} {op : Operation} {a : α} (h : outcome A s op = .ok a) :
    exec A op s = .ok () (write s a op) := by
  rw [exec_eq, h]

end Stores

/-! ## Two arithmetics -/

section Agreement

variable {α β : Type} {A : Arithmetic α} {B : Arithmetic β} {f : α → β}

/-- The second arithmetic does with images what the first does, failures included. -/
structure Agree (A : Arithmetic α) (B : Arithmetic β) (f : α → β) : Prop where
  make : ∀ doubled r i j k, B.make doubled r i j k = (A.make doubled r i j k).map f
  unary : ∀ g a, B.unary g (f a) = (A.unary g a).map f
  binary : ∀ g a b, B.binary g (f a) (f b) = (A.binary g a b).map f

omit [DigitLimit] in
lemma lookup_map (s : List α) (x : ℕ) : lookup (s.map f) x = (lookup s x).map f := by
  rw [lookup, lookup, List.getElem?_map]
  cases s[x]? with
  | some a => rfl
  | none => rfl

omit [DigitLimit] in
lemma outcome_map (h : Agree A B f) (s : List α) (op : Operation) :
    outcome B (s.map f) op = (outcome A s op).map f := by
  cases op with
  | make doubled r i j k => exact h.make doubled r i j k
  | update x doubled r i j k =>
      rw [outcome, outcome, lookup_map]
      cases lookup s x with
      | ok _ => exact h.make doubled r i j k
      | error e => rfl
  | unary g x =>
      rw [outcome, outcome, lookup_map]
      cases lookup s x with
      | ok a => exact h.unary g a
      | error e => rfl
  | binary g x y =>
      rw [outcome, outcome, lookup_map, lookup_map]
      cases lookup s x with
      | error e => rfl
      | ok a =>
          cases lookup s y with
          | ok b => exact h.binary g a b
          | error e => rfl

omit [DigitLimit] in
lemma write_map (s : List α) (a : α) (op : Operation) :
    write (s.map f) (f a) op = (write s a op).map f := by
  have hbehind : s.map f ++ [f a] = (s ++ [a]).map f := by rw [List.map_append, List.map_singleton]
  cases op with
  | update x => exact List.map_set.symm
  | make => exact hbehind
  | unary => exact hbehind
  | binary => exact hbehind

omit [DigitLimit] in
/-- One operation leaves corresponding stores. -/
lemma endState_exec_map (h : Agree A B f) (s : List α) (op : Operation) :
    endState (exec B op (s.map f)) = (endState (exec A op s)).map f := by
  rw [exec_eq, exec_eq, outcome_map h]
  cases outcome A s op with
  | ok a => exact write_map s a op
  | error e => rfl

omit [DigitLimit] in
/-- **Arithmetics that agree make for the same stores.** -/
theorem after_map (h : Agree A B f) (ops : List Operation) :
    after B ops = (after A ops).map f := by
  rw [after, after]
  induction ops using List.reverseRecOn with
  | nil => rfl
  | append_singleton ops op ih =>
      rw [List.foldl_append, List.foldl_append, ih]
      exact endState_exec_map h _ op

end Agreement

/-- **Bare coordinates are calculated with as Hurwitz integers are.** -/
theorem hurwitz_agree_bare : Agree hurwitz bare Coordinates.ofHurwitz where
  make doubled r i j k := by
    cases doubled with
    | false => exact Coordinates.checked_ofHurwitz (Hurwitz.ofInts r i j k)
    | true => exact Coordinates.checked_eq r i j k
  unary g a := by
    cases g with
    | copy => exact Coordinates.checked_ofHurwitz a
    | neg => exact Coordinates.neg_ofHurwitz a
    | conj => exact Coordinates.conj_ofHurwitz a
  binary g a b := by
    cases g with
    | add => exact Coordinates.add_ofHurwitz a b
    | sub => exact Coordinates.sub_ofHurwitz a b
    | mul => exact Coordinates.mul_ofHurwitz a b
    | div =>
        simp only [bare, hurwitz, Coordinates.divMod_ofHurwitz]
        cases a.divModChecked b with
        | ok qr => rfl
        | error e => rfl
    | mod =>
        simp only [bare, hurwitz, Coordinates.divMod_ofHurwitz]
        cases a.divModChecked b with
        | ok qr => rfl
        | error e => rfl
    | gcrd => exact Coordinates.gcrd_ofHurwitz a b

/-! ## Refusals -/

/-- The places that an operation looks up. -/
def Operation.operands : Operation → List ℕ
  | .make .. => []
  | .update x .. => [x]
  | .unary _ x => [x]
  | .binary _ x y => [x, y]

/-- What a store refuses to do, and with which error. -/
inductive Refused (s : List Coordinates) : Operation → Error → Prop
  /-- There is no quaternion at the place of an operand. -/
  | missing {op x} (hx : x ∈ op.operands) (hnone : s.length ≤ x) : Refused s op (.fault .position)
  /-- The doubled coordinates of a new quaternion have mixed parities. -/
  | make {r i j k} (hmixed : ¬Coordinates.OneParity ⟨r, i, j, k⟩) :
      Refused s (.make true r i j k) (refuse (.mixedParity r i j k))
  /-- So have those that a quaternion should get. -/
  | update {x r i j k} (hx : x < s.length) (hmixed : ¬Coordinates.OneParity ⟨r, i, j, k⟩) :
      Refused s (.update x true r i j k) (refuse (.mixedParity r i j k))
  /-- The divisor is zero. -/
  | division {f x y} (hf : f = .div ∨ f = .mod) (hx : x < s.length) (hy : s[y]? = some 0) :
      Refused s (.binary f x y) (refuse .hurwitzDivision)

section Refusals

variable {s : List Coordinates} {c d : Coordinates} {e : Error} {x : ℕ} {op : Operation}

omit [DigitLimit] in
lemma lookup_eq_ok : lookup s x = .ok c ↔ s[x]? = some c := by
  rw [lookup]
  cases s[x]? with
  | some _ => simp
  | none => simp

omit [DigitLimit] in
lemma lookup_eq_error : lookup s x = .error e ↔ s.length ≤ x ∧ e = .fault .position := by
  rw [lookup, ← List.getElem?_eq_none_iff]
  cases s[x]? with
  | some _ => simp
  | none => simp [eq_comm]

omit [DigitLimit] in
/-- A quaternion that is there has a place below the length. -/
lemma lt_length_of_lookup (h : lookup s x = .ok c) : x < s.length :=
  (List.getElem?_eq_some_iff.mp (lookup_eq_ok.mp h)).1

omit [DigitLimit] in
lemma exists_lookup (hx : x < s.length) : ∃ c, lookup s x = .ok c :=
  ⟨s[x], lookup_eq_ok.mpr (List.getElem?_eq_getElem hx)⟩

lemma outcome_of_missing (hx : x ∈ op.operands) (hnone : s.length ≤ x) :
    outcome bare s op = .error (.fault .position) := by
  have hlookup : lookup s x = .error (.fault .position) := lookup_eq_error.mpr ⟨hnone, rfl⟩
  cases op with
  | make => exact absurd hx List.not_mem_nil
  | update y =>
      obtain rfl := List.mem_singleton.mp hx
      exact bind_eq_error.mpr (.inl hlookup)
  | unary f y =>
      obtain rfl := List.mem_singleton.mp hx
      exact bind_eq_error.mpr (.inl hlookup)
  | binary f y z =>
      rcases List.mem_pair.mp hx with rfl | rfl
      · exact bind_eq_error.mpr (.inl hlookup)
      · -- the first operand may be missing too, with the same error
        rw [outcome, bind_eq_error]
        cases hy : lookup s y with
        | error e => exact .inl (congrArg _ (lookup_eq_error.mp hy).2)
        | ok c => exact .inr ⟨c, rfl, bind_eq_error.mpr (.inl hlookup)⟩

lemma make_eq_error_iff {doubled : Bool} {r i j k : ℤ} :
    bare.make doubled r i j k = .error e ↔ doubled = true ∧ ¬Coordinates.OneParity ⟨r, i, j, k⟩ ∧
      e = refuse (.mixedParity r i j k) := by
  cases doubled with
  | false =>
      rw [hurwitz_agree_bare.make]
      simp [hurwitz, Except.map]
  | true =>
      simp only [bare, if_true, Coordinates.checked]
      split_ifs with hparity
      · simp [hparity]
      · simp [hparity, eq_comm]

lemma unary_ne_error {f : Unary} (hc : c.OneParity) : bare.unary f c ≠ .error e := by
  obtain ⟨a, rfl⟩ := Coordinates.exists_ofHurwitz hc
  rw [hurwitz_agree_bare.unary]
  cases f with
  | copy => nofun
  | neg => nofun
  | conj => nofun

lemma binary_eq_error_iff {f : Binary} (hc : c.OneParity) (hd : d.OneParity) :
    bare.binary f c d = .error e ↔
      (f = .div ∨ f = .mod) ∧ d = 0 ∧ e = refuse .hurwitzDivision := by
  obtain ⟨a, rfl⟩ := Coordinates.exists_ofHurwitz hc
  obtain ⟨b, rfl⟩ := Coordinates.exists_ofHurwitz hd
  have hzero : Coordinates.ofHurwitz b = 0 ↔ b.norm = 0 :=
    Coordinates.ofHurwitz_injective.eq_iff' rfl |>.trans Hurwitz.norm_eq_zero.symm
  rw [hurwitz_agree_bare.binary, hzero]
  cases f with
  | add => simp [hurwitz, Except.map]
  | sub => simp [hurwitz, Except.map]
  | mul => simp [hurwitz, Except.map]
  | gcrd => simp [hurwitz, Except.map]
  | div =>
      simp only [hurwitz, Hurwitz.divModChecked]
      split_ifs with hb
      · simp [Except.map, hb, eq_comm]
      · simp [Except.map, hb]
  | mod =>
      simp only [hurwitz, Hurwitz.divModChecked]
      split_ifs with hb
      · simp [Except.map, hb, eq_comm]
      · simp [Except.map, hb]

/-- **Mixed parities, a divisor zero and missing operands are all that is refused.** -/
theorem outcome_eq_error_iff (hs : ∀ c ∈ s, c.OneParity) :
    outcome bare s op = .error e ↔ Refused s op e := by
  have hparity {x : ℕ} {c : Coordinates} (h : lookup s x = .ok c) : c.OneParity :=
    hs c (List.mem_of_getElem? (lookup_eq_ok.mp h))
  constructor
  · intro h
    cases op with
    | make doubled r i j k =>
        obtain ⟨rfl, hmixed, rfl⟩ := make_eq_error_iff.mp h
        exact .make hmixed
    | update x doubled r i j k =>
        rcases bind_eq_error.mp h with hx | ⟨c, hx, h⟩
        · obtain ⟨hnone, rfl⟩ := lookup_eq_error.mp hx
          exact .missing List.mem_cons_self hnone
        · obtain ⟨rfl, hmixed, rfl⟩ := make_eq_error_iff.mp h
          exact .update (lt_length_of_lookup hx) hmixed
    | unary f x =>
        rcases bind_eq_error.mp h with hx | ⟨c, hx, h⟩
        · obtain ⟨hnone, rfl⟩ := lookup_eq_error.mp hx
          exact .missing List.mem_cons_self hnone
        · exact absurd h (unary_ne_error (hparity hx))
    | binary f x y =>
        rcases bind_eq_error.mp h with hx | ⟨c, hx, h⟩
        · obtain ⟨hnone, rfl⟩ := lookup_eq_error.mp hx
          exact .missing List.mem_cons_self hnone
        · rcases bind_eq_error.mp h with hy | ⟨d, hy, h⟩
          · obtain ⟨hnone, rfl⟩ := lookup_eq_error.mp hy
            exact .missing (List.mem_cons_of_mem x List.mem_cons_self) hnone
          · obtain ⟨hf, rfl, rfl⟩ := (binary_eq_error_iff (hparity hx) (hparity hy)).mp h
            exact .division hf (lt_length_of_lookup hx) (lookup_eq_ok.mp hy)
  · rintro (⟨hx, hnone⟩ | hmixed | ⟨hx, hmixed⟩ | ⟨hf, hx, hy⟩)
    · exact outcome_of_missing hx hnone
    · exact make_eq_error_iff.mpr ⟨rfl, hmixed, rfl⟩
    · obtain ⟨c, hc⟩ := exists_lookup hx
      exact bind_eq_error.mpr (.inr ⟨c, hc, make_eq_error_iff.mpr ⟨rfl, hmixed, rfl⟩⟩)
    · obtain ⟨c, hc⟩ := exists_lookup hx
      have hd := lookup_eq_ok.mpr hy
      exact bind_eq_error.mpr (.inr ⟨c, hc, bind_eq_error.mpr (.inr ⟨0, hd,
        (binary_eq_error_iff (hparity hc) (hparity hd)).mpr ⟨hf, rfl, rfl⟩⟩)⟩)

end Refusals

/-! ## Any operations -/

/-- What is true of a store at any time. -/
structure WellKept (s : List Coordinates) : Prop where
  /-- The doubled coordinates of every quaternion have one parity. -/
  parity : ∀ c ∈ s, c.OneParity
  /-- An operation fails when it is refused, and then the store is as it was. -/
  failing : ∀ op e s', exec bare op s = .error e s' ↔ Refused s op e ∧ s' = s
  /-- Copies, negatives and conjugates of what is there are always made, -/
  unary : ∀ f x c, s[x]? = some c →
    ∃ c', bare.unary f c = .ok c' ∧ exec bare (.unary f x) s = .ok () (s ++ [c'])
  /-- and so are sums, differences, products and common divisors. -/
  binary : ∀ f x y c d, f ≠ .div → f ≠ .mod → s[x]? = some c → s[y]? = some d →
    ∃ c', bare.binary f c d = .ok c' ∧ exec bare (.binary f x y) s = .ok () (s ++ [c'])

/-- Parities are all that it takes. -/
lemma wellKept_of_parity {s : List Coordinates} (hs : ∀ c ∈ s, c.OneParity) : WellKept s where
  parity := hs
  failing op e s' := by
    rw [← outcome_eq_error_iff hs, exec_eq]
    cases outcome bare s op with
    | ok c => simp
    | error e' => simp [eq_comm]
  unary f x c hx := by
    cases h : bare.unary f c with
    | ok c' => exact ⟨c', rfl, exec_of_ok bare (bind_eq_ok.mpr ⟨c, lookup_eq_ok.mpr hx, h⟩)⟩
    | error e => exact absurd h (unary_ne_error (hs c (List.mem_of_getElem? hx)))
  binary f x y c d hdiv hmod hx hy := by
    cases h : bare.binary f c d with
    | ok c' =>
        exact ⟨c', rfl, exec_of_ok bare (bind_eq_ok.mpr ⟨c, lookup_eq_ok.mpr hx,
          bind_eq_ok.mpr ⟨d, lookup_eq_ok.mpr hy, h⟩⟩)⟩
    | error e =>
        obtain ⟨hf, -⟩ := (binary_eq_error_iff (hs c (List.mem_of_getElem? hx))
          (hs d (List.mem_of_getElem? hy))).mp h
        exact absurd hf (not_or.mpr ⟨hdiv, hmod⟩)

/-- **Quaternions kept as bare coordinates are Hurwitz integers.**  After any operations, refused
ones among them, the store holds what it would hold if every quaternion came with a proof of its
parities: so it is well kept, and its arithmetic obeys the laws of quaternions. -/
theorem wellKept_after (ops : List Operation) :
    after bare ops = (after hurwitz ops).map Coordinates.ofHurwitz ∧ WellKept (after bare ops) ∧
      ∀ c d e : Coordinates, c.OneParity → d.OneParity → e.OneParity → c.Lawful d e := by
  have hafter := after_map hurwitz_agree_bare ops
  refine ⟨hafter, wellKept_of_parity fun c hc => ?_, fun c d e => Coordinates.lawful⟩
  rw [hafter] at hc
  obtain ⟨a, -, rfl⟩ := List.mem_map.mp hc
  exact Coordinates.oneParity_ofHurwitz a

end Kept

/-- Two quaternions and their product; in between, mixed parities are offered for a third one and
for the first, and in the end the product is divided by the second, which is zero by then. -/
def partlyRefused : List Operation :=
  [.make true 1 1 1 1, .make false 1 2 0 (-1), .make true 1 0 0 0, .binary .mul 0 1,
    .update 0 true 1 2 3 4, .reset 1, .binary .div 2 1]

open Unlimited in
/-- The three quaternions are what is left of it; a division is refused once more, and a product is
not. -/
theorem wellKept_after_partlyRefused :
    after bare partlyRefused = [⟨1, 1, 1, 1⟩, 0, ⟨0, 2, 4, -2⟩] ∧
    exec bare (.binary .div 2 1) (after bare partlyRefused)
      = .error (.precondition .hurwitzDivision) (after bare partlyRefused) ∧
    (∃ p, bare.binary .mul ⟨1, 1, 1, 1⟩ ⟨0, 2, 4, -2⟩ = .ok p ∧
      exec bare (.binary .mul 0 2) (after bare partlyRefused)
        = .ok () (after bare partlyRefused ++ [p])) ∧
    Coordinates.Lawful ⟨1, 1, 1, 1⟩ ⟨2, 4, 0, -2⟩ ⟨0, 2, 4, -2⟩ := by
  have hafter : after bare partlyRefused = [⟨1, 1, 1, 1⟩, 0, ⟨0, 2, 4, -2⟩] := by decide
  obtain ⟨-, hkept, hlawful⟩ := wellKept_after partlyRefused
  have hthree (x : ℕ) : (after bare partlyRefused)[x]?
      = [(⟨1, 1, 1, 1⟩ : Coordinates), 0, ⟨0, 2, 4, -2⟩][x]? := by rw [hafter]
  refine ⟨hafter, (hkept.failing _ _ _).mpr ⟨.division (.inl rfl) ?_ (hthree 1), rfl⟩,
    hkept.binary .mul 0 2 _ _ nofun nofun (hthree 0) (hthree 2),
    hlawful _ _ _ (by decide) (by decide) (by decide)⟩
  rw [hafter]
  decide

end QuaternionStore

end HiddenOrder
