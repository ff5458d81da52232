import HiddenOrder.Proofs.Json
import HiddenOrder.Proofs.Outcome
import HiddenOrder.Proofs.Text
import HiddenOrder.Record.Decode
import HiddenOrder.Record.Encode
import Mathlib.Tactic.SplitIfs

/-!
# Fields that are written are read back

A value is written by its kind and read by the shape of what was written, so nothing but the shapes
keeps the kinds apart: texts are integers, arrays are tuples, and of the objects those with the key
`b64` are bytes and those with a tag are records.  No name of a field is one of these two keys, and
no tag is another one.  So a value that holds nothing foreign is read back, whether the keys of its
objects are sorted or not; only roots inside a record come back as the plain tuples that they were
written as.  The one thing that can go wrong is an integer that is too long to be written.

* `Value.asRecord` — the tag of a record and its fields, for all kinds of records at once.
* `Value.Native` — the values that are made of integers, bytes, tuples, roots and records.
* `Value.numbers`, `Value.Short` — the integers in a value, and values whose integers can be written.
* `Value.reread` — the value that is read back where a value was written in a field.
* `Value.Reads`, `Value.ReadsRecord` — what is read where a JSON value stands.
* **`Value.Holds.deserialize`** — an object that holds a record is read as that record.
* `WritesWhen` — something is written under a condition, and otherwise there is the fault.
* **`Value.writes_record`** — a record is written and read back when its fields are.
* **`Value.Native.writes`** — a value is written in a field and read back when its integers can be
  written.
-/

namespace HiddenOrder

/-! ## Writing under a limit -/

/-- Something of a kind is written when `short` holds, and otherwise the fault tells that a numeral
would be too long. -/
structure WritesWhen {α : Type} (short : Prop) (r : Except Error α) (P : α → Prop) : Prop where
  written : short → ∃ a, r = .ok a ∧ P a
  tooLong : ¬short → r = .error (.fault .longNumeral)

namespace WritesWhen

variable {α β : Type} {p q : Prop} {r : Except Error α} {P Q : α → Prop} {R : β → Prop}

lemma ok {a : α} (h : P a) : WritesWhen True (.ok a) P where
  written _ := ⟨a, rfl, h⟩
  tooLong h := absurd trivial h

lemma bind {f : α → Except Error β} (h : WritesWhen p r P)
    (hf : ∀ a, P a → WritesWhen q (f a) R) : WritesWhen (p ∧ q) (r >>= f) R where
  written hpq := by
    obtain ⟨a, rfl, ha⟩ := h.written hpq.1
    exact (hf a ha).written hpq.2
  tooLong hpq := by
    by_cases hp : p
    · obtain ⟨a, rfl, ha⟩ := h.written hp
      exact (hf a ha).tooLong fun hq => hpq ⟨hp, hq⟩
    · rw [h.tooLong hp, error_bind]

lemma congr (h : WritesWhen p r P) (hpq : p ↔ q) : WritesWhen q r P where
  written hq := h.written (hpq.mpr hq)
  tooLong hq := h.tooLong (mt hpq.mp hq)

lemma mono (h : WritesWhen p r P) (hPQ : ∀ a, P a → Q a) : WritesWhen p r Q where
  written hp := (h.written hp).imp fun a ha => ⟨ha.1, hPQ a ha.2⟩
  tooLong := h.tooLong

end WritesWhen

namespace Value

/-! ## Kinds of values -/

/-- The tag of a record and its fields in order; none for what is not tagged with named fields. -/
def asRecord : Value → Option (String × List (String × Value))
  | .group pp => some ("GroupSetup", [("N", .int pp.N), ("G", .int pp.G), ("H", .int pp.H)])
  | .poe Q => some ("PoEProof", [("Q", Q)])
  | .pokeStar Q r => some ("PoKEStarProof", [("Q", Q), ("r", r)])
  | .zkpoke z Ag Au Qg Qu rx rrho =>
    some ("ZKPoKEProof",
      [("z", z), ("Ag", Ag), ("Au", Au), ("Qg", Qg), ("Qu", Qu), ("rx", rx), ("rrho", rrho)])
  | .nonNegative commitments delta z t tt =>
    some ("NonNegativeProof",
      [("commitments", commitments), ("delta", delta), ("z", z), ("t", t), ("tt", tt)])
  | .interval lower upper => some ("IntervalProof", [("lower", lower), ("upper", upper)])
  | _ => none

/-- A value with nothing foreign in it. -/
inductive Native : Value → Prop where
  | int (n : Int) : Native (.int n)
  | bytes (b : Bytes) : Native (.bytes b)
  | tuple {items : List Value} : (∀ v ∈ items, Native v) → Native (.tuple items)
  | four (w : FourInt) : Native (.four w)
  | three (w : ThreeInt) : Native (.three w)
  | record {v : Value} {tag : String} {fields : List (String × Value)} :
      v.asRecord = some (tag, fields) → (∀ f ∈ fields, Native f.2) → Native v

mutual

/-- What a value that is written in a field is read back as: roots are tuples there. -/
def reread : Value → Value
  | .int n => .int n
  | .bytes b => .bytes b
  | .tuple items => .tuple (rereadAll items)
  | .four w => ints w.toList
  | .three w => ints w.toList
  | .group pp => .group pp
  | .poe Q => .poe Q.reread
  | .pokeStar Q r => .pokeStar Q.reread r.reread
  | .zkpoke z Ag Au Qg Qu rx rrho =>
    .zkpoke z.reread Ag.reread Au.reread Qg.reread Qu.reread rx.reread rrho.reread
  | .nonNegative commitments delta z t tt =>
    .nonNegative commitments.reread delta.reread z.reread t.reread tt.reread
  | .interval lower upper => .interval lower.reread upper.reread
  | .foreign value => .foreign value

/-- What several values are read back as. -/
def rereadAll : List Value → List Value
  | [] => []
  | v :: vs => v.reread :: rereadAll vs

end

mutual

/-- The integers in a value; what is foreign is left out. -/
def numbers : Value → List Int
  | .int n => [n]
  | .bytes _ => []
  | .tuple items => numbersAll items
  | .four w => w.toList
  | .three w => w.toList
  | .group pp => [pp.N, pp.G, pp.H]
  | .poe Q => Q.numbers
  | .pokeStar Q r => Q.numbers ++ r.numbers
  | .zkpoke z Ag Au Qg Qu rx rrho =>
    z.numbers ++ Ag.numbers ++ Au.numbers ++ Qg.numbers ++ Qu.numbers ++ rx.numbers ++ rrho.numbers
  | .nonNegative commitments delta z t tt =>
    commitments.numbers ++ delta.numbers ++ z.numbers ++ t.numbers ++ tt.numbers
  | .interval lower upper => lower.numbers ++ upper.numbers
  | .foreign _ => []

/-- The integers in several values. -/
def numbersAll : List Value → List Int
  | [] => []
  | v :: vs => v.numbers ++ numbersAll vs

end

lemma rereadAll_ints (ns : List Int) : rereadAll (ns.map .int) = ns.map .int := by
  induction ns with
  | nil => rw [List.map_nil, rereadAll]
  | cons n ns ih => rw [List.map_cons, rereadAll, reread, ih]

lemma numbersAll_eq (vs : List Value) : numbersAll vs = vs.flatMap numbers := by
  induction vs with
  | nil => rw [numbersAll, List.flatMap_nil]
  | cons v vs ih => rw [numbersAll, List.flatMap_cons, ih]

section Kinds

variable {v : Value} {tag : String} {fields : List (String × Value)}

lemma encodeField_of_asRecord [DigitLimit] (h : v.asRecord = some (tag, fields)) :
    encodeField v = tagged tag (fields.map fun f => (f.1, encodeField f.2)) := by
  cases v <;> cases h <;> rw [encodeField] <;> rfl

lemma serialize_of_asRecord [DigitLimit] (h : v.asRecord = some (tag, fields)) :
    v.serialize = encodeField v := by
  cases v <;> cases h <;> rfl

lemma asRecord_reread (h : v.asRecord = some (tag, fields)) :
    v.reread.asRecord = some (tag, fields.map fun f => (f.1, f.2.reread)) := by
  cases v <;> cases h <;> rw [reread] <;> rfl

lemma numbers_of_asRecord (h : v.asRecord = some (tag, fields)) :
    v.numbers = fields.flatMap fun f => f.2.numbers := by
  cases v <;> cases h <;>
    simp only [numbers, List.flatMap_cons, List.flatMap_nil, List.append_nil, List.append_assoc,
      List.cons_append, List.nil_append]

/-- No field is named like one of the two keys that tell objects apart, and no two alike. -/
lemma nodup_of_asRecord (h : v.asRecord = some (tag, fields)) :
    ("b64" :: "type" :: fields.map Prod.fst).Nodup := by
  cases v <;> cases h <;> simp only [List.map_cons, List.map_nil] <;> decide

lemma plain_of_asRecord (h : v.asRecord = some (tag, fields)) :
    (Text.ofString tag).Plain ∧ ∀ name ∈ fields.map Prod.fst, (Text.ofString name).Plain := by
  cases v <;> cases h <;> simp only [List.map_cons, List.map_nil] <;> decide

/-- Group parameters satisfy the conditions that are checked on the way in. -/
lemma groupOf_int [DigitLimit] (pp : GroupParameters) :
    groupOf (.int pp.N) (.int pp.G) (.int pp.H) = .ok (.group pp) := by
  rw [groupOf, GroupParameters.of_eq_ok.mpr ⟨rfl, rfl, rfl⟩]
  rfl

/-- **A record of each kind** is what its fields are read as under its tag. -/
theorem ofTag_of_asRecord [DigitLimit] (h : v.asRecord = some (tag, fields))
    {members : List (Text × Json)} {decoded : List (Text × Except Error Value)}
    (hfields : ∀ f ∈ fields, field f.1 decoded = .ok f.2) :
    ofTag (Text.ofString tag) members decoded = .ok v := by
  cases v <;> cases h <;>
    simp only [List.forall_mem_cons] at hfields <;>
    simp only [ofTag, Text.ofString_injective.eq_iff, String.reduceEq, if_false, if_true, hfields,
      ok_bind, pure_eq_ok, groupOf_int]

end Kinds

variable [DigitLimit]

/-- The integers in a value can be written. -/
def Short (v : Value) : Prop := ∀ n ∈ v.numbers, Writable n

lemma short_int {n : Int} : Writable n ↔ (int n).Short := by
  rw [Short, numbers, List.forall_mem_singleton]

lemma short_tuple {items : List Value} : (tuple items).Short ↔ ∀ v ∈ items, v.Short := by
  rw [Short, numbers, numbersAll_eq]
  simp only [List.forall_mem_flatMap, Short]

/-! ## Objects that hold records -/

lemma field_decodeMembers (name : String) (members : List (Text × Json)) :
    field name (decodeMembers members) =
      match Json.lookup (Text.ofString name) members with
      | some j => decodeField j
      | none => .error (.fault (.missingField name)) := by
  induction members with
  | nil => rw [decodeMembers]; rfl
  | cons m members ih =>
      rw [decodeMembers, field, Json.lookup, ih]
      split_ifs <;> rfl

/-- The members of an object are the tag and the fields of a record, in whatever order. -/
structure Holds (members : List (Text × Json)) (tag : String) (fields : List (String × Value)) :
    Prop where
  b64 : Json.lookup (Text.ofString "b64") members = none
  type : Json.lookup (Text.ofString "type") members = some (Json.ofString tag)
  fields : ∀ f ∈ fields, ∃ j,
    Json.lookup (Text.ofString f.1) members = some j ∧ decodeField j = .ok f.2

/-- **An object that holds a record is read as that record**, also in a field. -/
theorem Holds.deserialize {members : List (Text × Json)} {tag : String}
    {fields : List (String × Value)} {v : Value} (h : Holds members tag fields)
    (hv : v.asRecord = some (tag, fields)) :
    Value.deserialize (.obj members) = .ok v ∧ decodeField (.obj members) = .ok v := by
  have hread : ofMembers members (decodeMembers members) = .ok v := by
    rw [ofMembers, h.type]
    refine ofTag_of_asRecord hv fun f hf => ?_
    obtain ⟨j, hj, hdecoded⟩ := h.fields f hf
    rw [field_decodeMembers, hj]
    exact hdecoded
  refine ⟨hread, ?_⟩
  rw [decodeField, h.b64, h.type]
  exact hread

/-! ## Fields -/

/-- The value that is read where `j` stands in a field, whether or not its keys are sorted. -/
structure Reads (j : Json) (v : Value) : Prop where
  plain : j.Plain
  decoded : decodeField j = .ok v
  sorted : decodeField j.sorted = .ok v

lemma encodeInt_eq (n : Int) : encodeInt n = if Writable n
    then .ok (.str (Decimal.numeral n)) else .error (.fault .longNumeral) := by
  rw [encodeInt, Decimal.write]
  split_ifs <;> rfl

lemma decodeInt_numeral {n : Int} (hn : Writable n) :
    decodeInt (.str (Decimal.numeral n)) = .ok n := by
  rw [decodeInt, Decimal.read_numeral, if_pos hn]

lemma reads_numeral {n : Int} (hn : Writable n) : Reads (.str (Decimal.numeral n)) (.int n) := by
  have hdecoded : decodeField (.str (Decimal.numeral n)) = .ok (.int n) := by
    rw [decodeField, decodeInt_numeral hn]
    rfl
  refine ⟨.str fun c hc => ?_, hdecoded, hdecoded⟩
  rcases Decimal.mem_numeral hc with rfl | hdigit <;> omega

lemma writes_int (n : Int) : WritesWhen (Writable n) (encodeInt n) (Reads · (.int n)) := by
  rw [encodeInt_eq]
  exact ⟨fun hn => ⟨_, if_pos hn, reads_numeral hn⟩, fun hn => if_neg hn⟩

lemma reads_bytes (b : Bytes) : Reads (encodeBytes b) (.bytes b) := by
  have hdecoded : decodeField (encodeBytes b) = .ok (.bytes b) := by
    have hascii : (Base64.encode b).any (128 ≤ ·) = false := by
      simp only [List.any_eq_false, decide_eq_true_eq]
      intro c hc
      have := Base64.mem_encode hc
      omega
    rw [encodeBytes, decodeField, Json.lookup, if_pos rfl]
    simp only [decodeBytes, hascii, Base64.decode_encode]
    rfl
  refine ⟨.obj (List.nodup_singleton _) ?_ ?_, hdecoded, hdecoded⟩
  · intro m hm
    rw [List.mem_singleton.mp hm]
    show (Text.ofString "b64").Plain
    decide
  · intro m hm
    rw [List.mem_singleton.mp hm]
    refine .str fun c hc => ?_
    have := Base64.mem_encode hc
    omega

/-- Items are written and read one by one. -/
lemma writes_tuple {items : List Value}
    (h : ∀ v ∈ items, WritesWhen v.Short (encodeField v) (Reads · v.reread)) :
    WritesWhen (∀ v ∈ items, v.Short) (encodeItems items)
      fun js => Reads (.arr js) (.tuple (rereadAll items)) := by
  have hitems : WritesWhen (∀ v ∈ items, v.Short) (encodeItems items) fun js =>
      (∀ j ∈ js, j.Plain) ∧ decodeItems js = .ok (rereadAll items) ∧
        decodeItems (js.map Json.sorted) = .ok (rereadAll items) := by
    induction items with
    | nil =>
        rw [encodeItems, rereadAll]
        refine (WritesWhen.ok ⟨List.forall_mem_nil _, ?_, ?_⟩).congr (by simp)
        · rw [decodeItems]
        · rw [List.map_nil, decodeItems]
    | cons v items ih =>
        obtain ⟨hv, hitems⟩ := List.forall_mem_cons.mp h
        rw [encodeItems, rereadAll]
        refine (hv.bind fun j hj => (ih hitems).bind fun js hjs => .ok ?_).congr (by simp)
        obtain ⟨hplain, hdecoded, hsorted⟩ := hjs
        refine ⟨List.forall_mem_cons.mpr ⟨hj.plain, hplain⟩, ?_, ?_⟩
        · rw [decodeItems, hj.decoded, hdecoded]
          rfl
        · rw [List.map_cons, decodeItems, hj.sorted, hsorted]
          rfl
  refine hitems.mono fun js ⟨hplain, hdecoded, hsorted⟩ => ⟨.arr hplain, ?_, ?_⟩
  · rw [decodeField, hdecoded]
    rfl
  · rw [Json.sorted, Json.sortedItems_eq_map, decodeField, hsorted]
    rfl

/-- Fields are written one by one, and each is found under its name. -/
lemma writes_members {fields : List (String × Value)}
    (h : ∀ f ∈ fields, WritesWhen f.2.Short (encodeField f.2) (Reads · f.2.reread))
    (hnodup : (fields.map Prod.fst).Nodup) :
    WritesWhen (∀ f ∈ fields, f.2.Short) (members (fields.map fun f => (f.1, encodeField f.2)))
      fun ms => ms.map Prod.fst = (fields.map Prod.fst).map Text.ofString ∧
        (∀ m ∈ ms, m.2.Plain) ∧
        ∀ f ∈ fields, ∃ j, Json.lookup (Text.ofString f.1) ms = some j ∧ Reads j f.2.reread := by
  induction fields with
  | nil => exact (WritesWhen.ok ⟨rfl, by simp, by simp⟩).congr (by simp)
  | cons f fields ih =>
      rw [List.map_cons, List.nodup_cons] at hnodup
      obtain ⟨hf, hfields⟩ := List.forall_mem_cons.mp h
      rw [List.map_cons, members]
      refine (hf.bind fun j hreads =>
        (ih hfields hnodup.2).bind fun ms hms => .ok ?_).congr (by simp)
      obtain ⟨hkeys, hplain, hfields⟩ := hms
      refine ⟨?_, List.forall_mem_cons.mpr ⟨hreads.plain, hplain⟩, ?_⟩
      · rw [List.map_cons, hkeys, List.map_cons, List.map_cons]
      · rintro g hg
        rcases List.mem_cons.mp hg with rfl | hg
        · exact ⟨j, by rw [Json.lookup, if_pos rfl], hreads⟩
        · obtain ⟨k, hk, hreads'⟩ := hfields g hg
          refine ⟨k, ?_, hreads'⟩
          rw [Json.lookup, if_neg, hk]
          intro heq
          rw [Text.ofString_injective heq] at hnodup
          exact hnodup.1 (List.mem_map_of_mem hg)

/-- The value that is read where a record was written, as an object of its own or in a field,
whether or not its keys are sorted. -/
structure ReadsRecord (j : Json) (v : Value) : Prop extends Reads j v where
  object : deserialize j = .ok v
  sortedObject : deserialize j.sorted = .ok v

/-- The members of a record are found under their names before and after their keys are sorted. -/
lemma holds_members {tag : String} {fields : List (String × Value)} {ms : List (Text × Json)}
    (hnodup : ("b64" :: "type" :: fields.map Prod.fst).Nodup)
    (hkeys : ms.map Prod.fst = ("type" :: fields.map Prod.fst).map Text.ofString)
    (htype : Json.lookup (Text.ofString "type") ms = some (Json.ofString tag))
    (hfields : ∀ f ∈ fields, ∃ j,
      Json.lookup (Text.ofString f.1) ms = some j ∧ Reads j f.2.reread) :
    Holds ms tag (fields.map fun f => (f.1, f.2.reread)) ∧
      Holds (Json.sortedMembers ms) tag (fields.map fun f => (f.1, f.2.reread)) := by
  obtain ⟨hb64, hnodup⟩ := List.nodup_cons.mp hnodup
  have hdistinct : (ms.map Prod.fst).Nodup := hkeys ▸ hnodup.map Text.ofString_injective
  have hb64 : Json.lookup (Text.ofString "b64") ms = none := by
    refine Json.lookup_eq_none ?_
    rw [hkeys]
    exact mt (List.mem_map_of_injective Text.ofString_injective).mp hb64
  refine ⟨⟨hb64, htype, fun f hf => ?_⟩, ⟨?_, ?_, fun f hf => ?_⟩⟩
  · obtain ⟨g, hg, rfl⟩ := List.mem_map.mp hf
    obtain ⟨j, hj, hreads⟩ := hfields g hg
    exact ⟨j, hj, hreads.decoded⟩
  · rw [Json.lookup_sortedMembers hdistinct, hb64, Option.map_none]
  · rw [Json.lookup_sortedMembers hdistinct, htype]
    rfl
  · obtain ⟨g, hg, rfl⟩ := List.mem_map.mp hf
    obtain ⟨j, hj, hreads⟩ := hfields g hg
    exact ⟨j.sorted, by rw [Json.lookup_sortedMembers hdistinct, hj, Option.map_some],
      hreads.sorted⟩

lemma short_of_asRecord {v : Value} {tag : String} {fields : List (String × Value)}
    (hv : v.asRecord = some (tag, fields)) : v.Short ↔ ∀ f ∈ fields, f.2.Short := by
  rw [Short, numbers_of_asRecord hv]
  simp only [List.forall_mem_flatMap, Short]

omit [DigitLimit] in
/-- The object of a record is plain when its members are. -/
lemma plain_members {tag : String} {names : List String} {ms : List (Text × Json)}
    (htag : (Text.ofString tag).Plain) (hnames : ∀ name ∈ names, (Text.ofString name).Plain)
    (hnodup : ("type" :: names).Nodup)
    (hkeys : ((Text.ofString "type", Json.ofString tag) :: ms).map Prod.fst
      = ("type" :: names).map Text.ofString)
    (hplain : ∀ m ∈ ms, m.2.Plain) :
    (Json.obj ((Text.ofString "type", Json.ofString tag) :: ms)).Plain := by
  refine .obj ?_ ?_ ?_
  · rw [hkeys]
    exact hnodup.map Text.ofString_injective
  · intro m hm
    have hkey := List.mem_map_of_mem (f := Prod.fst) hm
    rw [hkeys] at hkey
    obtain ⟨name, hname, hm⟩ := List.mem_map.mp hkey
    rw [← hm]
    rcases List.mem_cons.mp hname with rfl | hname
    · decide
    · exact hnames name hname
  · intro m hm
    rcases List.mem_cons.mp hm with rfl | hm
    · exact .str htag
    · exact hplain m hm

/-- **A record is written and read back** when its fields are. -/
theorem writes_record {v : Value} {tag : String} {fields : List (String × Value)}
    (hv : v.asRecord = some (tag, fields))
    (h : ∀ f ∈ fields, WritesWhen f.2.Short (encodeField f.2) (Reads · f.2.reread)) :
    WritesWhen v.Short (encodeField v) (ReadsRecord · v.reread) := by
  have hnodup := nodup_of_asRecord hv
  obtain ⟨htag, hnames⟩ := plain_of_asRecord hv
  obtain ⟨htype, hfresh⟩ := List.nodup_cons.mp (List.nodup_cons.mp hnodup).2
  rw [encodeField_of_asRecord hv, tagged]
  refine ((writes_members h hfresh).bind fun ms hms => .ok ?_).congr
    (by rw [short_of_asRecord hv, and_true])
  obtain ⟨hkeys, hplain, hfields⟩ := hms
  have hkeys' : ((Text.ofString "type", Json.ofString tag) :: ms).map Prod.fst
      = ("type" :: fields.map Prod.fst).map Text.ofString := by
    rw [List.map_cons, hkeys, List.map_cons]
  have hobject := plain_members htag hnames (List.nodup_cons.mp hnodup).2 hkeys' hplain
  obtain ⟨hholds, hsorted⟩ := holds_members hnodup hkeys' (by rw [Json.lookup, if_pos rfl])
    fun f hf => by
      obtain ⟨j, hj, hreads⟩ := hfields f hf
      refine ⟨j, ?_, hreads⟩
      rw [Json.lookup, if_neg, hj]
      intro heq
      exact htype (Text.ofString_injective heq ▸ List.mem_map_of_mem hf)
  have hread := hholds.deserialize (asRecord_reread hv)
  have hread' := hsorted.deserialize (asRecord_reread hv)
  refine ⟨⟨hobject, hread.2, ?_⟩, hread.1, ?_⟩
  · rw [Json.sorted]
    exact hread'.2
  · rw [Json.sorted]
    exact hread'.1

/-! ## Rows of integers -/

lemma encodeItems_ints (ns : List Int) : encodeItems (ns.map .int) = encodeIntList ns := by
  induction ns with
  | nil => rw [List.map_nil, encodeItems, encodeIntList]
  | cons n ns ih => rw [List.map_cons, encodeItems, encodeField, ih, encodeIntList]

/-- Roots are written as the tuple that they are read back as. -/
lemma encodeField_ints (ns : List Int) : encodeField (ints ns) = encodeInts ns := by
  rw [ints, encodeField, encodeItems_ints, encodeInts]

lemma encodeIntList_eq (ns : List Int) : encodeIntList ns = if ∀ n ∈ ns, Writable n
    then .ok (ns.map fun n => .str (Decimal.numeral n)) else .error (.fault .longNumeral) := by
  induction ns with
  | nil => rfl
  | cons n ns ih =>
      rw [encodeIntList, encodeInt_eq, ih]
      exact ite_bind_ite List.forall_mem_cons _ _ _ _

lemma decodeIntList_numerals {ns : List Int} (hns : ∀ n ∈ ns, Writable n) :
    decodeIntList (ns.map fun n => .str (Decimal.numeral n)) = .ok ns := by
  induction ns with
  | nil => rfl
  | cons n ns ih =>
      obtain ⟨hn, hns⟩ := List.forall_mem_cons.mp hns
      rw [List.map_cons, decodeIntList, decodeInt_numeral hn, ih hns]
      rfl

/-- A row of integers is read back as a tuple. -/
lemma writes_ints (ns : List Int) :
    WritesWhen (∀ n ∈ ns, Writable n) (encodeInts ns) (Reads · (ints ns)) := by
  have hitems : ∀ v ∈ ns.map Value.int,
      WritesWhen v.Short (encodeField v) (Reads · v.reread) := by
    intro v hv
    obtain ⟨n, -, rfl⟩ := List.mem_map.mp hv
    rw [encodeField, reread]
    exact (writes_int n).congr short_int
  have hrow := writes_tuple hitems
  rw [encodeItems_ints, rereadAll_ints] at hrow
  refine (hrow.bind fun js hjs => .ok hjs).congr ?_
  simp [short_int]

/-- **What is written in a field is read back**, when nothing foreign is in it. -/
theorem Native.writes {v : Value} (h : v.Native) :
    WritesWhen v.Short (encodeField v) (Reads · v.reread) := by
  -- by induction on how the value is made, with one case for records of all kinds
  induction h with
  | int n =>
      rw [encodeField, reread]
      exact (writes_int n).congr short_int
  | bytes b =>
      rw [encodeField, reread]
      exact ⟨fun _ => ⟨_, rfl, reads_bytes b⟩, fun h => absurd (by simp [Short, numbers]) h⟩
  | @tuple items _ ih =>
      rw [encodeField, reread]
      exact ((writes_tuple ih).bind fun js hjs => .ok hjs).congr (by simp [short_tuple])
  | four w =>
      rw [encodeField, reread]
      exact (writes_ints w.toList).congr (by rw [Short, numbers])
  | three w =>
      rw [encodeField, reread]
      exact (writes_ints w.toList).congr (by rw [Short, numbers])
  | record hv _ ih => exact (writes_record hv ih).mono fun j hreads => hreads.toReads

end Value

end HiddenOrder
