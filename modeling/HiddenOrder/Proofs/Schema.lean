import HiddenOrder.Proofs.Record

/-!
# Records by their fields

Reading names every field of every kind of record.  What it does is the same for all six kinds: the
fields are read in their order, each under its name, the first failure deciding, and a record is
built from what they hold.  Only group parameters can still be refused then.  So statements about
what is read need one argument for all kinds of records, one for roots, and an induction over the
values that stand in fields.

* `mapM_eq_ok`, **`mapM_eq_error`** — a list of computations returns when all of them do, and fails
  with the first failure.
* **`Json.induction`** — induction over the values of fields: items and members first.
* **`RecordKind`** — the six kinds of records, with their tags, their fields and how they are built.
* `Value.ReadAt` — the value that a field of an object is read as.
* **`Value.ofTag_tag`** — a record is read field by field.
* **`Value.ofMembers_eq_ok`** — what an object is read as: roots, or a record.
-/

namespace HiddenOrder

/-! ## Lists of computations -/

section Lists

variable {ε α β : Type} {f : α → Except ε β}

/-- All computations return, each the value at its place. -/
lemma mapM_eq_ok {l : List α} {bs : List β} :
    l.mapM f = .ok bs ↔ List.Forall₂ (fun a b => f a = .ok b) l bs := by
  induction l generalizing bs with
  | nil =>
      rw [List.mapM_nil, pure_eq_ok, Except.ok.injEq, List.forall₂_nil_left_iff, eq_comm]
  | cons a l ih =>
      rw [List.mapM_cons, bind_eq_ok, List.forall₂_cons_left_iff]
      simp only [bind_eq_ok, ih, pure_eq_ok, Except.ok.injEq]
      constructor
      · rintro ⟨b, hb, bs', hbs', rfl⟩
        exact ⟨b, bs', hb, hbs', rfl⟩
      · rintro ⟨b, bs', hb, hbs', rfl⟩
        exact ⟨b, hb, bs', hbs', rfl⟩

/-- **The first failure decides**: everything before it returns. -/
theorem mapM_eq_error {l : List α} {e : ε} :
    l.mapM f = .error e ↔ ∃ before a after, l = before ++ a :: after ∧
      (∀ b ∈ before, ∃ c, f b = .ok c) ∧ f a = .error e := by
  induction l with
  | nil =>
      rw [List.mapM_nil, pure_eq_ok]
      simp
  | cons a l ih =>
      rw [List.mapM_cons, bind_eq_error]
      simp only [bind_eq_error, ih, pure_eq_ok, reduceCtorEq, and_false, exists_false, or_false]
      constructor
      · rintro (ha | ⟨b, hb, before, a', after, rfl, hbefore, ha'⟩)
        · exact ⟨[], a, l, rfl, by simp, ha⟩
        · exact ⟨a :: before, a', after, rfl, List.forall_mem_cons.mpr ⟨⟨b, hb⟩, hbefore⟩, ha'⟩
      · rintro ⟨before, a', after, hl, hbefore, ha'⟩
        cases before with
        | nil =>
            cases hl
            exact .inl ha'
        | cons b before =>
            cases hl
            obtain ⟨⟨c, hc⟩, hbefore⟩ := List.forall_mem_cons.mp hbefore
            exact .inr ⟨c, hc, before, a', after, rfl, hbefore, ha'⟩

/-- What stands on the right comes from something on the left. -/
lemma exists_left_of_mem {R : α → β → Prop} {l : List α} {bs : List β} (h : List.Forall₂ R l bs)
    {b : β} (hb : b ∈ bs) : ∃ a ∈ l, R a b := by
  induction h with
  | nil => simp at hb
  | @cons a b' l bs hab _ ih =>
      rcases List.mem_cons.mp hb with rfl | hb
      · exact ⟨a, List.mem_cons_self, hab⟩
      · obtain ⟨c, hc, hcb⟩ := ih hb
        exact ⟨c, List.mem_cons_of_mem a hc, hcb⟩

end Lists

namespace Json

/-! ## Induction over the values of fields -/

/-- **Induction over a JSON value**: the items of an array and the values of the members of an
object come before it. -/
theorem induction {P : Json → Prop} (null : P .null) (bool : ∀ b, P (.bool b))
    (int : ∀ n, P (.int n)) (fraction : ∀ x, P (.fraction x)) (str : ∀ t, P (.str t))
    (arr : ∀ items, (∀ j ∈ items, P j) → P (.arr items))
    (obj : ∀ members, (∀ m ∈ members, P m.2) → P (.obj members)) : ∀ j, P j :=
  @Json.rec P (fun items => ∀ j ∈ items, P j) (fun members => ∀ m ∈ members, P m.2)
    (fun m => P m.2) null bool int fraction str arr obj (by simp)
    (fun _ _ hj hitems => List.forall_mem_cons.mpr ⟨hj, hitems⟩) (by simp)
    (fun _ _ hm hmembers => List.forall_mem_cons.mpr ⟨hm, hmembers⟩) fun _ _ hj => hj

/-- An array or an object. -/
def IsNested : Json → Prop
  | .arr _ => True
  | .obj _ => True
  | _ => False

lemma mem_of_lookup {key : Text} {j : Json} :
    ∀ {members : List (Text × Json)}, lookup key members = some j → (key, j) ∈ members
  | [], h => nomatch h
  | (k, v) :: members, h => by
      rw [lookup] at h
      split_ifs at h with hk
      · cases h
        rw [← hk]
        exact List.mem_cons_self
      · exact List.mem_cons_of_mem _ (mem_of_lookup h)

end Json

/-! ## Kinds of records -/

/-- The kinds of records with named fields. -/
inductive RecordKind where
  | group
  | poe
  | pokeStar
  | zkpoke
  | nonNegative
  | interval
deriving DecidableEq

variable [DigitLimit]

namespace RecordKind

/-- The tag of the records of a kind. -/
def tag : RecordKind → String
  | group => "GroupSetup"
  | poe => "PoEProof"
  | pokeStar => "PoKEStarProof"
  | zkpoke => "ZKPoKEProof"
  | nonNegative => "NonNegativeProof"
  | interval => "IntervalProof"

/-- The names of their fields, in the order in which they are read. -/
def names : RecordKind → List String
  | group => ["N", "G", "H"]
  | poe => ["Q"]
  | pokeStar => ["Q", "r"]
  | zkpoke => ["z", "Ag", "Au", "Qg", "Qu", "rx", "rrho"]
  | nonNegative => ["commitments", "delta", "z", "t", "tt"]
  | interval => ["lower", "upper"]

/-- The record of a kind whose fields hold the given values.  Nothing is built from another number
of values, and only the values of group parameters are looked at. -/
def build : RecordKind → List Value → Except Error Value
  | group, [N, G, H] => Value.groupOf N G H
  | poe, [Q] => .ok (.poe Q)
  | pokeStar, [Q, r] => .ok (.pokeStar Q r)
  | zkpoke, [z, Ag, Au, Qg, Qu, rx, rrho] => .ok (.zkpoke z Ag Au Qg Qu rx rrho)
  | nonNegative, [commitments, delta, z, t, tt] => .ok (.nonNegative commitments delta z t tt)
  | interval, [lower, upper] => .ok (.interval lower upper)
  | _, _ => .error (.fault .valueCount)

end RecordKind

omit [DigitLimit] in
/-- Roots are made of the integers that they are listed as. -/
lemma FourInt.toList_of_ofList {ns : List Int} {w : FourInt} (h : ofList ns = .ok w) :
    w.toList = ns := by
  rw [ofList.eq_def] at h
  split at h <;> cases h
  rfl

omit [DigitLimit] in
lemma ThreeInt.toList_of_ofList {ns : List Int} {w : ThreeInt} (h : ofList ns = .ok w) :
    w.toList = ns := by
  rw [ofList.eq_def] at h
  split at h <;> cases h
  rfl

namespace Value

/-- Group parameters hold the integers that they are built from. -/
lemma groupOf_eq_ok {N G H v : Value} (h : groupOf N G H = .ok v) :
    ∃ pp, v = .group pp ∧ N = .int pp.N ∧ G = .int pp.G ∧ H = .int pp.H := by
  rw [groupOf.eq_def] at h
  split at h
  · obtain ⟨pp, hpp, ⟨⟩⟩ := bind_eq_ok.mp h
    obtain ⟨rfl, rfl, rfl⟩ := GroupParameters.of_eq_ok.mp hpp
    exact ⟨pp, rfl, rfl, rfl, rfl⟩
  · obtain ⟨_, _, ⟨⟩⟩ := bind_eq_ok.mp h
  · split_ifs at h
  · cases h

/-- A record holds the values that it is built from, under the names of its fields. -/
lemma build_eq_ok {k : RecordKind} {vs : List Value} {v : Value} (h : k.build vs = .ok v) :
    v.asRecord = some (k.tag, k.names.zip vs) ∧ vs.length = k.names.length := by
  rw [RecordKind.build.eq_def] at h
  split at h
  · obtain ⟨pp, rfl, rfl, rfl, rfl⟩ := groupOf_eq_ok h
    exact ⟨rfl, rfl⟩
  all_goals cases h
  all_goals exact ⟨rfl, rfl⟩

/-- Everything but group parameters is built from any values. -/
lemma build_ok {k : RecordKind} (hk : k ≠ .group) {vs : List Value}
    (hlength : vs.length = k.names.length) : ∃ v, k.build vs = .ok v := by
  cases k with
  | group => exact absurd rfl hk
  | poe =>
      obtain ⟨Q, rfl⟩ := List.length_eq_one_iff.mp hlength
      exact ⟨_, rfl⟩
  | pokeStar =>
      obtain ⟨Q, r, rfl⟩ := List.length_eq_two.mp hlength
      exact ⟨_, rfl⟩
  | zkpoke =>
      match vs, hlength with
      | [_, _, _, _, _, _, _], _ => exact ⟨_, rfl⟩
  | nonNegative =>
      match vs, hlength with
      | [_, _, _, _, _], _ => exact ⟨_, rfl⟩
  | interval =>
      obtain ⟨lower, upper, rfl⟩ := List.length_eq_two.mp hlength
      exact ⟨_, rfl⟩

/-! ## Reading by kind -/

section Reading

variable {members : List (Text × Json)} {decoded : List (Text × Except Error Value)}

/-- **A record is read field by field**, in the order of its fields, and then built. -/
theorem ofTag_tag (k : RecordKind) :
    ofTag (Text.ofString k.tag) members decoded
      = (k.names.mapM fun name => field name decoded) >>= k.build := by
  cases k <;>
    simp only [ofTag, RecordKind.tag, RecordKind.names, RecordKind.build,
      Text.ofString_injective.eq_iff, String.reduceEq, if_false, if_true, List.mapM_cons,
      List.mapM_nil, bind_assoc, pure_bind] <;>
    rfl

lemma ofTag_four : ofTag (Text.ofString "FourInt") members decoded = (do
    let values ← rootValues members
    let w ← FourInt.ofList values
    pure (.four w)) := by
  rw [ofTag, if_pos rfl]

lemma ofTag_three : ofTag (Text.ofString "ThreeInt") members decoded = (do
    let values ← rootValues members
    let w ← ThreeInt.ofList values
    pure (.three w)) := by
  rw [ofTag, if_neg (by decide), if_pos rfl]

/-- A tag is that of roots, that of records, or refused. -/
lemma tag_cases (tag : Text) :
    tag = Text.ofString "FourInt" ∨ tag = Text.ofString "ThreeInt" ∨
      (∃ k : RecordKind, tag = Text.ofString k.tag) ∨
      ∀ members decoded, ofTag tag members decoded = .error (refuse (.tag (.str tag))) := by
  by_cases hfour : tag = Text.ofString "FourInt"
  · exact .inl hfour
  by_cases hthree : tag = Text.ofString "ThreeInt"
  · exact .inr (.inl hthree)
  by_cases hrecord : ∃ k : RecordKind, tag = Text.ofString k.tag
  · exact .inr (.inr (.inl hrecord))
  have hnone : ∀ k : RecordKind, tag ≠ Text.ofString k.tag := fun k hk => hrecord ⟨k, hk⟩
  refine .inr (.inr (.inr fun members decoded => ?_))
  exact (if_neg hfour).trans <| (if_neg hthree).trans <| (if_neg (hnone .group)).trans <|
    (if_neg (hnone .poe)).trans <| (if_neg (hnone .pokeStar)).trans <|
    (if_neg (hnone .zkpoke)).trans <| (if_neg (hnone .nonNegative)).trans <|
    if_neg (hnone .interval)

/-- The member with this name is there, and read as this value. -/
def ReadAt (members : List (Text × Json)) (name : String) (v : Value) : Prop :=
  ∃ j, Json.lookup (Text.ofString name) members = some j ∧ decodeField j = .ok v

lemma field_eq_ok {name : String} {v : Value} :
    field name (decodeMembers members) = .ok v ↔ ReadAt members name v := by
  rw [field_decodeMembers, ReadAt]
  cases Json.lookup (Text.ofString name) members with
  | none => simp
  | some j => simp

/-- The tag of an object. -/
def Tagged (members : List (Text × Json)) (tag : String) : Prop :=
  Json.lookup (Text.ofString "type") members = some (Json.ofString tag)

/-- A tagged object is read by its tag. -/
lemma Tagged.ofMembers {tag : String} (h : Tagged members tag) :
    ofMembers members decoded = ofTag (Text.ofString tag) members decoded := by
  rw [Value.ofMembers, h]
  rfl

/-- A record of a kind is read from an object: the tag is there, and every field with its value. -/
lemma ofMembers_record {k : RecordKind} (h : Tagged members k.tag) {vs : List Value}
    (hfields : List.Forall₂ (ReadAt members) k.names vs) :
    ofMembers members (decodeMembers members) = k.build vs := by
  have hread : (k.names.mapM fun name => field name (decodeMembers members)) = .ok vs :=
    mapM_eq_ok.mpr (hfields.imp fun _ _ => field_eq_ok.mpr)
  rw [h.ofMembers, ofTag_tag, hread, ok_bind]

/-- An object has the tag of roots or of records, or a tag that cannot be looked up, or one that is
refused; without a tag the null value is. -/
lemma members_cases (members : List (Text × Json)) (decoded : List (Text × Except Error Value)) :
    Tagged members "FourInt" ∨ Tagged members "ThreeInt" ∨
      (∃ k : RecordKind, Tagged members k.tag) ∨
      (∃ j, Json.lookup (Text.ofString "type") members = some j ∧ j.IsNested ∧
        ofMembers members decoded = .error (.fault .wrongKind)) ∨
      ∃ j, (Json.lookup (Text.ofString "type") members).getD .null = j ∧ ¬j.IsNested ∧
        ofMembers members decoded = .error (refuse (.tag j)) := by
  rw [ofMembers]
  cases htype : Json.lookup (Text.ofString "type") members with
  | none => exact .inr (.inr (.inr (.inr ⟨.null, rfl, not_false, rfl⟩)))
  | some j =>
      cases j with
      | str tag =>
          rcases tag_cases tag with rfl | rfl | ⟨k, rfl⟩ | hrefused
          · exact .inl htype
          · exact .inr (.inl htype)
          · exact .inr (.inr (.inl ⟨k, htype⟩))
          · exact .inr (.inr (.inr (.inr ⟨_, rfl, not_false, hrefused members decoded⟩)))
      | arr items => exact .inr (.inr (.inr (.inl ⟨_, rfl, trivial, rfl⟩)))
      | obj inner => exact .inr (.inr (.inr (.inl ⟨_, rfl, trivial, rfl⟩)))
      | null => exact .inr (.inr (.inr (.inr ⟨_, rfl, not_false, rfl⟩)))
      | bool b => exact .inr (.inr (.inr (.inr ⟨_, rfl, not_false, rfl⟩)))
      | int n => exact .inr (.inr (.inr (.inr ⟨_, rfl, not_false, rfl⟩)))
      | fraction x => exact .inr (.inr (.inr (.inr ⟨_, rfl, not_false, rfl⟩)))

/-- **What an object is read as**: four roots, three roots, or a record whose fields were read. -/
theorem ofMembers_eq_ok {v : Value} (h : ofMembers members (decodeMembers members) = .ok v) :
    (∃ w, v = .four w ∧ rootValues members = .ok w.toList) ∨
      (∃ w, v = .three w ∧ rootValues members = .ok w.toList) ∨
      ∃ (k : RecordKind) (vs : List Value), Tagged members k.tag ∧ k.build vs = .ok v ∧
        List.Forall₂ (ReadAt members) k.names vs := by
  rcases members_cases members (decodeMembers members) with
    htag | htag | ⟨k, htag⟩ | ⟨_, _, _, hfault⟩ | ⟨_, _, _, hrefused⟩
  · rw [htag.ofMembers, ofTag_four] at h
    obtain ⟨values, hvalues, h⟩ := bind_eq_ok.mp h
    obtain ⟨w, hw, ⟨⟩⟩ := bind_eq_ok.mp h
    exact .inl ⟨w, rfl, FourInt.toList_of_ofList hw ▸ hvalues⟩
  · rw [htag.ofMembers, ofTag_three] at h
    obtain ⟨values, hvalues, h⟩ := bind_eq_ok.mp h
    obtain ⟨w, hw, ⟨⟩⟩ := bind_eq_ok.mp h
    exact .inr (.inl ⟨w, rfl, ThreeInt.toList_of_ofList hw ▸ hvalues⟩)
  · rw [htag.ofMembers, ofTag_tag] at h
    obtain ⟨vs, hvs, hbuild⟩ := bind_eq_ok.mp h
    exact .inr (.inr ⟨k, vs, htag, hbuild, (mapM_eq_ok.mp hvs).imp fun _ _ => field_eq_ok.mp⟩)
  · rw [hfault] at h
    cases h
  · rw [hrefused] at h
    cases h

lemma decodeItems_eq_mapM (items : List Json) : decodeItems items = items.mapM decodeField := by
  induction items with
  | nil => rw [decodeItems, List.mapM_nil, pure_eq_ok]
  | cons j items ih => rw [decodeItems, List.mapM_cons, ih]

/-- A tuple is read item by item. -/
lemma decodeField_arr_eq_ok {items : List Json} {v : Value} :
    decodeField (.arr items) = .ok v ↔
      ∃ vs, v = .tuple vs ∧ List.Forall₂ (fun j w => decodeField j = .ok w) items vs := by
  rw [decodeField, bind_eq_ok]
  simp only [decodeItems_eq_mapM, mapM_eq_ok, pure_eq_ok, Except.ok.injEq, eq_comm (b := v),
    and_comm]

/-- An object in a field is bytes or a record. -/
lemma decodeField_obj (members : List (Text × Json)) :
    decodeField (.obj members) =
      match Json.lookup (Text.ofString "b64") members with
      | some j => decodeBytes j
      | none =>
        match Json.lookup (Text.ofString "type") members with
        | some _ => ofMembers members (decodeMembers members)
        | none => .error (refuse (.fieldValue (.obj members))) := by
  unfold decodeField
  rfl

end Reading

end Value

end HiddenOrder
