import HiddenOrder.Proofs.RoundTrip
import HiddenOrder.Proofs.Schema

/-!
# Accepted data has a canonical form

Reading accepts more than writing produces: members that no field is named after, numerals with
blanks, signs and underscores, base64 with characters of other alphabets, and in every field any
value that can be read at all, records inside records included.  All that is gone once the record is
written again.  A value that was read has nothing foreign in it, and its integers are within the
limit under which they were read; so it can be written and read back, and what can differ then —
roots inside a record are a plain tuple afterwards — is not seen by writing.  What is written from a
record that was read is therefore the one form that it keeps.

* `Value.Native.encodeField_reread` — a value and what it is read back as are written alike.
* `Value.Admissible`, **`Value.admissible_of_decodeField`** — what is read in a field has nothing
  foreign in it, and can be written.
* **`Value.Canonical`** — a value is written in a form that is read and written again unchanged.
* **`Value.deserialize_canonical`** — every value that is read from an object is.
-/

namespace HiddenOrder

namespace Value

section

variable [DigitLimit]

/-! ## Values that are written alike -/

lemma encodeItems_rereadAll {items : List Value}
    (h : ∀ v ∈ items, encodeField v.reread = encodeField v) :
    encodeItems (rereadAll items) = encodeItems items := by
  induction items with
  | nil => rw [rereadAll]
  | cons v items ih =>
      obtain ⟨hv, hitems⟩ := List.forall_mem_cons.mp h
      rw [rereadAll, encodeItems, encodeItems, hv, ih hitems]

/-- Roots are written as the tuple that they are read back as, also deep inside a record. -/
lemma Native.encodeField_reread {v : Value} (h : v.Native) :
    encodeField v.reread = encodeField v := by
  induction h with
  | int n => rw [reread]
  | bytes b => rw [reread]
  | tuple _ ih => rw [reread, encodeField, encodeField, encodeItems_rereadAll ih]
  | four w => rw [reread, encodeField_ints, encodeField]
  | three w => rw [reread, encodeField_ints, encodeField]
  | @record v tag fields hv _ ih =>
      have hfields : (fields.map fun f => (f.1, f.2.reread)).map (fun f => (f.1, encodeField f.2))
          = fields.map fun f => (f.1, encodeField f.2) := by
        rw [List.map_map]
        refine List.map_congr_left fun f hf => ?_
        rw [Function.comp_apply, ih f hf]
      rw [encodeField_of_asRecord hv, encodeField_of_asRecord (asRecord_reread hv), hfields]

/-! ## Values that were read -/

/-- There is nothing foreign in the value, and its integers can be written. -/
structure Admissible (v : Value) : Prop where
  native : v.Native
  short : v.Short

lemma admissible_of_asRecord {v : Value} {tag : String} {fields : List (String × Value)}
    (hv : v.asRecord = some (tag, fields)) (h : ∀ f ∈ fields, f.2.Admissible) : v.Admissible where
  native := .record hv fun f hf => (h f hf).native
  short := (short_of_asRecord hv).mpr fun f hf => (h f hf).short

/-- The fields of a record that was read are admissible, if that is so for what its members are read
as. -/
lemma admissible_fields {members : List (Text × Json)} {k : RecordKind} {vs : List Value}
    (hmembers : ∀ m ∈ members, ∀ v, decodeField m.2 = .ok v → v.Admissible)
    (hfields : List.Forall₂ (ReadAt members) k.names vs) :
    ∀ f ∈ k.names.zip vs, f.2.Admissible := by
  rintro f hf
  obtain ⟨j, hj, hdecoded⟩ := List.forall₂_zip hfields hf
  exact hmembers _ (Json.mem_of_lookup hj) _ hdecoded

/-- Bytes are bytes. -/
lemma admissible_of_decodeBytes {j : Json} {v : Value} (h : decodeBytes j = .ok v) :
    v.Admissible := by
  rw [decodeBytes.eq_def] at h
  split at h
  · split_ifs at h
    split at h
    · cases h
      exact ⟨.bytes _, by simp [Short, numbers]⟩
    · cases h
  · cases h

/-- An integer that is read can be written. -/
lemma writable_of_decodeInt {j : Json} {n : Int} (h : decodeInt j = .ok n) : Writable n := by
  rw [decodeInt.eq_def] at h
  split at h
  · dsimp only at h
    split at h
    · next hread =>
        cases h
        exact Decimal.writable_of_read hread
    · cases h
  · cases h

/-- So can all that are read together. -/
lemma writable_of_decodeIntList {items : List Json} {ns : List Int}
    (h : decodeIntList items = .ok ns) : ∀ n ∈ ns, Writable n := by
  induction items generalizing ns with
  | nil =>
      cases h
      exact List.forall_mem_nil _
  | cons j items ih =>
      obtain ⟨n, hn, h⟩ := bind_eq_ok.mp h
      obtain ⟨rest, hrest, ⟨⟩⟩ := bind_eq_ok.mp h
      exact List.forall_mem_cons.mpr ⟨writable_of_decodeInt hn, ih hrest⟩

lemma writable_of_rootValues {members : List (Text × Json)} {ns : List Int}
    (h : rootValues members = .ok ns) : ∀ n ∈ ns, Writable n := by
  rw [rootValues] at h
  split at h
  · obtain ⟨items, -, h⟩ := bind_eq_ok.mp h
    exact writable_of_decodeIntList h
  · cases h

/-- **What is read from an object is admissible**, if that is so for its members. -/
lemma admissible_of_ofMembers {members : List (Text × Json)} {v : Value}
    (hmembers : ∀ m ∈ members, ∀ v, decodeField m.2 = .ok v → v.Admissible)
    (h : ofMembers members (decodeMembers members) = .ok v) : v.Admissible := by
  rcases ofMembers_eq_ok h with ⟨w, rfl, hw⟩ | ⟨w, rfl, hw⟩ | ⟨k, vs, -, hbuild, hfields⟩
  · exact ⟨.four w, by rw [Short, numbers]; exact writable_of_rootValues hw⟩
  · exact ⟨.three w, by rw [Short, numbers]; exact writable_of_rootValues hw⟩
  · exact admissible_of_asRecord (build_eq_ok hbuild).1 (admissible_fields hmembers hfields)

/-- **What is read in a field has nothing foreign in it**, and can be written: whatever the JSON value
holds that no value is made of is refused or left out. -/
theorem admissible_of_decodeField (j : Json) : ∀ v, decodeField j = .ok v → v.Admissible := by
  induction j using Json.induction with
  | null => rintro v ⟨⟩
  | bool b => rintro v ⟨⟩
  | int n => rintro v ⟨⟩
  | fraction x => rintro v ⟨⟩
  | str t =>
      intro v h
      rw [decodeField] at h
      obtain ⟨n, hn, ⟨⟩⟩ := bind_eq_ok.mp h
      exact ⟨.int n, short_int.mp (writable_of_decodeInt hn)⟩
  | arr items ih =>
      intro v h
      obtain ⟨vs, rfl, hitems⟩ := decodeField_arr_eq_ok.mp h
      have hvs : ∀ w ∈ vs, w.Admissible := by
        intro w hw
        obtain ⟨j, hj, hdecoded⟩ := exists_left_of_mem hitems hw
        exact ih j hj w hdecoded
      exact ⟨.tuple fun w hw => (hvs w hw).native, short_tuple.mpr fun w hw => (hvs w hw).short⟩
  | obj members ih =>
      intro v h
      rw [decodeField_obj] at h
      split at h
      · exact admissible_of_decodeBytes h
      · split at h
        · exact admissible_of_ofMembers ih h
        · cases h

/-! ## The canonical form -/

/-- The value is written, and what is written is read, and written again unchanged. -/
def Canonical (v : Value) : Prop :=
  ∃ j w, v.serialize = .ok j ∧ deserialize j = .ok w ∧ w.serialize = .ok j

lemma canonical_of_readBack {v : Value} (h : v.ReadBack v) : v.Canonical := by
  obtain ⟨j, hj, hread⟩ := h.object
  exact ⟨j, v, hj, hread, hj⟩

/-- A record with admissible fields has a canonical form. -/
lemma canonical_of_asRecord {v : Value} {tag : String} {fields : List (String × Value)}
    (hv : v.asRecord = some (tag, fields)) (h : ∀ f ∈ fields, f.2.Admissible) : v.Canonical := by
  have hadmissible := admissible_of_asRecord hv h
  have hsurvives := Native.survives hv fun f hf => (h f hf).native
  obtain ⟨j, hj, hread⟩ := (hsurvives.readBack hadmissible.short).object
  refine ⟨j, v.reread, hj, hread, ?_⟩
  rw [serialize_of_asRecord (asRecord_reread hv), hadmissible.native.encodeField_reread,
    ← serialize_of_asRecord hv, hj]

/-- **Accepted data has a canonical form.**  From whatever JSON value a record is read, it is
written, and what is written is read and written again unchanged. -/
theorem deserialize_canonical {d : Json} {v : Value} (h : deserialize d = .ok v) :
    v.Canonical := by
  rw [deserialize.eq_def] at h
  split at h
  · have hmembers (m : Text × Json) := admissible_of_decodeField m.2
    have hshort := (admissible_of_ofMembers (fun m _ => hmembers m) h).short
    rcases ofMembers_eq_ok h with ⟨w, rfl, -⟩ | ⟨w, rfl, -⟩ | ⟨k, vs, -, hbuild, hfields⟩
    · exact canonical_of_readBack ((survives_four w).readBack hshort)
    · exact canonical_of_readBack ((survives_three w).readBack hshort)
    · exact canonical_of_asRecord (build_eq_ok hbuild).1
        (admissible_fields (fun m _ => hmembers m) hfields)
  · cases h

end

/-- A record that is read although nothing in it is as it would be written: an object of roots
for the first four numbers, in numerals of many forms; base64 with a mark in it; an integer, bytes
and a proof where tuples and an integer belong; and a member that no field is named after. -/
def looseRecord : Json :=
  .obj
    [(Text.ofString "tt", .obj [(Text.ofString "type", Json.ofString "PoEProof"),
        (Text.ofString "Q", .arr [.arr [], Json.ofString "007"])]),
      (Text.ofString "commitments", .obj [(Text.ofString "values",
          .arr [Json.ofString " +0_1", Json.ofString "-0", Json.ofString "٣", Json.ofString "4 "]),
        (Text.ofString "type", Json.ofString "FourInt")]),
      (Text.ofString "type", Json.ofString "NonNegativeProof"),
      (Text.ofString "delta", .obj [(Text.ofString "b64", Json.ofString "Q!Q==")]),
      (Text.ofString "z", Json.ofString "1_0"),
      (Text.ofString "t", .obj [(Text.ofString "b64", Json.ofString "")]),
      (Text.ofString "remark", .null)]

open Unlimited in
/-- What it is read as, and with it the canonical form. -/
theorem deserialize_canonical_loose :
    ∃ v, deserialize looseRecord = .ok v ∧ v.Canonical := by
  have hread : deserialize looseRecord = .ok (.nonNegative (.four ⟨1, 0, 3, 4⟩) (.bytes [65])
      (.int 10) (.bytes []) (.poe (.tuple [.tuple [], .int 7]))) := by
    rfl
  exact ⟨_, hread, deserialize_canonical hread⟩

end Value

end HiddenOrder
