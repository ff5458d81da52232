import HiddenOrder.Proofs.Record

/-!
# Group parameters, proofs and roots survive

Eight kinds of objects are written down, as JSON objects or as texts, and read back.  Six of them
are records with named fields, for which it is enough that their fields are read back; the roots are
tagged rows of integers.  What is read back is not only an object of the same kind but the same
object, since different objects are different values.  The limit on numerals is all that stands in
the way: an object with an integer beyond it is not written at all.

* `Value.ReadBack` — a value is written, and what is read back, from the object and from its text.
* `Value.Survives` — a value is read back when its integers can be written, and only then written.
* **`Value.Native.survives`** — every record with nothing foreign in it survives.
* `RoundTrips` — the objects of a kind survive as themselves.
* **`records_round_trip`** — all eight kinds of objects do.
-/

namespace HiddenOrder

variable [DigitLimit]

namespace Value

/-! ## Objects and texts -/

/-- The value is written, and what is read back is `w`, from the object and from its text. -/
structure ReadBack (v w : Value) : Prop where
  object : ∃ j, v.serialize = .ok j ∧ deserialize j = .ok w
  text : ∃ t, v.toJsonText = .ok t ∧ ofJsonText t = .ok w

/-- The value is written and read back as `w` when its integers can be written, and otherwise there
is nothing but the fault. -/
structure Survives (v w : Value) : Prop where
  readBack : v.Short → ReadBack v w
  tooLong : ¬v.Short → v.serialize = .error (.fault .longNumeral) ∧
    v.toJsonText = .error (.fault .longNumeral)

/-- The object of a value in two orders of its keys. -/
structure ReadsBack (j : Json) (w : Value) : Prop where
  plain : j.Plain
  object : deserialize j = .ok w
  sortedObject : deserialize j.sorted = .ok w

lemma Survives.of_writes {v w : Value} (h : WritesWhen v.Short v.serialize (ReadsBack · w)) :
    Survives v w where
  readBack hshort := by
    obtain ⟨j, hj, hreads⟩ := h.written hshort
    refine ⟨⟨j, hj, hreads.object⟩, j.sorted.text, ?_, ?_⟩
    · rw [toJsonText, hj, ok_bind, hreads.plain.sorted.write_print]
    · rw [ofJsonText, Json.parse_text hreads.plain.sorted]
      exact hreads.sortedObject
  tooLong hshort := by
    rw [toJsonText, h.tooLong hshort]
    exact ⟨rfl, rfl⟩

/-- **A record with nothing foreign in it survives**, with plain tuples for the roots in it. -/
theorem Native.survives {v : Value} {tag : String} {fields : List (String × Value)}
    (hv : v.asRecord = some (tag, fields)) (h : ∀ f ∈ fields, f.2.Native) :
    Survives v v.reread := by
  have hwrites := writes_record hv fun f hf => (h f hf).writes
  rw [← serialize_of_asRecord hv] at hwrites
  exact .of_writes (hwrites.mono fun j hreads =>
    ⟨hreads.plain, hreads.object, hreads.sortedObject⟩)

/-- The object of roots. -/
def rootsObject (tag : String) (values : List Int) : Json :=
  .obj [(Text.ofString "type", Json.ofString tag),
    (Text.ofString "values", .arr (values.map fun n => .str (Decimal.numeral n)))]

lemma writes_taggedValues (tag : String) (values : List Int) :
    WritesWhen (∀ n ∈ values, Writable n) (taggedValues tag values)
      (· = rootsObject tag values) := by
  rw [taggedValues, tagged, members, encodeInts, encodeIntList_eq]
  constructor
  · intro hshort
    rw [if_pos hshort]
    exact ⟨_, rfl, rfl⟩
  · intro hlong
    rw [if_neg hlong]
    rfl

omit [DigitLimit] in
lemma sorted_rootsObject (tag : String) (values : List Int) :
    (rootsObject tag values).sorted = rootsObject tag values := by
  have hlt : Text.ofString "type" < Text.ofString "values" := by decide
  rw [rootsObject, Json.sorted, Json.sortedMembers, Json.sortedMembers, Json.sortedMembers,
    Json.insertMember, Json.insertMember, if_pos hlt, Json.sorted, Json.sortedItems_eq_map,
    List.map_map]
  rfl

/-- Roots that stand alone have a tag, and are read back under it. -/
lemma survives_taggedValues {tag : String} {values : List Int} {v : Value}
    (hv : v.serialize = taggedValues tag values) (hnumbers : v.numbers = values)
    (htag : (Text.ofString tag).Plain)
    (hroots : ∀ members decoded, rootValues members = .ok values →
      ofTag (Text.ofString tag) members decoded = .ok v) : Survives v v := by
  refine .of_writes ⟨fun hshort => ?_, fun hlong => ?_⟩
  · rw [Short, hnumbers] at hshort
    obtain ⟨_, hj, rfl⟩ := (writes_taggedValues tag values).written hshort
    have hobject : deserialize (rootsObject tag values) = .ok v := by
      rw [rootsObject, deserialize, ofMembers, Json.lookup, if_pos rfl]
      refine hroots _ _ ?_
      rw [rootValues, Json.lookup, if_neg (by decide), Json.lookup, if_pos rfl]
      exact decodeIntList_numerals hshort
    have hvalues : (Json.arr (values.map fun n => .str (Decimal.numeral n))).Plain := by
      refine .arr fun j hj => ?_
      obtain ⟨n, hn, rfl⟩ := List.mem_map.mp hj
      exact (reads_numeral (hshort n hn)).plain
    refine ⟨_, hv.trans hj, .obj ?_ ?_ ?_, hobject, by rw [sorted_rootsObject]; exact hobject⟩
    · simp only [List.map_cons, List.map_nil]
      decide
    · simp only [List.forall_mem_cons]
      decide
    · simp only [List.forall_mem_cons]
      exact ⟨.str htag, hvalues, by simp⟩
  · rw [Short, hnumbers] at hlong
    rw [hv, (writes_taggedValues tag values).tooLong hlong]

theorem survives_four (w : FourInt) : Survives (.four w) (.four w) := by
  refine survives_taggedValues rfl (by rw [numbers]) (by decide) fun members decoded hvalues => ?_
  rw [ofTag, if_pos rfl, hvalues]
  rfl

theorem survives_three (w : ThreeInt) : Survives (.three w) (.three w) := by
  refine survives_taggedValues rfl (by rw [numbers]) (by decide) fun members decoded hvalues => ?_
  rw [ofTag, if_neg (by decide), if_pos rfl, hvalues]
  rfl

end Value

/-! ## The objects of the library -/

/-- The objects of a kind are different values when they are different, and each survives as itself:
when its integers can be written it is written and read back, from its object and from its text. -/
structure RoundTrips {α : Type} (embed : α → Value) : Prop where
  injective : Function.Injective embed
  survives : ∀ a, (embed a).Survives (embed a)

namespace Value

omit [DigitLimit] in
lemma native_ints (ns : List Int) : (ints ns).Native := by
  refine .tuple fun v hv => ?_
  obtain ⟨n, -, rfl⟩ := List.mem_map.mp hv
  exact .int n

omit [DigitLimit] in
lemma reread_ints (ns : List Int) : (ints ns).reread = ints ns := by
  rw [ints, reread, rereadAll_ints]

omit [DigitLimit] in
lemma ints_injective : Function.Injective ints := by
  intro ms ns h
  have hint : Function.Injective Value.int := fun m n h => Value.int.inj h
  exact List.map_injective_iff.mpr hint (Value.tuple.inj h)

omit [DigitLimit] in
lemma native_ofNonNegative (p : NonNegative.Proof) :
    ∀ f ∈ [("commitments", ints p.commitments), ("delta", .bytes p.delta), ("z", ints p.z),
      ("t", ints p.t), ("tt", .int p.tt)], f.2.Native := by
  simp only [List.forall_mem_cons]
  exact ⟨native_ints _, .bytes _, native_ints _, native_ints _, .int _, by simp⟩

omit [DigitLimit] in
lemma reread_ofNonNegative (p : NonNegative.Proof) :
    (ofNonNegative p).reread = ofNonNegative p := by
  rw [ofNonNegative, reread, reread_ints, reread_ints, reread_ints, reread, reread]

end Value

/-- Records that hold no roots survive as themselves. -/
lemma RoundTrips.of_records {α : Type} {embed : α → Value} {tag : String}
    {fields : α → List (String × Value)} (hinj : Function.Injective embed)
    (hrecord : ∀ a, (embed a).asRecord = some (tag, fields a))
    (hnative : ∀ a, ∀ f ∈ fields a, f.2.Native) (hself : ∀ a, (embed a).reread = embed a) :
    RoundTrips embed where
  injective := hinj
  survives a := by
    have hread := Value.Native.survives (hrecord a) (hnative a)
    rwa [hself a] at hread

namespace Value

theorem roundTrips_group : RoundTrips group := by
  refine .of_records (fun _ _ => group.inj) (fun _ => rfl) (fun pp => ?_) fun pp => ?_
  · simp only [List.forall_mem_cons]
    exact ⟨.int _, .int _, .int _, by simp⟩
  · rw [reread]

theorem roundTrips_ofPoE : RoundTrips ofPoE := by
  refine .of_records ?_ (fun _ => rfl) (fun p => ?_) fun p => ?_
  · rintro ⟨Q⟩ ⟨Q'⟩ h
    cases h
    rfl
  · simp only [List.forall_mem_cons]
    exact ⟨.int _, by simp⟩
  · rw [ofPoE, reread, reread]

theorem roundTrips_ofPoKEStar : RoundTrips ofPoKEStar := by
  refine .of_records ?_ (fun _ => rfl) (fun p => ?_) fun p => ?_
  · rintro ⟨Q, r⟩ ⟨Q', r'⟩ h
    cases h
    rfl
  · simp only [List.forall_mem_cons]
    exact ⟨.int _, .int _, by simp⟩
  · rw [ofPoKEStar, reread, reread, reread]

theorem roundTrips_ofZKPoKE : RoundTrips ofZKPoKE := by
  refine .of_records ?_ (fun _ => rfl) (fun p => ?_) fun p => ?_
  · rintro ⟨z, Ag, Au, Qg, Qu, rx, rrho⟩ ⟨z', Ag', Au', Qg', Qu', rx', rrho'⟩ h
    cases h
    rfl
  · simp only [List.forall_mem_cons]
    exact ⟨.int _, .int _, .int _, .int _, .int _, .int _, .int _, by simp⟩
  · simp only [ofZKPoKE, reread]

omit [DigitLimit] in
lemma ofNonNegative_injective : Function.Injective ofNonNegative := by
  rintro ⟨commitments, delta, z, t, tt⟩ ⟨commitments', delta', z', t', tt'⟩ h
  obtain ⟨hcommitments, hdelta, hz, ht, htt⟩ := nonNegative.inj h
  cases ints_injective hcommitments
  cases bytes.inj hdelta
  cases ints_injective hz
  cases ints_injective ht
  cases int.inj htt
  rfl

theorem roundTrips_ofNonNegative : RoundTrips ofNonNegative :=
  .of_records ofNonNegative_injective (fun _ => rfl) native_ofNonNegative reread_ofNonNegative

theorem roundTrips_ofInterval : RoundTrips ofInterval := by
  refine .of_records ?_ (fun _ => rfl) (fun p => ?_) fun p => ?_
  · rintro ⟨lower, upper⟩ ⟨lower', upper'⟩ h
    obtain ⟨hlower, hupper⟩ := interval.inj h
    cases ofNonNegative_injective hlower
    cases ofNonNegative_injective hupper
    rfl
  · simp only [List.forall_mem_cons]
    exact ⟨.record rfl (native_ofNonNegative p.lower),
      .record rfl (native_ofNonNegative p.upper), by simp⟩
  · rw [ofInterval, reread, reread_ofNonNegative, reread_ofNonNegative]

theorem roundTrips_four : RoundTrips four := ⟨fun _ _ => four.inj, survives_four⟩

theorem roundTrips_three : RoundTrips three := ⟨fun _ _ => three.inj, survives_three⟩

end Value

/-- **Group parameters, proofs and roots are read back as themselves**, from objects and from texts:
whatever the lengths of the tuples and of the bytes are, and whatever the numbers are that can be
written.  Without a limit these are all numbers; under a limit an object with another number is not
written, and the fault says so. -/
theorem records_round_trip :
    RoundTrips Value.group ∧ RoundTrips Value.ofPoE ∧ RoundTrips Value.ofPoKEStar ∧
      RoundTrips Value.ofZKPoKE ∧ RoundTrips Value.ofNonNegative ∧ RoundTrips Value.ofInterval ∧
      RoundTrips Value.four ∧ RoundTrips Value.three :=
  ⟨Value.roundTrips_group, Value.roundTrips_ofPoE, Value.roundTrips_ofPoKEStar,
    Value.roundTrips_ofZKPoKE, Value.roundTrips_ofNonNegative, Value.roundTrips_ofInterval,
    Value.roundTrips_four, Value.roundTrips_three⟩

end HiddenOrder
