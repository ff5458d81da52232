import HiddenOrder.Proofs.Canonical

/-!
# Malformed records

A record that comes from outside should be read or refused.  Refusals are what the numerals, the
tags, the kinds of values in a field and the conditions on group parameters are answered with; but
that a field is there, that base64 can be decoded, that roots are as many as they should be and that
group parameters are integers is left to the layer below, and its faults reach the caller.  So does
the fault of a refusal that shows an integer beyond the limit on numerals.  Fields of proofs are not
checked at all: any value that can be read is taken.

The mishaps are described by an inductive relation on the data: where in the value the first thing
is that cannot be read, everything before it being readable, and what is wrong there.

* `Json.Long` — a value with an integer in it that is too long to be shown.
* **`Value.RecordMishap`**, `Value.FieldMishap`, `Value.MemberMishap` — the mishaps of a record, of
  the value of a field and of a field.
* **`Value.decodeField_eq_error`** — what escapes from reading a field is a mishap.
* **`Value.Declared`** — the values that hold what their kind declares.
* `Value.Misfit` — every field is read, but not all of them hold what is declared.
* **`Value.deserialize_conforms_iff`** — an object is read as a declared value, or refused, exactly
  when there is no mishap in it and no misfit.
* **`Value.deserialize_escapes`** — objects that five different faults escape from.
-/

namespace HiddenOrder

/-- A failure that is no refusal of an input. -/
def Error.Escapes (e : Error) : Prop := ∀ cause, e ≠ .precondition cause

lemma OkOrRefused.of_not_escapes {α : Type} {P : α → Prop} {r : Except Error α}
    (hok : ∀ a, r = .ok a → P a) (herror : ∀ e, e.Escapes → r ≠ .error e) : OkOrRefused P r := by
  cases r with
  | ok a => exact .ok (hok a rfl)
  | error e =>
      by_cases he : ∃ cause, e = .precondition cause
      · obtain ⟨cause, rfl⟩ := he
        exact .refused cause
      · exact absurd rfl (herror e fun cause hcause => he ⟨cause, hcause⟩)

lemma OkOrRefused.not_escapes {α : Type} {P : α → Prop} {r : Except Error α} {e : Error}
    (h : OkOrRefused P r) (he : e.Escapes) : r ≠ .error e := by
  rintro rfl
  rcases h with ⟨_, ⟨⟩, _⟩ | ⟨cause, hcause⟩
  exact he cause (Except.error.inj hcause)

/-- Nothing but a number, a truth value or nothing at all. -/
def Json.IsScalar : Json → Prop
  | .null => True
  | .bool _ => True
  | .int _ => True
  | .fraction _ => True
  | _ => False

section

variable [DigitLimit]

/-- Somewhere in the value there is an integer that is too long to be written. -/
inductive Json.Long : Json → Prop where
  | int {n : Int} (hn : ¬Writable n) : Long (.int n)
  | item {items : List Json} {j : Json} (hmem : j ∈ items) (hj : Long j) : Long (.arr items)
  | member {members : List (Text × Json)} {m : Text × Json} (hmem : m ∈ members)
    (hj : Long m.2) : Long (.obj members)

namespace Value

/-! ## Mishaps -/

/-- Bytes that cannot be decoded. -/
inductive BytesMishap : Json → Error → Prop where
  /-- Not a text. -/
  | kind {j : Json} (hj : ∀ t, j ≠ .str t) : BytesMishap j (.fault .wrongKind)
  /-- A text with a character beyond ASCII. -/
  | foreign {t : Text} (ht : ∃ c ∈ t, 128 ≤ c) : BytesMishap (.str t) (.fault .foreignBase64)
  /-- An ASCII text that no bytes are written as. -/
  | malformed {t : Text} (ht : ∀ c ∈ t, c < 128) (hdecode : Base64.decode t = none) :
    BytesMishap (.str t) (.fault .malformedBase64)

/-- Roots that are not there, that are no list, that are not as many as they should be, or among
which the first thing that is no numeral cannot be shown. -/
inductive RootsMishap (count : Nat) (members : List (Text × Json)) : Error → Prop where
  | missing (h : Json.lookup (Text.ofString "values") members = none) :
    RootsMishap count members (.fault (.missingField "values"))
  | kind {j : Json} (h : Json.lookup (Text.ofString "values") members = some j)
    (hj : j.IsScalar) : RootsMishap count members (.fault .wrongKind)
  | count {j : Json} {ns : List Int}
    (h : Json.lookup (Text.ofString "values") members = some j) (hj : decodeInts j = .ok ns)
    (hlength : ns.length ≠ count) : RootsMishap count members (.fault .valueCount)
  | long {before after : List Json} {j : Json}
    (h : Json.lookup (Text.ofString "values") members = some (.arr (before ++ j :: after)))
    (hbefore : ∀ i ∈ before, ∃ n, decodeInt i = .ok n) (hj : j.Long) :
    RootsMishap count members (.fault .longNumeral)

/-- Group parameters whose conditions meet something that is no integer, the conditions before it
being satisfied. -/
inductive Incomparable : Value → Value → Value → Prop where
  | modulus {N G H : Value} (hN : ∀ n, N ≠ .int n) : Incomparable N G H
  | first {n : Int} {G H : Value} (hn : 3 ≤ n) (hG : ∀ g, G ≠ .int g) : Incomparable (.int n) G H
  | second {n g : Int} {H : Value} (hn : 3 ≤ n) (hg : 1 < g ∧ g < n) (hgcd : Int.gcd g n = 1)
    (hH : ∀ h, H ≠ .int h) : Incomparable (.int n) (.int g) H

mutual

/-- Reading the value of a field ends with a fault: in the first item of a tuple that is not read,
in bytes, or in a record; or the value is refused and cannot be shown. -/
inductive FieldMishap : Json → Error → Prop where
  | item {before after : List Json} {j : Json} {e : Error}
    (hbefore : ∀ i ∈ before, ∃ v, decodeField i = .ok v) (hj : FieldMishap j e) :
    FieldMishap (.arr (before ++ j :: after)) e
  | bytes {members : List (Text × Json)} {j : Json} {e : Error}
    (hb64 : Json.lookup (Text.ofString "b64") members = some j) (hj : BytesMishap j e) :
    FieldMishap (.obj members) e
  | record {members : List (Text × Json)} {j : Json} {e : Error}
    (hb64 : Json.lookup (Text.ofString "b64") members = none)
    (htype : Json.lookup (Text.ofString "type") members = some j)
    (hrecord : RecordMishap members e) : FieldMishap (.obj members) e
  | long {n : Int} (hn : ¬Writable n) : FieldMishap (.int n) (.fault .longNumeral)
  | untagged {members : List (Text × Json)}
    (hb64 : Json.lookup (Text.ofString "b64") members = none)
    (htype : Json.lookup (Text.ofString "type") members = none)
    (hlong : (Json.obj members).Long) : FieldMishap (.obj members) (.fault .longNumeral)

/-- Reading a field ends with a fault: it is not there, or its value ends with one. -/
inductive MemberMishap : List (Text × Json) → String → Error → Prop where
  | missing {members : List (Text × Json)} {name : String}
    (h : Json.lookup (Text.ofString name) members = none) :
    MemberMishap members name (.fault (.missingField name))
  | value {members : List (Text × Json)} {name : String} {j : Json} {e : Error}
    (h : Json.lookup (Text.ofString name) members = some j) (hj : FieldMishap j e) :
    MemberMishap members name e

/-- Reading a record ends with a fault: in its tag, in its roots, in the first of its fields that is
not read, or in the conditions on group parameters. -/
inductive RecordMishap : List (Text × Json) → Error → Prop where
  | tag {members : List (Text × Json)} {j : Json}
    (htype : Json.lookup (Text.ofString "type") members = some j) (hj : j.IsNested) :
    RecordMishap members (.fault .wrongKind)
  | long {members : List (Text × Json)} {n : Int}
    (htype : Json.lookup (Text.ofString "type") members = some (.int n)) (hn : ¬Writable n) :
    RecordMishap members (.fault .longNumeral)
  | four {members : List (Text × Json)} {e : Error} (htag : Tagged members "FourInt")
    (hroots : RootsMishap 4 members e) : RecordMishap members e
  | three {members : List (Text × Json)} {e : Error} (htag : Tagged members "ThreeInt")
    (hroots : RootsMishap 3 members e) : RecordMishap members e
  | fields {members : List (Text × Json)} {k : RecordKind} {before after : List String}
    {name : String} {e : Error} (htag : Tagged members k.tag)
    (hnames : k.names = before ++ name :: after)
    (hbefore : ∀ n ∈ before, ∃ v, ReadAt members n v) (hname : MemberMishap members name e) :
    RecordMishap members e
  | generators {members : List (Text × Json)} {N G H : Value}
    (htag : Tagged members RecordKind.group.tag)
    (hfields : List.Forall₂ (ReadAt members) RecordKind.group.names [N, G, H])
    (h : Incomparable N G H) : RecordMishap members (.fault .wrongKind)

end

/-! ## What is left to the layer below -/

omit [DigitLimit] in
lemma BytesMishap.isFault {j : Json} {e : Error} (h : BytesMishap j e) : ∃ f, e = .fault f := by
  cases h <;> exact ⟨_, rfl⟩

lemma RootsMishap.isFault {count : Nat} {members : List (Text × Json)} {e : Error}
    (h : RootsMishap count members e) : ∃ f, e = .fault f := by
  cases h <;> exact ⟨_, rfl⟩

mutual

lemma FieldMishap.isFault {j : Json} {e : Error} : FieldMishap j e → ∃ f, e = .fault f
  | .item _ hj => hj.isFault
  | .bytes _ hj => hj.isFault
  | .record _ _ hrecord => hrecord.isFault
  | .long _ => ⟨_, rfl⟩
  | .untagged _ _ _ => ⟨_, rfl⟩

lemma MemberMishap.isFault {members : List (Text × Json)} {name : String} {e : Error} :
    MemberMishap members name e → ∃ f, e = .fault f
  | .missing _ => ⟨_, rfl⟩
  | .value _ hj => hj.isFault

/-- A mishap is a fault of the layer below. -/
lemma RecordMishap.isFault {members : List (Text × Json)} {e : Error} :
    RecordMishap members e → ∃ f, e = .fault f
  | .tag _ _ => ⟨_, rfl⟩
  | .long _ _ => ⟨_, rfl⟩
  | .four _ hroots => hroots.isFault
  | .three _ hroots => hroots.isFault
  | .fields _ _ _ hname => hname.isFault
  | .generators _ _ _ => ⟨_, rfl⟩

end

lemma RecordMishap.escapes {members : List (Text × Json)} {e : Error}
    (h : RecordMishap members e) : e.Escapes := by
  obtain ⟨f, rfl⟩ := h.isFault
  exact nofun

end Value

/-! ## Refusals that cannot be put into words -/

namespace Json

omit [DigitLimit] in
lemma numbers_displayItems (items : List Json) :
    (displayItems items).numbers = items.flatMap fun j => j.display.numbers := by
  induction items with
  | nil =>
      rw [displayItems]
      rfl
  | cons j items ih =>
      cases items with
      | nil => rw [displayItems, List.flatMap_cons, List.flatMap_nil, List.append_nil]
      | cons j' items =>
          rw [displayItems, Wording.numbers_append, List.flatMap_cons, ← ih]
          · rfl
          · rintro ⟨⟩

omit [DigitLimit] in
lemma numbers_displayMembers (members : List (Text × Json)) :
    (displayMembers members).numbers = members.flatMap fun m => m.2.display.numbers := by
  induction members with
  | nil =>
      rw [displayMembers]
      rfl
  | cons m members ih =>
      cases members with
      | nil =>
          rw [displayMembers, List.flatMap_cons, List.flatMap_nil, List.append_nil]
          rfl
      | cons m' members =>
          rw [displayMembers, Wording.numbers_append, List.flatMap_cons, ← ih]
          · rfl
          · rintro ⟨⟩

/-- **A value can be shown** when no integer in it is too long. -/
theorem fits_display (j : Json) : j.display.Fits ↔ ¬j.Long := by
  induction j using Json.induction with
  | null => exact iff_of_true (by rw [display]; exact List.forall_mem_nil _) (by rintro ⟨⟩)
  | bool b =>
      refine iff_of_true ?_ (by rintro ⟨⟩)
      cases b <;> rw [display] <;> exact List.forall_mem_nil _
  | int n =>
      rw [display, Wording.Fits]
      refine List.forall_mem_singleton.trans ⟨fun hn h => ?_, fun h => ?_⟩
      · cases h with
        | int hlong => exact hlong hn
      · by_contra hn
        exact h (.int hn)
  | fraction x => exact iff_of_true (by rw [display]; exact List.forall_mem_nil _) (by rintro ⟨⟩)
  | str t => exact iff_of_true (by rw [display]; exact List.forall_mem_nil _) (by rintro ⟨⟩)
  | arr items ih =>
      have hnumbers : (arr items).display.numbers
          = items.flatMap fun j => j.display.numbers := by
        rw [display, Wording.numbers_append, ← numbers_displayItems]
        exact List.append_nil _
      rw [Wording.Fits, hnumbers, List.forall_mem_flatMap]
      refine ⟨fun hfits h => ?_, fun h j hj => (ih j hj).mpr fun hlong => h (.item hj hlong)⟩
      cases h with
      | item hj hlong => exact (ih _ hj).mp (hfits _ hj) hlong
  | obj members ih =>
      have hnumbers : (obj members).display.numbers
          = members.flatMap fun m => m.2.display.numbers := by
        rw [display, Wording.numbers_append, ← numbers_displayMembers]
        exact List.append_nil _
      rw [Wording.Fits, hnumbers, List.forall_mem_flatMap]
      refine ⟨fun hfits h => ?_, fun h m hm => (ih m hm).mpr fun hlong => h (.member hm hlong)⟩
      cases h with
      | member hm hlong => exact (ih _ hm).mp (hfits _ hm) hlong

end Json

/-- What escapes from a refusal is the fault that its text cannot be written. -/
lemma refuse_eq_iff {cause : Precondition} {e : Error} (he : e.Escapes) :
    refuse cause = e ↔ ¬cause.wording.Fits ∧ e = .fault .longNumeral := by
  rw [refuse_eq]
  split_ifs with hfits
  · exact iff_of_false (he cause).symm fun h => h.1 hfits
  · rw [eq_comm]
    exact (and_iff_right hfits).symm

namespace Value

section Leaves

variable {e : Error}

/-- What is no numeral is refused, and can be shown or not. -/
lemma decodeInt_eq_error (he : e.Escapes) {j : Json} :
    decodeInt j = .error e ↔ j.Long ∧ e = .fault .longNumeral := by
  have hrefused : (Except.error (refuse (.decimal j)) : Except Error Int) = .error e ↔
      j.Long ∧ e = .fault .longNumeral := by
    have hfits : (Precondition.decimal j).wording.Fits ↔ ¬j.Long := j.fits_display
    rw [Except.error.injEq, refuse_eq_iff he, hfits, not_not]
  rw [decodeInt.eq_def]
  split
  · dsimp only
    split
    · exact iff_of_false (fun h => by cases h) (by rintro ⟨⟨⟩, -⟩)
    · exact hrefused
  · exact hrefused

lemma decodeIntList_eq_mapM (items : List Json) : decodeIntList items = items.mapM decodeInt := by
  induction items with
  | nil => rfl
  | cons j items ih => rw [decodeIntList, List.mapM_cons, ih]

lemma decodeIntList_eq_error (he : e.Escapes) {items : List Json} :
    decodeIntList items = .error e ↔ e = .fault .longNumeral ∧ ∃ before j after,
      items = before ++ j :: after ∧ (∀ i ∈ before, ∃ n, decodeInt i = .ok n) ∧ j.Long := by
  rw [decodeIntList_eq_mapM, mapM_eq_error]
  simp only [decodeInt_eq_error he]
  constructor
  · rintro ⟨before, j, after, hitems, hbefore, hj, rfl⟩
    exact ⟨rfl, before, j, after, hitems, hbefore, hj⟩
  · rintro ⟨rfl, before, j, after, hitems, hbefore, hj⟩
    exact ⟨before, j, after, hitems, hbefore, hj, rfl⟩

/-- Texts can be shown. -/
lemma decodeIntList_texts (he : e.Escapes) {items : List Json}
    (h : ∀ i ∈ items, ∃ t, i = .str t) : decodeIntList items ≠ .error e := by
  intro herror
  obtain ⟨-, before, j, after, rfl, -, hj⟩ := (decodeIntList_eq_error he).mp herror
  obtain ⟨t, rfl⟩ := h j (by simp)
  cases hj

lemma decodeInts_eq_error (he : e.Escapes) {j : Json} :
    decodeInts j = .error e ↔ j.IsScalar ∧ e = .fault .wrongKind ∨
      e = .fault .longNumeral ∧ ∃ before i after, j = .arr (before ++ i :: after) ∧
        (∀ i ∈ before, ∃ n, decodeInt i = .ok n) ∧ i.Long := by
  rw [decodeInts]
  cases j with
  | arr items => simp [parts, Json.IsScalar, decodeIntList_eq_error he]
  | str t =>
      have htexts : decodeIntList (t.map fun c => .str [c]) ≠ .error e :=
        decodeIntList_texts he fun i hi => by
          obtain ⟨c, -, rfl⟩ := List.mem_map.mp hi
          exact ⟨[c], rfl⟩
      simp [parts, Json.IsScalar, htexts]
  | obj members =>
      have htexts : decodeIntList (members.map fun m => .str m.1) ≠ .error e :=
        decodeIntList_texts he fun i hi => by
          obtain ⟨m, -, rfl⟩ := List.mem_map.mp hi
          exact ⟨m.1, rfl⟩
      simp [parts, Json.IsScalar, htexts]
  | _ => simp [parts, Json.IsScalar, eq_comm]

omit [DigitLimit] in
lemma decodeBytes_eq_error {j : Json} : decodeBytes j = .error e ↔ BytesMishap j e := by
  constructor
  · intro h
    rw [decodeBytes.eq_def] at h
    split at h
    · split_ifs at h with hforeign
      · cases h
        simp only [List.any_eq_true, decide_eq_true_eq] at hforeign
        exact .foreign hforeign
      · split at h
        · cases h
        · cases h
          simp only [List.any_eq_true, decide_eq_true_eq, not_exists, not_and, Nat.not_le] at hforeign
          exact .malformed hforeign ‹_›
    · cases h
      exact .kind (by assumption)
  · rintro (hj | ht | ⟨ht, hdecode⟩)
    · rw [decodeBytes.eq_def]
      split
      · exact absurd rfl (hj _)
      · rfl
    · rw [decodeBytes, if_pos]
      simpa only [List.any_eq_true, decide_eq_true_eq] using ht
    · rw [decodeBytes, if_neg, hdecode]
      simpa only [List.any_eq_true, decide_eq_true_eq, not_exists, not_and, Nat.not_le] using ht

/-- Roots of either number are not there, no list, or not as many as they should be. -/
lemma rootValues_eq_error (he : e.Escapes) {α : Type} {members : List (Text × Json)} {count : Nat}
    {ofList : List Int → Except Error α}
    (hofList : ∀ ns, ofList ns = .error e ↔ ns.length ≠ count ∧ e = .fault .valueCount)
    {f : α → Value} : (do
      let values ← rootValues members
      let w ← ofList values
      pure (f w)) = .error e ↔ RootsMishap count members e := by
  have hbuild : ∀ ns, (do
      let w ← ofList ns
      pure (f w)) = .error e ↔ ns.length ≠ count ∧ e = .fault .valueCount := by
    intro ns
    rw [bind_eq_error, hofList]
    simp
  rw [bind_eq_error, rootValues]
  simp only [hbuild]
  cases hlookup : Json.lookup (Text.ofString "values") members with
  | none =>
      constructor
      · rintro (⟨⟨⟩⟩ | ⟨_, ⟨⟩, _⟩)
        exact .missing hlookup
      · rintro (_ | ⟨h, _⟩ | ⟨h, _, _⟩ | ⟨h, _, _⟩)
        · exact .inl rfl
        · simp [hlookup] at h
        · simp [hlookup] at h
        · simp [hlookup] at h
  | some j =>
      rw [decodeInts_eq_error he]
      constructor
      · rintro ((⟨hj, rfl⟩ | ⟨rfl, before, i, after, rfl, hbefore, hi⟩) | ⟨ns, hns, hlength, rfl⟩)
        · exact .kind hlookup hj
        · exact .long hlookup hbefore hi
        · exact .count hlookup hns hlength
      · rintro (h | ⟨h, hj⟩ | ⟨h, hj, hlength⟩ | ⟨h, hbefore, hi⟩)
        · simp [hlookup] at h
        · cases hlookup.symm.trans h
          exact .inl (.inl ⟨hj, rfl⟩)
        · cases hlookup.symm.trans h
          exact .inr ⟨_, hj, hlength, rfl⟩
        · cases hlookup.symm.trans h
          exact .inl (.inr ⟨rfl, _, _, _, rfl, hbefore, hi⟩)

omit [DigitLimit] in
lemma fourInt_ofList_eq_error {ns : List Int} :
    FourInt.ofList ns = .error e ↔ ns.length ≠ 4 ∧ e = .fault .valueCount := by
  rw [FourInt.ofList.eq_def]
  split
  · simp
  · rename_i hns
    have hlength : ns.length ≠ 4 := fun h => by
      rcases ns with _ | ⟨a, _ | ⟨b, _ | ⟨c, _ | ⟨d, _ | ⟨x, ns⟩⟩⟩⟩⟩ <;> simp at h
      exact hns a b c d rfl
    simp [hlength, eq_comm]

omit [DigitLimit] in
lemma threeInt_ofList_eq_error {ns : List Int} :
    ThreeInt.ofList ns = .error e ↔ ns.length ≠ 3 ∧ e = .fault .valueCount := by
  rw [ThreeInt.ofList.eq_def]
  split
  · simp
  · rename_i hns
    have hlength : ns.length ≠ 3 := fun h => by
      obtain ⟨a, b, c, rfl⟩ := List.length_eq_three.mp h
      exact hns a b c rfl
    simp [hlength, eq_comm]

/-- Conditions on group parameters that do not hold are refusals, with texts that show nothing but
the parameters. -/
lemma groupParameters_of_error {N G H : Int} (hN : Writable N) (hG : Writable G) (hH : Writable H)
    (h : GroupParameters.of N G H = .error e) : ¬e.Escapes := by
  have hrefused {cause : Precondition} (hfits : ∀ n ∈ cause.wording.numbers, Writable n)
      (hcause : refuse cause = e) : ¬e.Escapes := fun he =>
    ((refuse_eq_iff he).mp hcause).1 hfits
  rw [GroupParameters.of] at h
  split_ifs at h <;> cases h
  all_goals exact hrefused (List.forall_mem_singleton.mpr (by assumption)) rfl

omit [DigitLimit] in
lemma int_or_not (v : Value) : (∃ n, v = .int n) ∨ ∀ n, v ≠ .int n := by
  by_cases h : ∃ n, v = .int n
  · exact .inl h
  · exact .inr fun n hn => h ⟨n, hn⟩

lemma groupOf_modulus {N G H : Value} (hN : ∀ n, N ≠ .int n) :
    groupOf N G H = .error (.fault .wrongKind) := by
  cases N with
  | int n => exact absurd rfl (hN n)
  | _ => rfl

lemma groupOf_first {n : Int} {G H : Value} (hG : ∀ g, G ≠ .int g) :
    groupOf (.int n) G H = if n < 3 then .error (refuse (.groupModulus n))
      else .error (.fault .wrongKind) := by
  cases G with
  | int g => exact absurd rfl (hG g)
  | _ => rfl

lemma groupOf_second {n g : Int} {H : Value} (hH : ∀ h, H ≠ .int h) :
    groupOf (.int n) (.int g) H = (do
      let _ ← GroupParameters.of n g g
      throw (.fault .wrongKind)) := by
  cases H with
  | int h => exact absurd rfl (hH h)
  | _ => rfl

/-- Values that are no integers cannot be compared. -/
lemma groupOf_eq_error (he : e.Escapes) {N G H : Value} (hshort : ∀ v ∈ [N, G, H], v.Short) :
    groupOf N G H = .error e ↔ Incomparable N G H ∧ e = .fault .wrongKind := by
  simp only [List.forall_mem_cons] at hshort
  obtain ⟨hshortN, hshortG, hshortH, -⟩ := hshort
  constructor
  · intro h
    rcases int_or_not N with ⟨n, rfl⟩ | hN
    · have hn := short_int.mpr hshortN
      rcases int_or_not G with ⟨g, rfl⟩ | hG
      · have hg := short_int.mpr hshortG
        rcases int_or_not H with ⟨k, rfl⟩ | hH
        · rcases bind_eq_error.mp h with h | ⟨_, _, ⟨⟩⟩
          exact absurd he (groupParameters_of_error hn hg (short_int.mpr hshortH) h)
        · rw [groupOf_second hH] at h
          rcases bind_eq_error.mp h with h | ⟨pp, hpp, ⟨⟩⟩
          · exact absurd he (groupParameters_of_error hn hg hg h)
          · obtain ⟨rfl, rfl, -⟩ := GroupParameters.of_eq_ok.mp hpp
            exact ⟨.second pp.three_le_N ⟨pp.one_lt_G, pp.G_lt_N⟩ pp.gcd_G hH, rfl⟩
      · rw [groupOf_first hG] at h
        split_ifs at h with hsmall
        · have hrefused := (refuse_eq_iff he).mp (Except.error.inj h)
          exact absurd (List.forall_mem_singleton.mpr hn) hrefused.1
        · cases h
          exact ⟨.first (Int.not_lt.mp hsmall) hG, rfl⟩
    · rw [groupOf_modulus hN] at h
      cases h
      exact ⟨.modulus hN, rfl⟩
  · rintro ⟨hN | ⟨hn, hG⟩ | ⟨hn, hg, hgcd, hH⟩, rfl⟩
    · exact groupOf_modulus hN
    · rw [groupOf_first hG, if_neg (Int.not_lt.mpr hn)]
    · rw [groupOf_second hH, GroupParameters.of, dif_pos hn, dif_pos hg, dif_pos hgcd, dif_pos hg,
        dif_pos hgcd, ok_bind]
      rfl

end Leaves

/-! ## What escapes from reading -/

section Walk

variable {e : Error} {members : List (Text × Json)}

/-- Only group parameters can be looked at in a way that does not suit them. -/
lemma build_eq_error (he : e.Escapes) {k : RecordKind} {vs : List Value}
    (hlength : vs.length = k.names.length) (hshort : ∀ v ∈ vs, v.Short)
    (h : k.build vs = .error e) :
    k = .group ∧ e = .fault .wrongKind ∧ ∃ N G H, vs = [N, G, H] ∧ Incomparable N G H := by
  by_cases hk : k = .group
  · subst hk
    obtain ⟨N, G, H, rfl⟩ := List.length_eq_three.mp hlength
    obtain ⟨hincomparable, rfl⟩ := (groupOf_eq_error he hshort).mp h
    exact ⟨rfl, rfl, N, G, H, rfl, hincomparable⟩
  · obtain ⟨v, hv⟩ := build_ok hk hlength
    rw [hv] at h
    cases h

/-- What the fields of an object are read as can be written. -/
lemma short_of_readAt {names : List String} {vs : List Value}
    (hfields : List.Forall₂ (ReadAt members) names vs) : ∀ v ∈ vs, v.Short := by
  intro v hv
  obtain ⟨name, -, j, -, hdecoded⟩ := exists_left_of_mem hfields hv
  exact (admissible_of_decodeField j v hdecoded).short

/-- A tag that is refused cannot be shown when it is an integer that is too long. -/
lemma tag_eq_error (he : e.Escapes) {j : Json} (hj : ¬j.IsNested) :
    refuse (.tag j) = e ↔ ∃ n, j = .int n ∧ ¬Writable n ∧ e = .fault .longNumeral := by
  have hfits : (Precondition.tag j).wording.Fits ↔ ¬j.Long := j.fits_display
  rw [refuse_eq_iff he, hfits, not_not]
  constructor
  · rintro ⟨hlong, rfl⟩
    cases hlong with
    | int hn => exact ⟨_, rfl, hn, rfl⟩
    | item => exact absurd trivial hj
    | member => exact absurd trivial hj
  · rintro ⟨n, rfl, hn, rfl⟩
    exact ⟨.int hn, rfl⟩

/-- A field is not there, or its value is not read. -/
lemma field_eq_error (ih : ∀ m ∈ members, decodeField m.2 = .error e ↔ FieldMishap m.2 e)
    {name : String} : field name (decodeMembers members) = .error e ↔
      MemberMishap members name e := by
  rw [field_decodeMembers]
  cases hlookup : Json.lookup (Text.ofString name) members with
  | none =>
      constructor
      · rintro ⟨⟩
        exact .missing hlookup
      · rintro (_ | ⟨h, _⟩)
        · rfl
        · simp [hlookup] at h
  | some j =>
      dsimp only
      rw [ih _ (Json.mem_of_lookup hlookup)]
      constructor
      · exact .value hlookup
      · rintro (h | ⟨h, hj⟩)
        · simp [hlookup] at h
        · cases hlookup.symm.trans h
          exact hj

/-- Reading a record ends with a fault only by a mishap. -/
lemma mishap_of_ofMembers (he : e.Escapes)
    (ih : ∀ m ∈ members, decodeField m.2 = .error e ↔ FieldMishap m.2 e)
    (h : ofMembers members (decodeMembers members) = .error e) : RecordMishap members e := by
  rcases members_cases members (decodeMembers members) with
    htag | htag | ⟨k, htag⟩ | ⟨j, htype, hj, hfault⟩ | ⟨j, htype, hj, hrefused⟩
  · rw [htag.ofMembers, ofTag_four, rootValues_eq_error he fun _ => fourInt_ofList_eq_error] at h
    exact .four htag h
  · rw [htag.ofMembers, ofTag_three, rootValues_eq_error he fun _ => threeInt_ofList_eq_error] at h
    exact .three htag h
  · rw [htag.ofMembers, ofTag_tag] at h
    rcases bind_eq_error.mp h with h | ⟨vs, hvs, hbuild⟩
    · obtain ⟨before, name, after, hnames, hbefore, hname⟩ := mapM_eq_error.mp h
      exact .fields htag hnames (fun n hn => (hbefore n hn).imp fun _ => field_eq_ok.mp)
        ((field_eq_error ih).mp hname)
    · have hfields := (mapM_eq_ok.mp hvs).imp fun _ _ => field_eq_ok.mp
      obtain ⟨rfl, rfl, N, G, H, rfl, hincomparable⟩ :=
        build_eq_error he hfields.length_eq.symm (short_of_readAt hfields) hbuild
      exact .generators htag hfields hincomparable
  · cases hfault.symm.trans h
    exact .tag htype hj
  · have herror := Except.error.inj (hrefused.symm.trans h)
    obtain ⟨n, rfl, hn, rfl⟩ := (tag_eq_error he hj).mp herror
    refine .long ?_ hn
    cases hlookup : Json.lookup (Text.ofString "type") members with
    | none =>
        rw [hlookup] at htype
        cases htype
    | some i =>
        rw [hlookup] at htype
        exact congrArg some htype

/-- Every mishap ends the reading. -/
lemma ofMembers_of_mishap (he : e.Escapes)
    (ih : ∀ m ∈ members, decodeField m.2 = .error e ↔ FieldMishap m.2 e)
    (h : RecordMishap members e) : ofMembers members (decodeMembers members) = .error e := by
  cases h with
  | @tag _ j htype hj =>
      rw [ofMembers, htype]
      cases j with
      | arr items => rfl
      | obj inner => rfl
      | _ => exact hj.elim
  | @long _ n htype hn =>
      rw [ofMembers, htype]
      exact congrArg Except.error ((tag_eq_error he id).mpr ⟨n, rfl, hn, rfl⟩)
  | four htag hroots =>
      rw [htag.ofMembers, ofTag_four, rootValues_eq_error he fun _ => fourInt_ofList_eq_error]
      exact hroots
  | three htag hroots =>
      rw [htag.ofMembers, ofTag_three, rootValues_eq_error he fun _ => threeInt_ofList_eq_error]
      exact hroots
  | @fields _ k before after name _ htag hnames hbefore hname =>
      have hread : (k.names.mapM fun n => field n (decodeMembers members)) = .error e :=
        mapM_eq_error.mpr ⟨before, name, after, hnames,
          fun n hn => (hbefore n hn).imp fun _ => field_eq_ok.mpr, (field_eq_error ih).mpr hname⟩
      rw [htag.ofMembers, ofTag_tag, hread]
      rfl
  | generators htag hfields h =>
      rw [ofMembers_record htag hfields]
      exact (groupOf_eq_error he (short_of_readAt hfields)).mpr ⟨h, rfl⟩

/-- **What escapes from reading a record** is a mishap of it, if that is so for its members. -/
lemma ofMembers_eq_error (he : e.Escapes)
    (ih : ∀ m ∈ members, decodeField m.2 = .error e ↔ FieldMishap m.2 e) :
    ofMembers members (decodeMembers members) = .error e ↔ RecordMishap members e :=
  ⟨mishap_of_ofMembers he ih, ofMembers_of_mishap he ih⟩

/-- What is refused with a text that can be written is no mishap. -/
lemma decodeField_of_short (he : e.Escapes) {j : Json}
    (hj : decodeField j = .error (refuse (.fieldValue j))) (hshort : ¬j.Long)
    (hnone : ¬FieldMishap j e) : decodeField j = .error e ↔ FieldMishap j e := by
  rw [hj, Except.error.injEq, refuse_eq_iff he]
  exact iff_of_false (fun h => h.1 (j.fits_display.mpr hshort)) hnone

lemma decodeField_int_eq_error (he : e.Escapes) (n : Int) :
    decodeField (.int n) = .error e ↔ FieldMishap (.int n) e := by
  have hfits : (Precondition.fieldValue (.int n)).wording.Fits ↔ Writable n :=
    List.forall_mem_singleton
  have hfield : decodeField (.int n) = .error (refuse (.fieldValue (.int n))) := rfl
  rw [hfield, Except.error.injEq, refuse_eq_iff he, hfits]
  constructor
  · rintro ⟨hn, rfl⟩
    exact .long hn
  · intro h
    cases h with
    | long hn => exact ⟨hn, rfl⟩

/-- An object is read as bytes, as a record, or not at all. -/
lemma decodeField_obj_eq_error (he : e.Escapes)
    (ih : ∀ m ∈ members, decodeField m.2 = .error e ↔ FieldMishap m.2 e) :
    decodeField (.obj members) = .error e ↔ FieldMishap (.obj members) e := by
  rw [decodeField_obj]
  cases hb64 : Json.lookup (Text.ofString "b64") members with
  | some j =>
      dsimp only
      rw [decodeBytes_eq_error]
      constructor
      · exact .bytes hb64
      · rintro (_ | ⟨h, hj⟩ | ⟨h, _, _⟩ | _ | ⟨h, _, _⟩)
        · cases hb64.symm.trans h
          exact hj
        · simp [hb64] at h
        · simp [hb64] at h
  | none =>
      cases htype : Json.lookup (Text.ofString "type") members with
      | some j =>
          dsimp only
          rw [ofMembers_eq_error he ih]
          constructor
          · exact .record hb64 htype
          · rintro (_ | ⟨h, _⟩ | ⟨_, _, hrecord⟩ | _ | ⟨_, h, _⟩)
            · simp [hb64] at h
            · exact hrecord
            · simp [htype] at h
      | none =>
          have hfits : (Precondition.fieldValue (.obj members)).wording.Fits ↔
              ¬(Json.obj members).Long := Json.fits_display _
          dsimp only
          rw [Except.error.injEq, refuse_eq_iff he, hfits, not_not]
          constructor
          · rintro ⟨hlong, rfl⟩
            exact .untagged hb64 htype hlong
          · rintro (_ | ⟨h, _⟩ | ⟨_, h, _⟩ | _ | ⟨_, _, hlong⟩)
            · simp [hb64] at h
            · simp [htype] at h
            · exact ⟨hlong, rfl⟩

/-- **What escapes from reading a field is a mishap**, and every mishap escapes. -/
theorem decodeField_eq_error (he : e.Escapes) (j : Json) :
    decodeField j = .error e ↔ FieldMishap j e := by
  induction j using Json.induction with
  | null => exact decodeField_of_short he rfl nofun nofun
  | bool b => exact decodeField_of_short he rfl nofun nofun
  | int n => exact decodeField_int_eq_error he n
  | fraction x => exact decodeField_of_short he rfl nofun nofun
  | str t =>
      rw [decodeField, bind_eq_error]
      constructor
      · rintro (h | ⟨_, _, ⟨⟩⟩)
        cases ((decodeInt_eq_error he).mp h).1
      · rintro ⟨⟩
  | arr items ih =>
      rw [decodeField, bind_eq_error, decodeItems_eq_mapM, mapM_eq_error]
      constructor
      · rintro (⟨before, j, after, rfl, hbefore, hj⟩ | ⟨_, _, ⟨⟩⟩)
        exact .item hbefore ((ih j (by simp)).mp hj)
      · rintro (⟨hbefore, hj⟩)
        exact .inl ⟨_, _, _, rfl, hbefore, (ih _ (by simp)).mpr hj⟩
  | obj members ih => exact decodeField_obj_eq_error he ih

/-- **What escapes from reading an object is a mishap of a record**, and every mishap escapes. -/
theorem deserialize_eq_error (he : e.Escapes) :
    deserialize (.obj members) = .error e ↔ RecordMishap members e :=
  ofMembers_eq_error he fun m _ => decodeField_eq_error he m.2

end Walk

/-! ## Declared fields -/

/-- What the fields of a record are declared to hold. -/
inductive FieldKind where
  /-- An integer. -/
  | integer
  /-- Four integers. -/
  | integers
  /-- A byte string. -/
  | bytes
  /-- A proof that a committed value is not negative. -/
  | part

/-- The value is what a field of the kind is declared to hold.  Roots are four integers. -/
inductive Fits : FieldKind → Value → Prop where
  | integer (n : Int) : Fits .integer (.int n)
  | integers {ns : List Int} (hlength : ns.length = 4) : Fits .integers (ints ns)
  | roots (w : FourInt) : Fits .integers (.four w)
  | bytes (b : Bytes) : Fits .bytes (.bytes b)
  | part {commitments delta z t tt : Value} (hcommitments : Fits .integers commitments)
    (hdelta : Fits .bytes delta) (hz : Fits .integers z) (ht : Fits .integers t)
    (htt : Fits .integer tt) : Fits .part (.nonNegative commitments delta z t tt)

/-- The kinds of the fields of a record, in their order. -/
def kinds : RecordKind → List FieldKind
  | .group => [.integer, .integer, .integer]
  | .poe => [.integer]
  | .pokeStar => [.integer, .integer]
  | .zkpoke => [.integer, .integer, .integer, .integer, .integer, .integer, .integer]
  | .nonNegative => [.integers, .bytes, .integers, .integers, .integer]
  | .interval => [.part, .part]

/-- Roots, group parameters that satisfy their conditions, or a proof that holds in its fields what
they are declared to hold. -/
inductive Declared : Value → Prop where
  | four (w : FourInt) : Declared (.four w)
  | three (w : ThreeInt) : Declared (.three w)
  | group {pp : GroupParameters} (hG : 1 < pp.G ∧ pp.G < pp.N) (hgcdG : Int.gcd pp.G pp.N = 1)
    (hH : 1 < pp.H ∧ pp.H < pp.N) (hgcdH : Int.gcd pp.H pp.N = 1) : Declared (.group pp)
  | proof {k : RecordKind} {vs : List Value} {v : Value} (hk : k ≠ .group)
    (hbuild : k.build vs = .ok v) (hfits : List.Forall₂ Fits (kinds k) vs) : Declared v

/-- The tag is that of a proof, and all fields are read, but not all of them hold what they are
declared to hold. -/
def Misfit (members : List (Text × Json)) : Prop :=
  ∃ (k : RecordKind) (vs : List Value), k ≠ .group ∧ Tagged members k.tag ∧
    List.Forall₂ (ReadAt members) k.names vs ∧ ¬List.Forall₂ Fits (kinds k) vs

omit [DigitLimit] in
lemma tag_injective : Function.Injective RecordKind.tag := by
  intro k l h
  cases k <;> cases l <;> first | rfl | exact absurd h (by decide)

/-- A record is built in one way. -/
lemma build_inj {k l : RecordKind} {vs ws : List Value} {v : Value} (hv : k.build vs = .ok v)
    (hw : l.build ws = .ok v) : k = l ∧ vs = ws := by
  obtain ⟨hrecord, hlength⟩ := build_eq_ok hv
  obtain ⟨hrecord', hlength'⟩ := build_eq_ok hw
  obtain ⟨htag, hfields⟩ := Prod.mk.inj (Option.some.inj (hrecord.symm.trans hrecord'))
  obtain rfl := tag_injective htag
  refine ⟨rfl, ?_⟩
  have hvalues := congrArg (List.map Prod.snd) hfields
  rwa [List.map_snd_zip (Nat.le_of_eq hlength), List.map_snd_zip (Nat.le_of_eq hlength')] at hvalues

/-- What is read from an object is declared unless one of its fields holds something else. -/
lemma declared_of_ok {members : List (Text × Json)} {v : Value} (hmisfit : ¬Misfit members)
    (h : deserialize (.obj members) = .ok v) : v.Declared := by
  rcases ofMembers_eq_ok h with ⟨w, rfl, -⟩ | ⟨w, rfl, -⟩ | ⟨k, vs, htag, hbuild, hfields⟩
  · exact .four w
  · exact .three w
  · by_cases hk : k = .group
    · subst hk
      obtain ⟨N, G, H, rfl⟩ := List.length_eq_three.mp (build_eq_ok hbuild).2
      obtain ⟨pp, rfl, -⟩ := groupOf_eq_ok hbuild
      exact .group ⟨pp.one_lt_G, pp.G_lt_N⟩ pp.gcd_G ⟨pp.one_lt_H, pp.H_lt_N⟩ pp.gcd_H
    · refine .proof hk hbuild ?_
      by_contra hfits
      exact hmisfit ⟨k, vs, hk, htag, hfields, hfits⟩

/-- A misfit is read, and what is read is not declared. -/
lemma Misfit.not_declared {members : List (Text × Json)} (h : Misfit members) :
    ∃ v, deserialize (.obj members) = .ok v ∧ ¬v.Declared := by
  obtain ⟨k, vs, hk, htag, hfields, hfits⟩ := h
  obtain ⟨v, hbuild⟩ := build_ok hk hfields.length_eq.symm
  refine ⟨v, (ofMembers_record htag hfields).trans hbuild, ?_⟩
  rintro (_ | _ | _ | ⟨_, hbuild', hfits'⟩)
  · exact nomatch (build_eq_ok hbuild).1
  · exact nomatch (build_eq_ok hbuild).1
  · have htag := (Prod.mk.inj (Option.some.inj (build_eq_ok hbuild).1)).1
    exact hk (tag_injective htag.symm)
  · obtain ⟨rfl, rfl⟩ := build_inj hbuild hbuild'
    exact hfits hfits'

/-- **Where reading keeps to its taxonomy.**  From an object a declared value is read — roots, group
parameters that satisfy their conditions, a proof with what it is declared to hold — or the object
is refused, exactly when there is neither a mishap in it nor a misfit.  What escapes otherwise is
the mishap. -/
theorem deserialize_conforms_iff (members : List (Text × Json)) :
    (OkOrRefused Declared (deserialize (.obj members)) ↔
      (∀ e, ¬RecordMishap members e) ∧ ¬Misfit members) ∧
    ∀ e, e.Escapes → (deserialize (.obj members) = .error e ↔ RecordMishap members e) := by
  refine ⟨⟨fun h => ⟨fun e hmishap => ?_, fun hmisfit => ?_⟩, fun h => ?_⟩,
    fun e he => deserialize_eq_error he⟩
  · have he := hmishap.escapes
    exact h.not_escapes he ((deserialize_eq_error he).mpr hmishap)
  · obtain ⟨v, hv, hdeclared⟩ := hmisfit.not_declared
    rw [hv] at h
    rcases h with ⟨_, ⟨⟩, hv⟩ | ⟨_, ⟨⟩⟩
    exact hdeclared hv
  · exact .of_not_escapes (fun v hv => declared_of_ok h.2 hv) fun e he hfault =>
      h.1 e ((deserialize_eq_error he).mp hfault)

end Value

end

namespace Value

open Unlimited in
/-- **Faults escape from reading**: from a proof without its field, from a tag that is an array,
from three roots that are two, from base64 that breaks off, and from base64 beyond ASCII. -/
theorem deserialize_escapes :
    ¬OkOrRefused Declared
        (deserialize (.obj [(Text.ofString "type", Json.ofString "PoEProof")])) ∧
      ∀ object ∈ [([(Text.ofString "type", Json.ofString "PoEProof")], Fault.missingField "Q"),
        ([(Text.ofString "type", .arr [])], .wrongKind),
        ([(Text.ofString "type", Json.ofString "ThreeInt"),
          (Text.ofString "values", .arr [Json.ofString "4", Json.ofString "3"])], .valueCount),
        ([(Text.ofString "type", Json.ofString "PoEProof"),
          (Text.ofString "Q", .obj [(Text.ofString "b64", Json.ofString "QQ")])], .malformedBase64),
        ([(Text.ofString "type", Json.ofString "PoEProof"),
          (Text.ofString "Q", .obj [(Text.ofString "b64", Json.ofString "é")])], .foreignBase64)],
        deserialize (.obj object.1) = .error (.fault object.2) := by
  refine ⟨?_, ?_⟩
  · rintro (⟨_, ⟨⟩, _⟩ | ⟨_, ⟨⟩⟩)
  · simp only [List.forall_mem_cons]
    exact ⟨rfl, rfl, rfl, rfl, rfl, by simp⟩

end Value

end HiddenOrder
