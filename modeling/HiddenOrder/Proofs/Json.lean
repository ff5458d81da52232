import HiddenOrder.Json.Parser
import HiddenOrder.Json.Printer
import HiddenOrder.Proofs.Wording
import Mathlib.Data.List.Nodup

/-!
# Printed values are parsed back

The values that records are written as hold nothing but texts, arrays and objects: no numbers, no
truth values, and no character that would have to be escaped.  For these the printer and the parser
are easily matched, since every value begins with a character that tells its kind.  Sorting the keys
of the objects keeps the values apart from their order, as no key occurs twice, and the order is all
that it changes: the members are looked up as before.

* `Json.Plain` — the values that records are written as.
* **`Json.Plain.write_print`**, **`Json.parse_text`** — they are written under every limit, and parsed
  back from their texts.
* **`Json.Plain.sorted`**, **`Json.lookup_sortedMembers`** — sorting keeps them plain, and keeps
  what their members are.
-/

namespace HiddenOrder

/-- A text of ASCII characters none of which is escaped. -/
def Text.Plain (t : Text) : Prop := ∀ c ∈ t, (0x20 ≤ c ∧ c < 0x7f) ∧ c ≠ 0x22 ∧ c ≠ 0x5c

instance (t : Text) : Decidable t.Plain :=
  inferInstanceAs (Decidable (∀ c ∈ t, (0x20 ≤ c ∧ c < 0x7f) ∧ c ≠ 0x22 ∧ c ≠ 0x5c))

namespace Json

/-- A value of texts, arrays and objects, with nothing to escape and no key twice in an object. -/
inductive Plain : Json → Prop where
  | str {t : Text} : t.Plain → Plain (.str t)
  | arr {items : List Json} : (∀ j ∈ items, Plain j) → Plain (.arr items)
  | obj {members : List (Text × Json)} : (members.map Prod.fst).Nodup →
      (∀ m ∈ members, m.1.Plain) → (∀ m ∈ members, Plain m.2) → Plain (.obj members)

/-! ## Texts -/

section Texts

variable {t : Text}

lemma printText_of_plain (ht : t.Plain) : printText t = 0x22 :: t ++ [0x22] := by
  have hchars : t.flatMap printChar = t := by
    induction t with
    | nil => rfl
    | cons c t ih =>
        obtain ⟨hrange, hquote, hslash⟩ := ht c List.mem_cons_self
        have hchar : printChar c = [c] := by
          rw [printChar, if_neg (by omega), if_neg (by omega), if_neg (by omega),
            if_neg (by omega), if_neg (by omega), if_neg (by omega), if_pos (by omega)]
        rw [List.flatMap_cons, hchar, ih fun c' hc' => ht c' (List.mem_cons_of_mem c hc')]
        rfl
  rw [printText, hchars]

lemma readUnits_plain (ht : t.Plain) (rest : Text) :
    readUnits (t ++ 0x22 :: rest) = some (t, rest) := by
  induction t with
  | nil => rfl
  | cons c t ih =>
      obtain ⟨hrange, hquote, hslash⟩ := ht c List.mem_cons_self
      have htail := ih fun c' hc' => ht c' (List.mem_cons_of_mem c hc')
      rw [List.cons_append, readUnits]
      · rw [if_neg (by omega), htail]
        rfl
      · rintro rfl
        exact hquote rfl
      · rintro _ _ _ _ _ rfl
        exact absurd rfl hslash
      · rintro _ _ rfl
        exact absurd rfl hslash

lemma joinPairs_plain (ht : t.Plain) : joinPairs t = t := by
  induction t with
  | nil => rfl
  | cons c t ih =>
      have hc := ht c List.mem_cons_self
      have htail := ih fun c' hc' => ht c' (List.mem_cons_of_mem c hc')
      cases t with
      | nil => rw [joinPairs, if_neg (by omega)]
      | cons c' t => rw [joinPairs, if_neg (by omega), if_neg (by omega), htail]

lemma readText_plain (ht : t.Plain) (rest : Text) :
    readText (t ++ 0x22 :: rest) = some (t, rest) := by
  rw [readText, readUnits_plain ht, Option.map_some]
  dsimp only
  rw [joinPairs_plain ht]

end Texts

/-! ## Values -/

/-- The text of a value; the integers in it are written however long they are. -/
def text (j : Json) : Text := j.print.render

/-- The text of the items of an array. -/
def itemsText (items : List Json) : Text := (printItems items).render

/-- The text of the members of an object. -/
def membersText (members : List (Text × Json)) : Text := (printMembers members).render

section Equations

variable {items : List Json} {members : List (Text × Json)}

lemma text_str (t : Text) : (str t).text = printText t := by
  rw [text, print, Wording.render, Wording.render, List.append_nil]

lemma text_arr (items : List Json) : (arr items).text = 0x5b :: itemsText items ++ [0x5d] := by
  rw [text, print, Wording.render_append]
  rfl

lemma text_obj (members : List (Text × Json)) :
    (obj members).text = 0x7b :: membersText members ++ [0x7d] := by
  rw [text, print, Wording.render_append]
  rfl

lemma itemsText_singleton (j : Json) : itemsText [j] = j.text := by
  rw [itemsText, printItems, text]

lemma itemsText_cons_cons (j j' : Json) (items : List Json) :
    itemsText (j :: j' :: items) = j.text ++ 0x2c :: 0x20 :: itemsText (j' :: items) := by
  rw [itemsText, printItems, Wording.render_append]
  · rfl
  · rintro ⟨⟩

lemma membersText_singleton (m : Text × Json) :
    membersText [m] = printText m.1 ++ 0x3a :: 0x20 :: m.2.text := by
  rw [membersText, printMembers]
  rfl

lemma membersText_cons_cons (m m' : Text × Json) (members : List (Text × Json)) :
    membersText (m :: m' :: members)
      = printText m.1 ++ 0x3a :: 0x20 :: m.2.text ++
          0x2c :: 0x20 :: membersText (m' :: members) := by
  rw [membersText, printMembers, Wording.render_append]
  · simp only [Wording.render, List.append_assoc]
    rfl
  · rintro ⟨⟩

/-! No integer stands in the text of a plain value, so it is written under every limit. -/

lemma numbers_printItems (h : ∀ j ∈ items, j.print.numbers = []) :
    (printItems items).numbers = [] := by
  induction items with
  | nil =>
      rw [printItems]
      rfl
  | cons j rest ih =>
      obtain ⟨hj, hrest⟩ := List.forall_mem_cons.mp h
      cases rest with
      | nil => rwa [printItems]
      | cons j' rest =>
          rw [printItems, Wording.numbers_append, hj]
          · exact ih hrest
          · rintro ⟨⟩

lemma numbers_printMembers (h : ∀ m ∈ members, m.2.print.numbers = []) :
    (printMembers members).numbers = [] := by
  induction members with
  | nil =>
      rw [printMembers]
      rfl
  | cons m rest ih =>
      obtain ⟨hm, hrest⟩ := List.forall_mem_cons.mp h
      cases rest with
      | nil =>
          rw [printMembers]
          exact hm
      | cons m' rest =>
          rw [printMembers, Wording.numbers_append, Wording.numbers, Wording.numbers, hm]
          · exact ih hrest
          · rintro ⟨⟩

lemma Plain.numbers_print {j : Json} (hj : j.Plain) : j.print.numbers = [] := by
  induction hj with
  | str => rfl
  | arr _ ih =>
      rw [print, Wording.numbers_append, Wording.numbers, numbers_printItems ih]
      rfl
  | obj _ _ _ ih =>
      rw [print, Wording.numbers_append, Wording.numbers, numbers_printMembers ih]
      rfl

lemma Plain.write_print [DigitLimit] {j : Json} (hj : j.Plain) : j.print.write = .ok j.text := by
  rw [Wording.write_eq, if_pos (by rw [Wording.Fits, hj.numbers_print]; exact List.forall_mem_nil _), text]

end Equations

/-- The character with which a plain value begins tells its kind, and is not a blank. -/
lemma text_eq_cons {j : Json} (hj : j.Plain) :
    ∃ c t, j.text = c :: t ∧ (c = 0x22 ∨ c = 0x5b ∨ c = 0x7b) := by
  cases hj with
  | str ht => exact ⟨_, _, text_str _, .inl rfl⟩
  | arr => exact ⟨_, _, text_arr _, .inr (.inl rfl)⟩
  | obj => exact ⟨_, _, text_obj _, .inr (.inr rfl)⟩

lemma skipBlank_text {j : Json} (hj : j.Plain) (rest : Text) :
    skipBlank (j.text ++ rest) = j.text ++ rest := by
  obtain ⟨c, t, hprint, hc⟩ := text_eq_cons hj
  rw [hprint, List.cons_append, skipBlank, if_neg (by omega)]

/-- The value is read back from the front of a text, with enough fuel. -/
def ReadsBack [DigitLimit] (j : Json) : Prop :=
  ∀ fuel rest, j.text.length ≤ fuel → readValue fuel (j.text ++ rest) = some (j, rest)

section Items

variable {items : List Json}

/-- Items begin like the first of them. -/
lemma itemsText_eq_cons (hne : items ≠ []) (hplain : ∀ j ∈ items, j.Plain) :
    ∃ c t, itemsText items = c :: t ∧ (c = 0x22 ∨ c = 0x5b ∨ c = 0x7b) := by
  cases items with
  | nil => exact absurd rfl hne
  | cons j items =>
      obtain ⟨c, t, hprint, hc⟩ := text_eq_cons (hplain j List.mem_cons_self)
      cases items with
      | nil => exact ⟨c, t, by rw [itemsText_singleton, hprint], hc⟩
      | cons j' items => exact ⟨c, _, by rw [itemsText_cons_cons, hprint, List.cons_append], hc⟩

lemma skipBlank_itemsText (hne : items ≠ []) (hplain : ∀ j ∈ items, j.Plain) (rest : Text) :
    skipBlank (itemsText items ++ rest) = itemsText items ++ rest := by
  obtain ⟨c, t, hprint, hc⟩ := itemsText_eq_cons hne hplain
  rw [hprint, List.cons_append, skipBlank, if_neg (by omega)]

lemma readItems_last [DigitLimit] {n : ℕ} {t rest : Text} {j : Json}
    (h : readValue n t = some (j, 0x5d :: rest)) : readItems (n + 1) t = some ([j], rest) := by
  rw [readItems, h]
  rfl

lemma readItems_comma [DigitLimit] {n : ℕ} {t rest rest' : Text} {j : Json}
    (h : readValue n t = some (j, 0x2c :: 0x20 :: rest)) (hblank : skipBlank rest = rest)
    (htail : readItems n rest = some (items, rest')) :
    readItems (n + 1) t = some (j :: items, rest') := by
  rw [readItems, h]
  show (readItems n (skipBlank rest)).bind _ = _
  rw [hblank, htail]
  rfl

lemma readItems_text [DigitLimit] (hne : items ≠ []) (hplain : ∀ j ∈ items, j.Plain)
    (h : ∀ j ∈ items, j.ReadsBack) (fuel : ℕ) (rest : Text)
    (hfuel : (itemsText items).length < fuel) :
    readItems fuel (itemsText items ++ 0x5d :: rest) = some (items, rest) := by
  induction items generalizing fuel with
  | nil => exact absurd rfl hne
  | cons j items ih =>
      obtain ⟨n, rfl⟩ := Nat.exists_eq_succ_of_ne_zero (Nat.ne_of_gt (Nat.zero_lt_of_lt hfuel))
      have hj := h j List.mem_cons_self n
      cases items with
      | nil =>
          rw [itemsText_singleton] at hfuel ⊢
          exact readItems_last (hj _ (by omega))
      | cons j' items =>
          have hplain' := (List.forall_mem_cons.mp hplain).2
          have h' := (List.forall_mem_cons.mp h).2
          rw [itemsText_cons_cons, List.length_append, List.length_cons, List.length_cons] at hfuel
          rw [itemsText_cons_cons, List.append_assoc]
          exact readItems_comma (hj _ (by omega))
            (skipBlank_itemsText (List.cons_ne_nil j' items) hplain' _)
            (ih (List.cons_ne_nil j' items) hplain' h' n (by omega))

end Items

section Members

variable {members : List (Text × Json)}

/-- Members begin with the quote of the first key. -/
lemma membersText_eq_cons (hne : members ≠ []) : ∃ t, membersText members = 0x22 :: t := by
  cases members with
  | nil => exact absurd rfl hne
  | cons m members =>
      cases members with
      | nil => exact ⟨_, by rw [membersText_singleton, printText, List.cons_append, List.cons_append]⟩
      | cons m' members =>
          exact ⟨_, by rw [membersText_cons_cons, printText, List.cons_append, List.cons_append,
            List.cons_append]⟩

lemma skipBlank_membersText (hne : members ≠ []) (rest : Text) :
    skipBlank (membersText members ++ rest) = membersText members ++ rest := by
  obtain ⟨t, hprint⟩ := membersText_eq_cons hne
  rw [hprint, List.cons_append, skipBlank, if_neg (by decide)]

lemma putMember_of_new {key : Text} {found : List (Text × Json)} (h : key ∉ found.map Prod.fst)
    (value : Json) : putMember key value found = found ++ [(key, value)] := by
  induction found with
  | nil => rfl
  | cons m found ih =>
      rw [List.map_cons, List.mem_cons, not_or] at h
      rw [putMember, if_neg (Ne.symm h.1), ih h.2, List.cons_append]

lemma readMembers_last [DigitLimit] {n : ℕ} {key t rest : Text} {found : List (Text × Json)}
    {j : Json} (hkey : key.Plain) (hnew : key ∉ found.map Prod.fst) (hblank : skipBlank t = t)
    (h : readValue n t = some (j, 0x7d :: rest)) :
    readMembers (n + 1) (printText key ++ 0x3a :: 0x20 :: t) found
      = some (found ++ [(key, j)], rest) := by
  rw [printText_of_plain hkey, List.append_assoc, List.cons_append, readMembers]
  show (readText (key ++ 0x22 :: 0x3a :: 0x20 :: t)).bind _ = _
  rw [readText_plain hkey]
  show (readValue n (skipBlank t)).bind _ = _
  rw [hblank, h]
  show some (putMember key j found, rest) = _
  rw [putMember_of_new hnew]

lemma readMembers_comma [DigitLimit] {n : ℕ} {key t rest : Text} {found : List (Text × Json)}
    {j : Json} (hkey : key.Plain) (hnew : key ∉ found.map Prod.fst) (hblank : skipBlank t = t)
    (h : readValue n t = some (j, 0x2c :: 0x20 :: rest)) (hblank' : skipBlank rest = rest) :
    readMembers (n + 1) (printText key ++ 0x3a :: 0x20 :: t) found
      = readMembers n rest (found ++ [(key, j)]) := by
  rw [printText_of_plain hkey, List.append_assoc, List.cons_append, readMembers]
  show (readText (key ++ 0x22 :: 0x3a :: 0x20 :: t)).bind _ = _
  rw [readText_plain hkey]
  show (readValue n (skipBlank t)).bind _ = _
  rw [hblank, h]
  show readMembers n (skipBlank rest) (putMember key j found) = _
  rw [hblank', putMember_of_new hnew]

/-- The members are read one after another behind those already found, whose keys they do not
share. -/
lemma readMembers_text [DigitLimit] (hne : members ≠ []) (hkeys : ∀ m ∈ members, m.1.Plain)
    (hplain : ∀ m ∈ members, m.2.Plain) (h : ∀ m ∈ members, m.2.ReadsBack)
    (found : List (Text × Json)) (hnodup : ((found ++ members).map Prod.fst).Nodup) (fuel : ℕ)
    (rest : Text) (hfuel : (membersText members).length < fuel) :
    readMembers fuel (membersText members ++ 0x7d :: rest) found
      = some (found ++ members, rest) := by
  induction members generalizing fuel found with
  | nil => exact absurd rfl hne
  | cons m members ih =>
      obtain ⟨n, rfl⟩ := Nat.exists_eq_succ_of_ne_zero (Nat.ne_of_gt (Nat.zero_lt_of_lt hfuel))
      have hm : m ∈ m :: members := List.mem_cons_self
      have hvalue := h m hm n
      have hnew : m.1 ∉ found.map Prod.fst := by
        rw [List.map_append, List.map_cons, List.nodup_append] at hnodup
        exact fun hmem => hnodup.2.2 _ hmem _ List.mem_cons_self rfl
      cases members with
      | nil =>
          rw [membersText_singleton, List.length_append, List.length_cons, List.length_cons] at hfuel
          rw [membersText_singleton, List.append_assoc, List.cons_append, List.cons_append]
          exact readMembers_last (hkeys m hm) hnew (skipBlank_text (hplain m hm) _)
            (hvalue _ (by omega))
      | cons m' members =>
          have htail := ih (List.cons_ne_nil m' members)
            (List.forall_mem_cons.mp hkeys).2 (List.forall_mem_cons.mp hplain).2
            (List.forall_mem_cons.mp h).2 (found ++ [m])
            (by rwa [List.append_assoc, List.singleton_append]) n
          simp only [membersText_cons_cons, List.length_append, List.length_cons] at hfuel
          rw [membersText_cons_cons, List.append_assoc, List.append_assoc, List.cons_append,
            List.cons_append, List.cons_append, List.cons_append,
            readMembers_comma (hkeys m hm) hnew (skipBlank_text (hplain m hm) _)
              (hvalue _ (by omega))
              (skipBlank_membersText (List.cons_ne_nil m' members) _),
            htail (by omega), List.append_assoc, List.singleton_append]

end Members

lemma readValue_arr [DigitLimit] {n : ℕ} {c : Nat} {t rest : Text} {items : List Json}
    (hc : c ≠ 0x5d) (hblank : skipBlank (c :: t) = c :: t)
    (h : readItems n (c :: t) = some (items, rest)) :
    readValue (n + 1) (0x5b :: c :: t) = some (.arr items, rest) := by
  rw [readValue, hblank]
  split
  · next heq => exact absurd (List.cons.inj heq).1 hc
  · rw [h]
    rfl

lemma readValue_obj [DigitLimit] {n : ℕ} {c : Nat} {t rest : Text} {members : List (Text × Json)}
    (hc : c ≠ 0x7d) (hblank : skipBlank (c :: t) = c :: t)
    (h : readMembers n (c :: t) [] = some (members, rest)) :
    readValue (n + 1) (0x7b :: c :: t) = some (.obj members, rest) := by
  rw [readValue, hblank]
  split
  · next heq => exact absurd (List.cons.inj heq).1 hc
  · rw [h]
    rfl

/-- **Plain values are read back.** -/
theorem Plain.readsBack [DigitLimit] {j : Json} (hj : j.Plain) : j.ReadsBack := by
  -- the reader looks for the closing bracket before the first item, so that empty arrays and
  -- empty objects are cases of their own
  induction hj with
  | str ht =>
      intro fuel rest hfuel
      rw [text_str, printText_of_plain ht] at hfuel ⊢
      obtain ⟨n, rfl⟩ := Nat.exists_eq_succ_of_ne_zero (show fuel ≠ 0 by rintro rfl; simp at hfuel)
      rw [List.append_assoc, List.cons_append, readValue]
      show (readText (_ ++ 0x22 :: rest)).map _ = _
      rw [readText_plain ht]
      rfl
  | @arr items hitems ih =>
      intro fuel rest hfuel
      rw [text_arr, List.length_append, List.length_cons, List.length_singleton] at hfuel
      obtain ⟨n, rfl⟩ := Nat.exists_eq_succ_of_ne_zero (show fuel ≠ 0 by omega)
      rw [text_arr, List.append_assoc, List.cons_append, List.singleton_append]
      by_cases hne : items = []
      · subst hne
        rfl
      · have hread := readItems_text hne hitems ih n rest (by omega)
        have hblank := skipBlank_itemsText hne hitems (0x5d :: rest)
        obtain ⟨c, t, hprint, hc⟩ := itemsText_eq_cons hne hitems
        rw [hprint, List.cons_append] at hread hblank ⊢
        exact readValue_arr (by omega) hblank hread
  | @obj members hnodup hkeys hvalues ih =>
      intro fuel rest hfuel
      rw [text_obj, List.length_append, List.length_cons, List.length_singleton] at hfuel
      obtain ⟨n, rfl⟩ := Nat.exists_eq_succ_of_ne_zero (show fuel ≠ 0 by omega)
      rw [text_obj, List.append_assoc, List.cons_append, List.singleton_append]
      by_cases hne : members = []
      · subst hne
        rfl
      · have hread := readMembers_text hne hkeys hvalues ih [] (by simpa using hnodup) n rest
          (by omega)
        have hblank := skipBlank_membersText hne (0x7d :: rest)
        obtain ⟨t, hprint⟩ := membersText_eq_cons hne
        rw [hprint, List.cons_append] at hread hblank ⊢
        exact readValue_obj (by decide) hblank hread

/-- **Plain values are parsed back** from their texts. -/
theorem parse_text [DigitLimit] {j : Json} (hj : j.Plain) : parse j.text = some j := by
  have hblank := skipBlank_text hj []
  have hread := hj.readsBack (j.text.length + 1) [] (Nat.le_succ _)
  rw [List.append_nil] at hblank hread
  rw [parse, hblank, hread]
  rfl

/-! ## Sorted keys -/

section Sorted

variable {members : List (Text × Json)}

lemma sortedItems_eq_map (items : List Json) : sortedItems items = items.map sorted := by
  induction items with
  | nil => rw [sortedItems, List.map_nil]
  | cons j items ih => rw [sortedItems, ih, List.map_cons]

lemma insertMember_perm (m : Text × Json) (members : List (Text × Json)) :
    (insertMember m members).Perm (m :: members) := by
  induction members with
  | nil => exact .refl _
  | cons m' members ih =>
      rw [insertMember]
      split_ifs
      · exact .refl _
      · exact (ih.cons m').trans (.swap m m' members)

lemma sortedMembers_perm (members : List (Text × Json)) :
    (sortedMembers members).Perm (members.map fun m => (m.1, m.2.sorted)) := by
  induction members with
  | nil =>
      rw [sortedMembers]
      exact .refl _
  | cons m members ih =>
      rw [sortedMembers, List.map_cons]
      exact (insertMember_perm _ _).trans (ih.cons _)

lemma keys_sortedMembers_perm (members : List (Text × Json)) :
    ((sortedMembers members).map Prod.fst).Perm (members.map Prod.fst) := by
  have h := (sortedMembers_perm members).map Prod.fst
  rwa [List.map_map] at h

/-- **Sorted plain values** are plain. -/
theorem Plain.sorted {j : Json} (hj : j.Plain) : j.sorted.Plain := by
  induction hj with
  | str ht => exact .str ht
  | @arr items hitems ih =>
      rw [Json.sorted, sortedItems_eq_map]
      refine .arr fun j hj => ?_
      obtain ⟨k, hk, rfl⟩ := List.mem_map.mp hj
      exact ih k hk
  | @obj members hnodup hkeys hvalues ih =>
      rw [Json.sorted]
      refine .obj ((keys_sortedMembers_perm members).nodup_iff.mpr hnodup) ?_ ?_
      · intro m hm
        obtain ⟨k, hk, rfl⟩ := List.mem_map.mp ((sortedMembers_perm members).mem_iff.mp hm)
        exact hkeys k hk
      · intro m hm
        obtain ⟨k, hk, rfl⟩ := List.mem_map.mp ((sortedMembers_perm members).mem_iff.mp hm)
        exact ih k hk

lemma lookup_eq_none {k : Text} (h : k ∉ members.map Prod.fst) : lookup k members = none := by
  induction members with
  | nil => rfl
  | cons m members ih =>
      rw [List.map_cons, List.mem_cons, not_or] at h
      rw [lookup, if_neg (Ne.symm h.1), ih h.2]

lemma lookup_insertMember {key : Text} {value : Json} (h : key ∉ members.map Prod.fst) (k : Text) :
    lookup k (insertMember (key, value) members) = lookup k ((key, value) :: members) := by
  induction members with
  | nil => rfl
  | cons m members ih =>
      rw [List.map_cons, List.mem_cons, not_or] at h
      rw [insertMember]
      split_ifs
      · rfl
      · -- the two members change places, which matters to neither of their keys
        rw [lookup, ih h.2, lookup, lookup, lookup]
        split_ifs with hm hkey
        · exact absurd (hkey.trans hm.symm) h.1
        · rfl
        · rfl
        · rfl

/-- **Sorting keeps the members**, each with its value sorted. -/
theorem lookup_sortedMembers (hnodup : (members.map Prod.fst).Nodup) (k : Text) :
    lookup k (sortedMembers members) = (lookup k members).map Json.sorted := by
  induction members with
  | nil =>
      rw [sortedMembers]
      rfl
  | cons m members ih =>
      rw [List.map_cons, List.nodup_cons] at hnodup
      have hnew : m.1 ∉ (sortedMembers members).map Prod.fst :=
        mt (keys_sortedMembers_perm members).mem_iff.mp hnodup.1
      rw [sortedMembers, lookup_insertMember hnew, lookup, lookup, ih hnodup.2]
      split_ifs <;> rfl

end Sorted

end Json

end HiddenOrder
