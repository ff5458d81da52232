import HiddenOrder.Proofs.Wording
import HiddenOrder.Text.Base64
import Mathlib.Data.List.Basic

/-!
# Numerals and base64 are read back

Reading is lenient: a numeral may have blanks around it, underscores in it and digits of any script,
and base64 may hold characters that mean nothing.  What is written makes no use of that.  A numeral
consists of a sign and ASCII digits, so there is nothing to trim or to skip; and groups of four
characters are written with the padding in the one place where it ends the reading.

The limit on numerals counts digits when one is read, and compares the integer with a power of ten
before one is written.  Both come to the same.

* **`Text.toString?_eq_some_iff`** — the texts that are strings.
* `Decimal.numeral` — the numeral of an integer, whatever the limit is.
* **`Decimal.read_numeral`** — every integer that can be written is read back from its numeral, and
  no other is.
* **`Decimal.writable_of_read`** — every integer that is read can be written.
* **`Base64.decode_encode`** — every byte string is read back from its base64.
* `Decimal.mem_numeral`, `Base64.mem_encode` — the characters that are written.
-/

namespace HiddenOrder

/-! ## Numerals -/

namespace Text

lemma ofString_injective : Function.Injective ofString := by
  intro s t h
  refine String.toList_inj.mp (List.map_injective_iff.mpr ?_ h)
  exact fun a b hab => Char.toNat_inj.mp hab

lemma char?_eq_some_iff {n : Nat} {c : Char} : char? n = some c ↔ c.toNat = n := by
  rw [char?]
  by_cases h : n.isValidChar
  · rw [dif_pos h, Option.some.injEq]
    constructor
    · rintro rfl
      rfl
    · rintro rfl
      exact Char.toNat_inj.mp rfl
  · rw [dif_neg h]
    refine iff_of_false (fun hnone => by cases hnone) ?_
    rintro rfl
    exact h c.valid

lemma mapM_char?_eq_some_iff {t : Text} {cs : List Char} :
    t.mapM char? = some cs ↔ cs.map Char.toNat = t := by
  induction t generalizing cs with
  | nil => simp
  | cons n t ih =>
      rw [List.mapM_cons, Option.bind_eq_bind, Option.bind_eq_some_iff]
      constructor
      · rintro ⟨c, hc, hrest⟩
        obtain ⟨rest, hcs, hrest⟩ := Option.bind_eq_some_iff.mp hrest
        cases hrest
        rw [List.map_cons, char?_eq_some_iff.mp hc, ih.mp hcs]
      · intro h
        obtain ⟨c, rest, rfl, hc, hrest⟩ := List.map_eq_cons_iff.mp h
        refine ⟨c, char?_eq_some_iff.mpr hc, ?_⟩
        rw [ih.mpr hrest]
        rfl

/-- **A text is a string** when its code points are those of one. -/
theorem toString?_eq_some_iff {t : Text} {s : String} : toString? t = some s ↔ ofString s = t := by
  rw [toString?, Option.map_eq_some_iff, ofString, ← mapM_char?_eq_some_iff]
  constructor
  · rintro ⟨cs, hcs, rfl⟩
    rwa [String.toList_ofList]
  · exact fun h => ⟨_, h, String.ofList_toList⟩

lemma isBlank_of_graphic {c : Nat} (hlow : 0x20 < c) (hhigh : c < 0x7f) : isBlank c = false := by
  simp only [isBlank, Bool.or_eq_false_iff, Bool.and_eq_false_imp, decide_eq_true_eq,
    decide_eq_false_iff_not, beq_eq_false_iff_ne]
  omega

lemma digitValue?_digit {d : Nat} (hd : d < 10) : digitValue? (0x30 + d) = some d := by
  rw [digitValue?, zeroDigits, List.find?_cons_of_pos (by simp; omega), Option.map_some,
    Nat.add_sub_cancel_left]

end Text

namespace Decimal

/-- The ASCII digits of a natural number. -/
def digits (n : Nat) : Text := (Nat.toDigits 10 n).map Char.toNat

/-- The numeral of an integer, as a text. -/
def numeral (n : Int) : Text := Text.ofString (toString n)

lemma numeral_natCast (n : Nat) : numeral n = digits n := by
  show Text.ofString n.repr = digits n
  rw [Text.ofString, Nat.toList_repr, digits]

lemma numeral_negSucc (n : Nat) : numeral (.negSucc n) = 0x2d :: digits (n + 1) := by
  show Text.ofString ("-" ++ (n + 1).repr) = _
  rw [Text.ofString, String.toList_append, Nat.toList_repr, List.map_append, digits]
  rfl

lemma isDigit_iff {c : Char} : c.isDigit = true ↔ 0x30 ≤ c.toNat ∧ c.toNat ≤ 0x39 := by
  rw [Char.isDigit, Bool.and_eq_true, decide_eq_true_eq, decide_eq_true_eq]
  exact Iff.rfl

lemma mem_digits {n c : Nat} (hc : c ∈ digits n) : 0x30 ≤ c ∧ c ≤ 0x39 := by
  obtain ⟨d, hd, rfl⟩ := List.mem_map.mp hc
  exact isDigit_iff.mp (Nat.isDigit_of_mem_toDigits (by decide) (by decide) hd)

/-- The characters of a numeral: a minus sign and digits. -/
theorem mem_numeral {n : Int} {c : Nat} (hc : c ∈ numeral n) : c = 0x2d ∨ (0x30 ≤ c ∧ c ≤ 0x39) := by
  cases n with
  | ofNat n =>
      rw [Int.ofNat_eq_natCast, numeral_natCast] at hc
      exact .inr (mem_digits hc)
  | negSucc n =>
      rw [numeral_negSucc] at hc
      rcases List.mem_cons.mp hc with rfl | hc
      · exact .inl rfl
      · exact .inr (mem_digits hc)

lemma dropWhile_isBlank {t : Text} (h : ∀ c ∈ t, Text.isBlank c = false) :
    t.dropWhile Text.isBlank = t := by
  cases t with
  | nil => rfl
  | cons c rest => rw [List.dropWhile_cons_of_neg (by simp [h c])]

lemma trim_eq_self {t : Text} (h : ∀ c ∈ t, Text.isBlank c = false) : trim t = t := by
  have hrev : ∀ c ∈ t.reverse, Text.isBlank c = false := by simpa using h
  rw [trim, dropWhile_isBlank h, dropWhile_isBlank hrev, List.reverse_reverse]

lemma trim_numeral (n : Int) : trim (numeral n) = numeral n := by
  refine trim_eq_self fun c hc => ?_
  rcases mem_numeral hc with rfl | hdigit
  · rfl
  · exact Text.isBlank_of_graphic (by omega) (by omega)

lemma readTail_cons {c d : Nat} (hd : Text.digitValue? c = some d) (acc : Nat) (rest : Text) :
    readTail acc (c :: rest) = readTail (10 * acc + d) rest := by
  rw [readTail.eq_def]
  simp only [hd]

lemma digitValue?_of_isDigit {c : Char} (hc : c.isDigit = true) :
    Text.digitValue? c.toNat = some (c.toNat - 0x30) := by
  have hrange := isDigit_iff.mp hc
  rw [← Text.digitValue?_digit (show c.toNat - 0x30 < 10 by omega), Nat.add_sub_cancel' hrange.1]

lemma readTail_digits (acc : Nat) {cs : List Char} (h : ∀ c ∈ cs, c.isDigit = true) :
    readTail acc (cs.map Char.toNat) = some (Nat.ofDigitChars 10 cs acc) := by
  induction cs generalizing acc with
  | nil => rfl
  | cons c cs ih =>
      rw [List.map_cons, readTail_cons (digitValue?_of_isDigit (h c List.mem_cons_self))]
      exact ih _ fun c' hc' => h c' (List.mem_cons_of_mem c hc')

lemma readDigits_digits (n : Nat) : readDigits (digits n) = some n := by
  have hdigit : ∀ c ∈ Nat.toDigits 10 n, c.isDigit = true := fun c hc =>
    Nat.isDigit_of_mem_toDigits (by decide) (by decide) hc
  have hall := readTail_digits 0 hdigit
  rw [Nat.ofDigitChars_ten_toDigits] at hall
  rw [digits]
  cases hd : Nat.toDigits 10 n with
  | nil => exact absurd hd Nat.toDigits_ne_nil
  | cons c cs =>
      have hc := digitValue?_of_isDigit (hdigit c (hd ▸ List.mem_cons_self))
      rw [hd, List.map_cons, readTail_cons hc, Nat.mul_zero, Nat.zero_add] at hall
      rw [List.map_cons, readDigits, hc]
      exact hall

/-- Every integer is spelled by its numeral. -/
theorem spelled_numeral (n : Int) : spelled (numeral n) = some n := by
  rw [spelled, trim_numeral]
  cases n with
  | ofNat n =>
      rw [Int.ofNat_eq_natCast, numeral_natCast]
      split
      · next heq => exact absurd (mem_digits (heq ▸ List.mem_cons_self)).1 (by decide)
      · next heq => exact absurd (mem_digits (heq ▸ List.mem_cons_self)).1 (by decide)
      · rw [readDigits_digits]
        rfl
  | negSucc n =>
      rw [numeral_negSucc]
      simp only [readDigits_digits]
      rfl

/-! ### Numerals under a limit -/

lemma digitCount_digits (n : Nat) : digitCount (digits n) = (Nat.toDigits 10 n).length := by
  have hall : ∀ c ∈ digits n, (Text.digitValue? c).isSome = true := by
    intro c hc
    have hrange := mem_digits hc
    rw [← Nat.add_sub_cancel' hrange.1, Text.digitValue?_digit (by omega), Option.isSome_some]
  rw [digitCount, List.countP_eq_length.mpr hall, digits, List.length_map]

lemma digitCount_numeral (n : Int) :
    digitCount (numeral n) = (Nat.toDigits 10 n.natAbs).length := by
  cases n with
  | ofNat n => rw [Int.ofNat_eq_natCast, numeral_natCast, digitCount_digits, Int.natAbs_natCast]
  | negSucc n =>
      rw [numeral_negSucc, digitCount, List.countP_cons_of_neg (by decide)]
      exact digitCount_digits (n + 1)

lemma digitCount_trim (t : Text) : digitCount (trim t) ≤ digitCount t := by
  refine List.Sublist.countP_le ?_
  have hfront := List.dropWhile_sublist (l := t) Text.isBlank
  have hback := List.dropWhile_sublist (l := (t.dropWhile Text.isBlank).reverse) Text.isBlank
  exact (List.reverse_sublist.mp (by rwa [trim, List.reverse_reverse])).trans hfront

lemma digitValue?_lt {c d : Nat} (h : Text.digitValue? c = some d) : d < 10 := by
  obtain ⟨first, hfirst, rfl⟩ := Option.map_eq_some_iff.mp h
  have hrow := List.find?_some hfirst
  simp only [decide_eq_true_eq] at hrow
  omega

lemma digitCount_cons_of_some {c d : Nat} (hd : Text.digitValue? c = some d) (t : Text) :
    digitCount (c :: t) = digitCount t + 1 :=
  List.countP_cons_of_pos (by rw [hd, Option.isSome_some])

lemma digitCount_cons_of_none {c : Nat} (hc : Text.digitValue? c = none) (t : Text) :
    digitCount (c :: t) = digitCount t :=
  List.countP_cons_of_neg (by rw [hc]; exact Bool.false_ne_true)

lemma lt_of_one_digit_more {acc d k v : Nat} (hd : d < 10) (h : v < (10 * acc + d + 1) * 10 ^ k) :
    v < (acc + 1) * 10 ^ (k + 1) :=
  calc v < (10 * acc + d + 1) * 10 ^ k := h
    _ ≤ ((acc + 1) * 10) * 10 ^ k := Nat.mul_le_mul_right _ (by omega)
    _ = (acc + 1) * 10 ^ (k + 1) := by rw [Nat.mul_assoc, ← Nat.pow_succ']

/-- What is read is below the power of ten that its digits allow. -/
lemma readTail_lt {acc v : Nat} {t : Text} (h : readTail acc t = some v) :
    v < (acc + 1) * 10 ^ digitCount t := by
  fun_induction readTail acc t with
  | case1 acc =>
      cases h
      simp [digitCount]
  | case2 acc c rest d hd ih =>
      rw [digitCount_cons_of_some hd]
      exact lt_of_one_digit_more (digitValue?_lt hd) (ih h)
  | case3 acc c hc c' rest _ d hd ih =>
      rw [digitCount_cons_of_none hc, digitCount_cons_of_some hd]
      exact lt_of_one_digit_more (digitValue?_lt hd) (ih h)
  | case4 => cases h
  | case5 => cases h

lemma readDigits_lt {v : Nat} {t : Text} (h : readDigits t = some v) : v < 10 ^ digitCount t := by
  cases t with
  | nil => cases h
  | cons c rest =>
      rw [readDigits] at h
      cases hd : Text.digitValue? c with
      | none =>
          rw [hd] at h
          cases h
      | some d =>
          rw [hd] at h
          rw [digitCount_cons_of_some hd, ← Nat.one_mul (10 ^ _), ← Nat.zero_add 1]
          refine lt_of_one_digit_more (digitValue?_lt hd) ?_
          rw [Nat.mul_zero, Nat.zero_add]
          exact readTail_lt h

lemma spelled_lt {n : Int} {t : Text} (h : spelled t = some n) : n.natAbs < 10 ^ digitCount t := by
  have htrim := Nat.pow_le_pow_right (n := 10) (by decide) (digitCount_trim t)
  refine Nat.lt_of_lt_of_le ?_ htrim
  rw [spelled] at h
  split at h
  · next rest heq =>
      obtain ⟨v, hv, rfl⟩ := Option.map_eq_some_iff.mp h
      rw [heq, digitCount_cons_of_none (by decide)]
      exact readDigits_lt hv
  · next rest heq =>
      cases hv : readDigits rest with
      | none =>
          rw [hv] at h
          cases h
      | some v =>
          rw [hv] at h
          cases h
          rw [heq, digitCount_cons_of_none (by decide)]
          rw [Int.natAbs_neg, Int.natAbs_natCast]
          exact readDigits_lt hv
  · obtain ⟨v, hv, rfl⟩ := Option.map_eq_some_iff.mp h
    exact readDigits_lt hv

section

variable [DigitLimit] {n : Int}

/-- The two forms of the limit come to the same. -/
lemma admits_length_iff : DigitLimit.Admits (Nat.toDigits 10 n.natAbs).length ↔ Writable n := by
  refine forall₂_congr fun d hd => Nat.length_toDigits_le_iff (by decide) ?_
  exact Nat.lt_of_lt_of_le (by decide) (DigitLimit.threshold_le d hd)

/-- **What can be written is read back from its numeral**, and nothing else is. -/
theorem read_numeral (n : Int) : read (numeral n) = if Writable n then some n else none := by
  rw [read, digitCount_numeral, if_congr admits_length_iff (spelled_numeral n) rfl]

/-- Every integer is read back from the numeral that was written for it. -/
theorem read_write {s : String} (h : write n = .ok s) : read (Text.ofString s) = some n := by
  obtain ⟨hn, rfl⟩ := write_eq_ok_iff.mp h
  exact (read_numeral n).trans (if_pos hn)

/-- **What is read can be written**: an integer is below the power of ten that its digits allow. -/
theorem writable_of_read {t : Text} (h : read t = some n) : Writable n := by
  rw [read] at h
  split_ifs at h with hadmits
  intro d hd
  exact Nat.lt_of_lt_of_le (spelled_lt h) (Nat.pow_le_pow_right (by decide) (hadmits d hd))

end

end Decimal

/-! ## Base64 -/

namespace Base64

lemma value?_digit : ∀ n < 64, value? (digit n) = some n := by decide

lemma digit_ne_padding : ∀ n < 64, digit n ≠ padding := by decide

/-- A character of the alphabet moves the cursor and completes the bytes that it completes. -/
lemma decodeFrom_digit (cursor : Cursor) {n : Nat} (hn : n < 64) (rest : Text) :
    decodeFrom cursor (digit n :: rest)
      = (decodeFrom (cursor.step n).2 rest).map ((cursor.step n).1 ++ ·) := by
  rw [decodeFrom, if_neg (digit_ne_padding n hn), value?_digit n hn]

lemma ofNat_eq {x : UInt8} {n : Nat} (h : n = x.toNat) : UInt8.ofNat n = x := by
  rw [h, UInt8.ofNat_toNat]

/-- The padding of a group that holds one byte, and of a group that holds two. -/
lemma decodeFrom_padding (pending : Nat) :
    decodeFrom ⟨2, pending, 0⟩ [padding, padding] = some [] ∧
      decodeFrom ⟨3, pending, 0⟩ [padding] = some [] :=
  ⟨rfl, rfl⟩

/-- **Every byte string is read back from its base64.** -/
theorem decode_encode (b : Bytes) : decode (encode b) = some b := by
  rw [decode]
  induction b using encode.induct with
  | case1 => rfl
  | case2 x =>
      have hx := x.toNat_lt
      rw [encode, decodeFrom_digit _ (by omega), decodeFrom_digit _ (by omega)]
      simp only [Cursor.step, decodeFrom_padding, Option.map_some]
      rw [ofNat_eq (x := x) (by omega)]
      rfl
  | case3 x y =>
      have hx := x.toNat_lt
      have hy := y.toNat_lt
      rw [encode, decodeFrom_digit _ (by omega), decodeFrom_digit _ (by omega),
        decodeFrom_digit _ (by omega)]
      simp only [Cursor.step, decodeFrom_padding, Option.map_some]
      rw [ofNat_eq (x := x) (by omega), ofNat_eq (x := y) (by omega)]
      rfl
  | case4 x y z rest ih =>
      have hx := x.toNat_lt
      have hy := y.toNat_lt
      have hz := z.toNat_lt
      rw [encode, decodeFrom_digit _ (by omega), decodeFrom_digit _ (by omega),
        decodeFrom_digit _ (by omega), decodeFrom_digit _ (by omega)]
      simp only [Cursor.step, ih, Option.map_some]
      rw [ofNat_eq (x := x) (by omega), ofNat_eq (x := y) (by omega),
        ofNat_eq (x := z) (by omega)]
      rfl

/-- The characters of the alphabet are graphic, and none of them is a quote or a backslash. -/
lemma digit_graphic : ∀ n < 64, (0x2b ≤ digit n ∧ digit n ≤ 0x7a) ∧ digit n ≠ 0x5c := by decide

/-- The characters that are written. -/
theorem mem_encode {b : Bytes} {c : Nat} (hc : c ∈ encode b) :
    (0x2b ≤ c ∧ c ≤ 0x7a) ∧ c ≠ 0x5c := by
  have hpad : (0x2b ≤ padding ∧ padding ≤ 0x7a) ∧ padding ≠ 0x5c := by decide
  induction b using encode.induct with
  | case1 => cases hc
  | case2 x =>
      have hx := x.toNat_lt
      simp only [encode, List.mem_cons, List.not_mem_nil, or_false] at hc
      rcases hc with rfl | rfl | rfl | rfl
      · exact digit_graphic _ (by omega)
      · exact digit_graphic _ (by omega)
      · exact hpad
      · exact hpad
  | case3 x y =>
      have hx := x.toNat_lt
      have hy := y.toNat_lt
      simp only [encode, List.mem_cons, List.not_mem_nil, or_false] at hc
      rcases hc with rfl | rfl | rfl | rfl
      · exact digit_graphic _ (by omega)
      · exact digit_graphic _ (by omega)
      · exact digit_graphic _ (by omega)
      · exact hpad
  | case4 x y z rest ih =>
      have hx := x.toNat_lt
      have hy := y.toNat_lt
      have hz := z.toNat_lt
      simp only [encode, List.mem_cons] at hc
      rcases hc with rfl | rfl | rfl | rfl | hrest
      · exact digit_graphic _ (by omega)
      · exact digit_graphic _ (by omega)
      · exact digit_graphic _ (by omega)
      · exact digit_graphic _ (by omega)
      · exact ih hrest

end Base64

end HiddenOrder
