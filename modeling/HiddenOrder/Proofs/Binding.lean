import HiddenOrder.Proofs.Challenge
import Mathlib.Algebra.BigOperators.Fin

/-!
# What a challenge binds

A transcript is hashed as the texts of its entries one after another, with nothing in between.  The
bytes that are hashed therefore bind the *concatenation* of the texts and no more: digits may move
from the end of one number to the beginning of the next.  As long as all numbers but one keep their
numbers of digits, none can.  Numbers that are too long to be written are not hashed at all.

* **`Transcript.message_eq_iff`** — two transcripts are hashed alike exactly when their texts make
  up the same text.
* `Challenge.digits`, `Challenge.AlignedBut` — the digits of a tuple of numbers, and tuples of the
  same numbers of digits at all places but one.
* **`Challenge.eq_of_digits`** — such tuples are told apart by their digits.
* **`Challenge.Binds`** — what the bytes hashed for a challenge bind.
* **`Challenge.binds_digits`** — the challenges of all four protocols bind just that.
* `Challenge.digits_move` — what they do not bind.
-/

namespace HiddenOrder

/-! ## Transcripts -/

namespace Transcript

/-- **The bytes hashed for a challenge** are the UTF-8 form of the texts one after another. -/
theorem message_eq (t : Transcript) :
    t.message = (t.entries.flatMap String.toList).flatMap String.utf8EncodeChar := by
  rw [message, List.flatMap_assoc]
  rfl

lemma message_eq_iff {t t' : Transcript} :
    t.message = t'.message ↔ t.entries.flatMap String.toList = t'.entries.flatMap String.toList := by
  rw [message_eq, message_eq]
  exact Bytes.flatMap_utf8EncodeChar_injective.eq_iff

end Transcript

namespace Challenge

/-! ## Tuples of numbers -/

section Tuples

variable {k : ℕ} {v v' : Fin k → ℕ}

/-- The decimal digits of the numbers, one number after another. -/
def digits (v : Fin k → ℕ) : List Char := (List.ofFn v).flatMap (Nat.toDigits 10)

/-- Tuples of the same numbers of digits at all places but one. -/
def AlignedBut (i : Fin k) (v v' : Fin k → ℕ) : Prop :=
  ∀ j, j ≠ i → (Nat.toDigits 10 (v j)).length = (Nat.toDigits 10 (v' j)).length

lemma length_digits (v : Fin k → ℕ) :
    (digits v).length = ∑ j, (Nat.toDigits 10 (v j)).length := by
  rw [digits, List.length_flatMap, List.map_ofFn, List.sum_ofFn]
  rfl

/-- A number is known from its digits. -/
lemma toDigits_inj {m n : ℕ} (h : Nat.toDigits 10 m = Nat.toDigits 10 n) : m = n := by
  have hvalue := congrArg (fun ds => Nat.ofDigitChars 10 ds 0) h
  simpa using hvalue

/-- Tuples of the same numbers of digits everywhere are told apart by their digits. -/
lemma eq_of_digits_of_lengths
    (hlen : ∀ j, (Nat.toDigits 10 (v j)).length = (Nat.toDigits 10 (v' j)).length)
    (h : digits v = digits v') : v = v' := by
  induction k with
  | zero => exact Subsingleton.elim v v'
  | succ k ih =>
      simp only [digits, List.ofFn_succ, List.flatMap_cons] at h
      obtain ⟨hhead, htail⟩ := List.append_inj h (hlen 0)
      have hrest := congrFun (ih (fun j => hlen j.succ) htail)
      funext j
      cases j using Fin.cases with
      | zero => exact toDigits_inj hhead
      | succ j => exact hrest j

/-- **Tuples of the same numbers of digits at all places but one** are told apart by their digits:
the total leaves no other length for the number at that place. -/
theorem eq_of_digits {i : Fin k} (halign : AlignedBut i v v') (h : digits v = digits v') :
    v = v' := by
  have htotal := congrArg List.length h
  rw [length_digits, length_digits, ← Finset.add_sum_erase _ _ (Finset.mem_univ i),
    ← Finset.add_sum_erase _ (fun j => (Nat.toDigits 10 (v' j)).length) (Finset.mem_univ i)]
    at htotal
  have hothers : ∑ j ∈ Finset.univ.erase i, (Nat.toDigits 10 (v j)).length
      = ∑ j ∈ Finset.univ.erase i, (Nat.toDigits 10 (v' j)).length :=
    Finset.sum_congr rfl fun j hj => halign j (Finset.ne_of_mem_erase hj)
  refine eq_of_digits_of_lengths (fun j => ?_) h
  by_cases hj : j = i
  · rw [hj]
    omega
  · exact halign j hj

variable [DigitLimit]

/-- The numbers of a tuple can be written. -/
def Sayable (v : Fin k → ℕ) : Prop := ∀ j, Writable (v j)

instance (v : Fin k → ℕ) : Decidable (Sayable v) :=
  inferInstanceAs (Decidable (∀ j, Writable (v j)))

/-- Something is hashed when the numbers can be written.  It binds their digits, hence the numbers
themselves as long as all but one of them keep their numbers of digits. -/
structure Binds (hashed : (Fin k → ℕ) → Except Error Bytes) : Prop where
  /-- The bytes are there when all numbers can be written, -/
  hashes : ∀ v, Sayable v → ∃ message, hashed v = .ok message
  /-- and otherwise there are none. -/
  tooLong : ∀ v, ¬Sayable v → hashed v = .error (.fault .longNumeral)
  /-- Tuples are hashed alike exactly when they have the same digits. -/
  eq_iff : ∀ v v', Sayable v → Sayable v' → (hashed v = hashed v' ↔ digits v = digits v')
  /-- Different tuples are not hashed alike when their numbers are aligned. -/
  ne_of_aligned : ∀ v v' i, Sayable v → AlignedBut i v v' → v ≠ v' → hashed v ≠ hashed v'

/-- The same texts before and after the digits leave the digits to be bound. -/
lemma Binds.of_eq {hashed : (Fin k → ℕ) → Except Error Bytes} (before after : List Char)
    (h : ∀ v, hashed v = if Sayable v
      then .ok ((before ++ digits v ++ after).flatMap String.utf8EncodeChar)
      else .error (.fault .longNumeral)) : Binds hashed := by
  have hbound (v v') (hv : Sayable v) (hv' : Sayable v') :
      hashed v = hashed v' ↔ digits v = digits v' := by
    rw [h, h, if_pos hv, if_pos hv', Except.ok.injEq,
      Bytes.flatMap_utf8EncodeChar_injective.eq_iff, List.append_assoc, List.append_assoc,
      List.append_cancel_left_eq, List.append_cancel_right_eq]
  refine ⟨fun v hv => ⟨_, by rw [h, if_pos hv]⟩, fun v hv => by rw [h, if_neg hv], hbound, ?_⟩
  intro v v' i hv halign hne heq
  by_cases hv' : Sayable v'
  · exact hne (eq_of_digits halign ((hbound v v' hv hv').mp heq))
  · rw [h, h, if_pos hv, if_neg hv'] at heq
    cases heq

end Tuples

/-! ## A name and numbers -/

section Numbered

variable [DigitLimit] {k : ℕ}

/-- The numbers of a tuple in a row. -/
def integers (v : Fin k → ℕ) : List Int := (List.ofFn v).map fun n : ℕ => n

lemma forall_integers {v : Fin k → ℕ} : (∀ n ∈ integers v, Writable n) ↔ Sayable v := by
  rw [integers, List.forall_mem_map]
  exact List.forall_mem_ofFn_iff

omit [DigitLimit] in
lemma flatMap_integers (v : Fin k → ℕ) :
    ((integers v).map toString).flatMap String.toList = digits v := by
  rw [integers, List.map_map, List.flatMap_map, digits]
  refine List.flatMap_congr fun n _ => ?_
  show (Nat.repr n).toList = _
  exact Nat.toList_repr

/-- After a fixed name, the numbers of a tuple are bound by their digits. -/
lemma binds_numbers (name : String) : Binds fun v : Fin k → ℕ =>
    (Transcript.ofEntries (.text name :: (integers v).map .number)).map Transcript.message := by
  refine .of_eq name.toList [] fun v => ?_
  rw [Transcript.ofEntries_numbers, if_congr forall_integers rfl rfl]
  split_ifs
  · rw [Except.map, Transcript.message_eq, List.flatMap_cons, flatMap_integers, List.append_nil]
  · rfl

end Numbered

/-! ## Proofs of non-negativity -/

section Range

variable {statement : String} {kappa : Int} {delta delta' : Bytes} {v v' : Fin 8 → ℕ}

/-- What is hashed for a proof of non-negativity: the four numbers of the statement, the four
commitments, and the hash of the first message. -/
def rangeHashed [DigitLimit] (statement : String) (kappa : Int) (delta : Bytes) (v : Fin 8 → ℕ) :
    Except Error Bytes := do
  let opening ← rangeOpening statement (v 0) (v 1) (v 2) (v 3) kappa
  let t ← rangeMessage opening [.number (v 4), .number (v 5), .number (v 6), .number (v 7)] delta
  pure t.message

/-- The numbers of the statement come before the commitments. -/
lemma rangeHashed_eq [DigitLimit] (hkappa : 1 ≤ kappa) (delta : Bytes) (v : Fin 8 → ℕ) :
    rangeHashed statement kappa delta v = if Sayable v
      then .ok ((statement.toList ++ digits v ++ delta.hex.toList).flatMap String.utf8EncodeChar)
      else .error (.fault .longNumeral) := by
  obtain ⟨bound, hbound, hopening⟩ := rangeOpening_eq statement (v 0) (v 1) (v 2) (v 3) hkappa
  have hmessage (opening : Transcript) :=
    rangeMessage_numbers opening [(v 4 : Int), v 5, v 6, v 7] delta
  have hsplit : integers v = [(v 0 : Int), v 1, v 2, v 3] ++ [(v 4 : Int), v 5, v 6, v 7] := rfl
  have hsayable : Sayable v ↔ (∀ n ∈ [(v 0 : Int), v 1, v 2, v 3], Writable n) ∧
      ∀ n ∈ [(v 4 : Int), v 5, v 6, v 7], Writable n := by
    rw [← forall_integers, hsplit, List.forall_mem_append]
  rw [rangeHashed, hopening]
  by_cases hstatement : ∀ n ∈ [(v 0 : Int), v 1, v 2, v 3], Writable n
  · rw [if_pos hstatement, ok_bind]
    refine (congrArg (· >>= fun t => pure t.message) (hmessage _)).trans ?_
    by_cases hroots : ∀ n ∈ [(v 4 : Int), v 5, v 6, v 7], Writable n
    · rw [if_pos hroots, if_pos (hsayable.mpr ⟨hstatement, hroots⟩), ok_bind, pure_eq_ok,
        Transcript.message_eq, ← flatMap_integers, hsplit]
      simp
    · rw [if_neg hroots, if_neg fun h => hroots (hsayable.mp h).2]
      rfl
  · rw [if_neg hstatement, if_neg fun h => hstatement (hsayable.mp h).1]
    rfl

lemma hexDigit_inj : ∀ m < 16, ∀ n < 16, Bytes.hexDigit m = Bytes.hexDigit n → m = n := by
  decide

/-- Byte strings are told apart by their hexadecimal texts. -/
lemma hex_injective : Function.Injective Bytes.hex := by
  intro b c h
  replace h := String.ofList_injective h
  induction b generalizing c with
  | nil =>
      cases c with
      | nil => rfl
      | cons e c => simp at h
  | cons d b ih =>
      cases c with
      | nil => simp at h
      | cons e c =>
          simp only [List.flatMap_cons, List.cons_append, List.nil_append, List.cons.injEq] at h
          obtain ⟨hhigh, hlow, hrest⟩ := h
          have hd := d.toNat_lt
          have he := e.toNat_lt
          have hhigh := hexDigit_inj _ (by omega) _ (by omega) hhigh
          have hlow := hexDigit_inj _ (by omega) _ (by omega) hlow
          have hde : d = e := UInt8.toNat_inj.mp (by omega)
          rw [hde, ih hrest]

lemma length_hex (b : Bytes) : b.hex.toList.length = 2 * b.length := by
  rw [Bytes.hex, String.toList_ofList, List.length_flatMap]
  simp [mul_comm]

/-- **The hash of the first message is bound** besides the digits of the numbers. -/
theorem rangeHashed_eq_iff [DigitLimit] (hkappa : 1 ≤ kappa) (hlen : delta.length = delta'.length)
    (hv : Sayable v) (hv' : Sayable v') :
    rangeHashed statement kappa delta v = rangeHashed statement kappa delta' v' ↔
      digits v = digits v' ∧ delta = delta' := by
  rw [rangeHashed_eq hkappa, rangeHashed_eq hkappa, if_pos hv, if_pos hv', Except.ok.injEq,
    Bytes.flatMap_utf8EncodeChar_injective.eq_iff, List.append_assoc, List.append_assoc,
    List.append_cancel_left_eq]
  constructor
  · intro h
    obtain ⟨hdigits, hhex⟩ := List.append_inj' h (by rw [length_hex, length_hex, hlen])
    exact ⟨hdigits, hex_injective (String.toList_injective hhex)⟩
  · rintro ⟨hdigits, hdelta⟩
    rw [hdigits, hdelta]

end Range

/-! ## The challenges of the protocols -/

/-- **What the challenges bind.**  For the first challenge of a protocol something is hashed exactly
when its numbers can be written.  Two tuples of non-negative numbers are then hashed alike exactly
when the numbers have the same digits one after another; different tuples never are when the numbers
have the same numbers of digits at all places but one. -/
theorem binds_digits [DigitLimit] :
    (Binds fun v : Fin 4 → ℕ =>
      (poeTranscript (v 0) (v 1) (v 2) (v 3)).map Transcript.message) ∧
    (Binds fun v : Fin 3 → ℕ => (pokeStarTranscript (v 0) (v 1) (v 2)).map Transcript.message) ∧
    (Binds fun v : Fin 8 → ℕ => (zkpokeTranscript (v 0) (v 1) (v 2) (v 3) (v 4)
      (.number (v 5)) (.number (v 6)) (.number (v 7))).map Transcript.message) ∧
    ∀ (statement : String) (kappa : Int), 1 ≤ kappa → ∀ delta : Bytes,
      Binds (rangeHashed statement kappa delta) ∧
      ∀ (delta' : Bytes) (v v' : Fin 8 → ℕ), delta.length = delta'.length →
        Sayable v → Sayable v' →
        (rangeHashed statement kappa delta v = rangeHashed statement kappa delta' v' ↔
          digits v = digits v' ∧ delta = delta') := by
  refine ⟨binds_numbers "PoE", binds_numbers "PoKEStar", binds_numbers "ZKPoKE", ?_⟩
  intro statement kappa hkappa delta
  exact ⟨.of_eq _ _ (rangeHashed_eq hkappa delta),
    fun delta' v v' hlen hv hv' => rangeHashed_eq_iff hkappa hlen hv hv'⟩

open Unlimited in
/-- Another commitment, or another hash of the first message, is hashed differently. -/
theorem binds_digits_commitment :
    rangeHashed "statement" 128 [1] ![4, 9, 1081, 16, 1, 2, 3, 4]
        ≠ rangeHashed "statement" 128 [1] ![4, 9, 1081, 17, 1, 2, 3, 4] ∧
      rangeHashed "statement" 128 [1] ![4, 9, 1081, 16, 1, 2, 3, 4]
        ≠ rangeHashed "statement" 128 [2] ![4, 9, 1081, 16, 1, 2, 3, 4] := by
  obtain ⟨hbinds, hdelta⟩ := binds_digits.2.2.2 "statement" 128 (by decide) [1]
  have halign : AlignedBut 3 ![4, 9, 1081, 16, 1, 2, 3, 4] ![4, 9, 1081, 17, 1, 2, 3, 4] := by
    unfold AlignedBut
    decide
  refine ⟨hbinds.ne_of_aligned _ _ 3 (fun _ => writable_off _) halign (by decide), ?_⟩
  intro h
  exact absurd ((hdelta [2] _ _ rfl (fun _ => writable_off _) fun _ => writable_off _).mp h).2
    (by decide)

/-- Two different tuples for which the same bytes are hashed. -/
def Collide {k : ℕ} (hashed : (Fin k → ℕ) → Except Error Bytes) (v v' : Fin k → ℕ) : Prop :=
  v ≠ v' ∧ ∃ message, hashed v = .ok message ∧ hashed v' = .ok message

open Unlimited in
lemma Binds.collide {k : ℕ} {hashed : (Fin k → ℕ) → Except Error Bytes} {v v' : Fin k → ℕ}
    (h : Binds hashed) (hne : v ≠ v') (hdigits : digits v = digits v') : Collide hashed v v' := by
  have hsayable (v : Fin k → ℕ) : Sayable v := fun _ => writable_off _
  obtain ⟨message, hmessage⟩ := h.hashes v (hsayable v)
  exact ⟨hne, message, hmessage,
    ((h.eq_iff v v' (hsayable v) (hsayable v')).mpr hdigits).symm.trans hmessage⟩

open Unlimited in
/-- **What the challenges do not bind**: under each protocol a digit may move from one number to the
next, and two different tuples are hashed alike. -/
theorem digits_move :
    Collide (fun v => (poeTranscript (v 0) (v 1) (v 2) (v 3)).map Transcript.message)
      ![4, 1081, 16, 2] ![4, 1081, 1, 62] ∧
    Collide (fun v => (pokeStarTranscript (v 0) (v 1) (v 2)).map Transcript.message)
      ![4, 1081, 16] ![4, 108, 116] ∧
    Collide (fun v => (zkpokeTranscript (v 0) (v 1) (v 2) (v 3) (v 4)
        (.number (v 5)) (.number (v 6)) (.number (v 7))).map Transcript.message)
      ![4, 9, 1081, 4, 16, 5, 6, 7] ![4, 9, 1081, 4, 1, 65, 6, 7] ∧
    Collide (rangeHashed "statement" 128 [1])
      ![4, 9, 1081, 16, 1, 2, 3, 4] ![4, 9, 1081, 1, 61, 2, 3, 4] := by
  have hrange : Binds (rangeHashed "statement" 128 [1]) :=
    .of_eq _ _ (rangeHashed_eq (by decide) [1])
  exact ⟨(binds_numbers "PoE").collide (by decide) (by decide),
    (binds_numbers "PoKEStar").collide (by decide) (by decide),
    (binds_numbers "ZKPoKE").collide (by decide) (by decide),
    hrange.collide (by decide) (by decide)⟩

end Challenge

end HiddenOrder
