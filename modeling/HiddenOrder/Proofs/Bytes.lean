import HiddenOrder.Bytes
import Mathlib.Algebra.Ring.Nat
import Mathlib.Data.List.Induction
import Mathlib.Data.Nat.Digits.Defs
import Mathlib.Logic.Function.Defs
import Mathlib.Tactic.Lemma

/-!
# Byte strings and what they stand for

* `Bytes.bigEndian`, **`Bytes.toNat_eq`** — the number that a byte string is the big-endian form of.
* **`Bytes.toNat_inj`** — byte strings of one length are told apart by their numbers.
* **`Bytes.utf8_eq`**, `Bytes.flatMap_utf8` — the UTF-8 form of a string, and of several in a row.
* **`Bytes.flatMap_utf8EncodeChar_injective`** — texts are told apart by their UTF-8 forms.
* `bitLength_eq_iff` — the numbers of so many binary digits.
-/

namespace HiddenOrder

lemma bitLength_eq_iff {n k : Nat} : bitLength n = k + 1 ↔ 2 ^ k ≤ n ∧ n < 2 ^ (k + 1) := by
  by_cases hn : n = 0
  · have := Nat.two_pow_pos k
    rw [bitLength, if_pos hn]
    omega
  · rw [bitLength, if_neg hn, ← Nat.le_log2 hn, ← Nat.log2_lt hn]
    omega

namespace Bytes

lemma toNat_append_singleton (b : Bytes) (d : UInt8) :
    toNat (b ++ [d]) = toNat b * 256 + d.toNat := by
  simp [toNat, List.foldl_append]

/-- The number whose digits in base 256 the bytes are, the first one being the highest. -/
def bigEndian (b : Bytes) : ℕ := Nat.ofDigits 256 (b.reverse.map UInt8.toNat)

/-- **A byte string stands for the number that it is the big-endian form of.** -/
theorem toNat_eq (b : Bytes) : toNat b = bigEndian b := by
  induction b using List.reverseRecOn with
  | nil => rfl
  | append_singleton b d ih =>
      rw [toNat_append_singleton, ih, bigEndian, bigEndian, List.reverse_append,
        List.reverse_singleton, List.singleton_append, List.map_cons, Nat.ofDigits_cons,
        Nat.mul_comm, Nat.add_comm]

/-- So many bytes stand for a number of so many digits in base 256. -/
lemma toNat_lt (b : Bytes) : toNat b < 256 ^ b.length := by
  induction b using List.reverseRecOn with
  | nil => exact Nat.one_pos
  | append_singleton b d ih =>
      have hd := d.toNat_lt
      rw [toNat_append_singleton, List.length_append, List.length_singleton, pow_succ]
      omega

/-- **Byte strings of one length are told apart by their numbers.** -/
theorem toNat_inj {b c : Bytes} (hlen : b.length = c.length) (h : toNat b = toNat c) : b = c := by
  induction b using List.reverseRecOn generalizing c with
  | nil => exact (List.length_eq_zero_iff.mp hlen.symm).symm
  | append_singleton b d ih =>
      rcases List.eq_nil_or_concat c with rfl | ⟨c, e, rfl⟩
      · simp at hlen
      · simp only [List.concat_eq_append, toNat_append_singleton] at h hlen ⊢
        have hd := d.toNat_lt
        have he := e.toNat_lt
        have hde : d = e := UInt8.toNat_inj.mp (by omega)
        have hbc : b = c := ih (by simpa using hlen) (by omega)
        rw [hbc, hde]

/-- **The UTF-8 form of a string**, character by character, is the one of the library. -/
theorem utf8_eq (s : String) : utf8 s = s.toUTF8.data.toList := by
  rw [utf8, ← List.toList_data_toByteArray (l := s.toList.flatMap _)]
  exact congrArg (fun b : ByteArray => b.data.toList) String.utf8Encode_toList

/-- The UTF-8 forms of some strings in a row are that of the joined string. -/
lemma flatMap_utf8 (ss : List String) : ss.flatMap utf8 = (String.join ss).toUTF8.data.toList := by
  rw [← utf8_eq, utf8, String.toList_join, List.flatMap_assoc]
  rfl

/-- **Texts are told apart by their UTF-8 forms.** -/
lemma flatMap_utf8EncodeChar_injective :
    Function.Injective fun cs : List Char => cs.flatMap String.utf8EncodeChar := by
  intro cs ds h
  have hencode : cs.utf8Encode = ds.utf8Encode := congrArg List.toByteArray h
  have hdecode := congrArg ByteArray.utf8Decode? hencode
  simpa using hdecode

end Bytes

end HiddenOrder
