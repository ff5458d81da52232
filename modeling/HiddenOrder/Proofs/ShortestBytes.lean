import HiddenOrder.Proofs.Bytes
import HiddenOrder.Proofs.Challenge
import HiddenOrder.Protocol.NonNegative
import Mathlib.Algebra.Order.Ring.Int

/-!
# Numbers and their shortest byte strings

Several byte strings stand for one number, since zero bytes in front do not count; only one of them
is what the number is written as.  Its first byte is not zero, unless it is the one zero byte that
zero is written as, and the byte strings of that kind are the ones that reading and writing back
leaves alone.

Everything follows from two equations: a number below 256 is one byte, and any other one is the
bytes of its quotient by 256 with the remainder behind them.

* `Bytes.Shortest` — the byte strings that numbers are written as.
* `Bytes.ofNat_of_lt`, **`Bytes.ofNat_of_le`** — one byte, or one byte more.
* **`Bytes.toNat_ofNat`**, **`Bytes.shortest_ofNat`**, **`Bytes.ofNat_toNat`** — writing, reading.
* `Bytes.length_ofNat`, `Bytes.length_ofNat_toNat_le` — how many bytes a number takes.
* `hashElements_of_nonneg`, **`exists_collision`** — rows of digests, and two that are the same.
* **`shortest_byte_strings`** — integers that are not negative and shortest byte strings correspond,
  and a row of digests tells the integers apart unless digests collide.
-/

namespace HiddenOrder

namespace Bytes

/-- A byte string that a number is written as: it is not empty, and its first byte is not zero
unless there is no other. -/
def Shortest (b : Bytes) : Prop := b ≠ [] ∧ (b = [0] ∨ b.head? ≠ some 0)

instance (b : Bytes) : Decidable b.Shortest :=
  inferInstanceAs (Decidable (b ≠ [] ∧ (b = [0] ∨ b.head? ≠ some 0)))

/-! ## One byte after another -/

lemma digits_append (n : ℕ) (tail : Bytes) : digits n tail = digits n [] ++ tail := by
  induction n using Nat.strong_induction_on generalizing tail with
  | _ n ih =>
      by_cases hn : n = 0
      · subst hn
        simp [digits]
      · have hdigits (t : Bytes) : digits n t = digits (n / 256) (UInt8.ofNat (n % 256) :: t) := by
          rw [digits, if_neg hn]
        have hless : n / 256 < n := by omega
        rw [hdigits, hdigits, ih _ hless (_ :: tail), ih _ hless [_], List.append_assoc,
          List.singleton_append]

/-- A number below 256 is one byte. -/
lemma ofNat_of_lt {n : ℕ} (h : n < 256) : ofNat n = [UInt8.ofNat n] := by
  by_cases hn : n = 0
  · rw [ofNat, if_pos hn, hn]
    rfl
  · rw [ofNat, if_neg hn, digits, if_neg hn, Nat.div_eq_of_lt h, Nat.mod_eq_of_lt h, digits,
      if_pos rfl]

/-- **A number from 256 on is the bytes of its quotient by 256, and the remainder.** -/
theorem ofNat_of_le {n : ℕ} (h : 256 ≤ n) :
    ofNat n = ofNat (n / 256) ++ [UInt8.ofNat (n % 256)] := by
  rw [ofNat, if_neg (by omega), ofNat, if_neg (by omega), digits, if_neg (by omega), digits_append]

lemma ofNat_toNat_byte (d : UInt8) : ofNat d.toNat = [d] := by
  rw [ofNat_of_lt d.toNat_lt, UInt8.ofNat_toNat]

@[simp]
lemma toNat_singleton (d : UInt8) : toNat [d] = d.toNat := by
  rw [toNat, List.foldl_cons, List.foldl_nil, zero_mul, zero_add]

/-- The bytes of a number with one byte behind them are those of the number with that remainder. -/
lemma ofNat_mul_add {n : ℕ} (hn : 0 < n) (d : UInt8) :
    ofNat (n * 256 + d.toNat) = ofNat n ++ [d] := by
  have hd := d.toNat_lt
  have hquotient : (n * 256 + d.toNat) / 256 = n := by omega
  have hremainder : (n * 256 + d.toNat) % 256 = d.toNat := by omega
  rw [ofNat_of_le (by omega), hquotient, hremainder, UInt8.ofNat_toNat]

/-- **A number is read back from the bytes that it is written as.** -/
theorem toNat_ofNat (n : ℕ) : toNat (ofNat n) = n := by
  induction n using Nat.strong_induction_on with
  | _ n ih =>
      obtain h | h : n < 256 ∨ 256 ≤ n := by omega
      · rw [ofNat_of_lt h, toNat_singleton, UInt8.toNat_ofNat_of_lt' h]
      · have hremainder : n % 256 < UInt8.size := Nat.mod_lt n (by decide)
        rw [ofNat_of_le h, toNat_append_singleton, ih (n / 256) (by omega),
          UInt8.toNat_ofNat_of_lt' hremainder]
        omega

lemma ofNat_injective : Function.Injective ofNat :=
  Function.LeftInverse.injective toNat_ofNat

/-! ## The shortest byte string of a number -/

/-- Of two bytes or more, the last does not matter: what counts is that the first is not zero. -/
lemma shortest_append_singleton {b : Bytes} (hb : b ≠ []) (d : UInt8) :
    (b ++ [d]).Shortest ↔ b.head? ≠ some 0 := by
  cases b with
  | nil => exact absurd rfl hb
  | cons e rest => simp [Shortest]

lemma toNat_pos {b : Bytes} (hb : b ≠ []) (hhead : b.head? ≠ some 0) : 0 < toNat b := by
  induction b using List.reverseRecOn with
  | nil => exact absurd rfl hb
  | append_singleton b d ih =>
      rw [toNat_append_singleton]
      cases b with
      | nil =>
          have hd : d.toNat ≠ 0 := fun h => hhead (congrArg some (UInt8.toNat_inj.mp h))
          omega
      | cons e rest =>
          have hpos := ih (List.cons_ne_nil e rest) hhead
          omega

/-- **What a number is written as is shortest.** -/
theorem shortest_ofNat (n : ℕ) : (ofNat n).Shortest := by
  induction n using Nat.strong_induction_on with
  | _ n ih =>
      obtain h | h : n < 256 ∨ 256 ≤ n := by omega
      · rw [ofNat_of_lt h]
        refine ⟨List.cons_ne_nil _ _, ?_⟩
        by_cases hzero : UInt8.ofNat n = 0
        · exact .inl (by rw [hzero])
        · exact .inr fun hhead => hzero (Option.some.inj hhead)
      · obtain ⟨hnil, hfirst⟩ := ih (n / 256) (by omega)
        rw [ofNat_of_le h, shortest_append_singleton hnil]
        -- the quotient is not zero, so it is not the one zero byte
        refine hfirst.resolve_left fun hzero => ?_
        have hquotient := toNat_ofNat (n / 256)
        rw [hzero, toNat_singleton] at hquotient
        have : n / 256 = 0 := hquotient.symm
        omega

/-- **A shortest byte string is what its number is written as.** -/
theorem ofNat_toNat {b : Bytes} (h : b.Shortest) : ofNat (toNat b) = b := by
  induction b using List.reverseRecOn with
  | nil => exact absurd rfl h.1
  | append_singleton b d ih =>
      by_cases hnil : b = []
      · rw [hnil, List.nil_append, toNat_singleton, ofNat_toNat_byte]
      · have hhead := (shortest_append_singleton hnil d).mp h
        rw [toNat_append_singleton, ofNat_mul_add (toNat_pos hnil hhead), ih ⟨hnil, .inr hhead⟩]

/-- No byte string is shorter than what its number is written as, apart from the empty one. -/
lemma length_ofNat_toNat_le {b : Bytes} (hb : b ≠ []) : (ofNat (toNat b)).length ≤ b.length := by
  induction b using List.reverseRecOn with
  | nil => exact absurd rfl hb
  | append_singleton b d ih =>
      rw [toNat_append_singleton, List.length_append, List.length_singleton]
      obtain hzero | hpos := Nat.eq_zero_or_pos (toNat b)
      · rw [hzero, zero_mul, zero_add, ofNat_toNat_byte, List.length_singleton]
        exact Nat.le_add_left 1 _
      · have hnil : b ≠ [] := by
          rintro rfl
          exact absurd hpos (by decide)
        rw [ofNat_mul_add hpos, List.length_append, List.length_singleton]
        exact Nat.succ_le_succ (ih hnil)

/-! ## How many bytes a number takes -/

lemma bitLength_le_of_lt {n : ℕ} (h : n < 256) : bitLength n ≤ 8 := by
  by_cases hn : n = 0
  · rw [bitLength, if_pos hn]
    exact Nat.zero_le 8
  · rw [bitLength, if_neg hn]
    exact (Nat.log2_lt hn).mpr h

/-- Division by 256 takes eight binary digits away. -/
lemma bitLength_of_le {n : ℕ} (h : 256 ≤ n) : bitLength n = bitLength (n / 256) + 8 := by
  obtain ⟨k, hk⟩ : ∃ k, bitLength (n / 256) = k + 1 := by
    refine ⟨(n / 256).log2, ?_⟩
    rw [bitLength, if_neg (by omega)]
  obtain ⟨hle, hlt⟩ := bitLength_eq_iff.mp hk
  have hlong : bitLength n = k + 8 + 1 := by
    rw [bitLength_eq_iff, show k + 8 + 1 = k + 1 + 8 by omega, pow_add, pow_add _ (k + 1)]
    omega
  omega

/-- A number takes a byte for every eight binary digits, and zero takes one as well. -/
lemma length_ofNat (n : ℕ) : (ofNat n).length = max 1 ((bitLength n + 7) / 8) := by
  induction n using Nat.strong_induction_on with
  | _ n ih =>
      obtain h | h : n < 256 ∨ 256 ≤ n := by omega
      · have hshort := bitLength_le_of_lt h
        rw [ofNat_of_lt h, List.length_singleton]
        omega
      · have hpos : 0 < bitLength (n / 256) := by
          rw [bitLength, if_neg (by omega)]
          exact Nat.succ_pos _
        rw [ofNat_of_le h, List.length_append, List.length_singleton, ih (n / 256) (by omega),
          bitLength_of_le h]
        omega

end Bytes

/-! ## Integers and rows of digests -/

lemma Digest.bytes_injective : Function.Injective Digest.bytes := by
  rintro ⟨b, hb⟩ ⟨c, hc⟩ (rfl : b = c)
  rfl

lemma encodeInt_of_nonneg [DigitLimit] {x : ℤ} (hx : 0 ≤ x) :
    encodeInt x = .ok (Bytes.ofNat x.toNat) := by
  rw [encodeInt, if_neg (not_lt.mpr hx)]

lemma encodeInt_natCast [DigitLimit] (n : ℕ) : encodeInt n = .ok (Bytes.ofNat n) :=
  encodeInt_of_nonneg (Int.natCast_nonneg n)

/-- The digests of some integers, each of its shortest bytes. -/
lemma hashElements_of_nonneg [DigitLimit] (hash : HashFunction) {xs : List ℤ}
    (h : ∀ x ∈ xs, 0 ≤ x) :
    hashElements hash xs = .ok (xs.flatMap fun x => (hash (Bytes.ofNat x.toNat)).bytes) := by
  induction xs with
  | nil => rfl
  | cons x xs ih =>
      obtain ⟨hx, hxs⟩ := List.forall_mem_cons.mp h
      rw [hashElements, encodeInt_of_nonneg hx, ok_bind, ih hxs, ok_bind, pure_eq_ok,
        List.flatMap_cons]

/-- **Different integers with the same row of digests come with a collision**: at some place they
differ, and so do their bytes, which have one digest. -/
theorem exists_collision [DigitLimit] {hash : HashFunction} {xs ys : List ℤ}
    (hlen : xs.length = ys.length) (hxs : ∀ x ∈ xs, 0 ≤ x) (hys : ∀ y ∈ ys, 0 ≤ y) (hne : xs ≠ ys)
    (h : xs.flatMap (fun x => (hash (Bytes.ofNat x.toNat)).bytes)
      = ys.flatMap fun y => (hash (Bytes.ofNat y.toNat)).bytes) :
    ∃ p ∈ xs.zip ys, ∃ b c, encodeInt p.1 = .ok b ∧ encodeInt p.2 = .ok c ∧ b ≠ c ∧
      hash b = hash c := by
  induction xs generalizing ys with
  | nil => exact absurd (List.length_eq_zero_iff.mp hlen.symm).symm hne
  | cons x xs ih =>
      cases ys with
      | nil => exact absurd hlen (Nat.succ_ne_zero _)
      | cons y ys =>
          obtain ⟨hx, hxs⟩ := List.forall_mem_cons.mp hxs
          obtain ⟨hy, hys⟩ := List.forall_mem_cons.mp hys
          rw [List.flatMap_cons, List.flatMap_cons] at h
          -- all digests have one length, so the two rows are cut at the same places
          obtain ⟨hfirst, hrest⟩ := List.append_inj h
            ((hash _).length_bytes.trans (hash _).length_bytes.symm)
          by_cases hxy : x = y
          · have hne' : xs ≠ ys := fun heq => hne (by rw [hxy, heq])
            obtain ⟨p, hp, hcollide⟩ := ih (Nat.succ.inj hlen) hxs hys hne' hrest
            exact ⟨p, List.mem_cons_of_mem _ hp, hcollide⟩
          · refine ⟨(x, y), List.mem_cons_self, _, _, encodeInt_of_nonneg hx,
              encodeInt_of_nonneg hy, fun heq => hxy ?_, ?_⟩
            · have := Bytes.ofNat_injective heq
              omega
            · exact Digest.bytes_injective hfirst

/-- **Integers and their byte strings correspond.**  An integer that is not negative is written in
so many bytes as its binary digits need, which are shortest, no longer than any others that stand
for it, and read back as the integer.  What is read off a byte string is written as that byte string
exactly when it is shortest.  Rows of such integers, of one length, have their digests; when two
rows differ and their digests do not, the bytes of two integers at one place collide. -/
theorem shortest_byte_strings [DigitLimit] (hash : HashFunction) :
    (∀ x : ℤ, 0 ≤ x → ∃ b, encodeInt x = .ok b ∧ (Bytes.toNat b : ℤ) = x ∧ b.Shortest ∧
      b.length = max 1 ((bitLength x.toNat + 7) / 8) ∧
      ∀ c : Bytes, c ≠ [] → (Bytes.toNat c : ℤ) = x → b.length ≤ c.length) ∧
    (∀ b : Bytes, encodeInt (Bytes.toNat b) = .ok b ↔ b.Shortest) ∧
    ∀ xs ys : List ℤ, (∀ x ∈ xs, 0 ≤ x) → (∀ y ∈ ys, 0 ≤ y) → xs.length = ys.length →
      ∃ digests digests', hashElements hash xs = .ok digests ∧
        hashElements hash ys = .ok digests' ∧
        (xs ≠ ys → digests = digests' → ∃ p ∈ xs.zip ys, ∃ b c,
          encodeInt p.1 = .ok b ∧ encodeInt p.2 = .ok c ∧ b ≠ c ∧ hash b = hash c) := by
  refine ⟨fun x hx => ?_, fun b => ?_, fun xs ys hxs hys hlen => ?_⟩
  · obtain ⟨n, rfl⟩ := Int.eq_ofNat_of_zero_le hx
    refine ⟨Bytes.ofNat n, encodeInt_natCast n, congrArg _ (Bytes.toNat_ofNat n),
      Bytes.shortest_ofNat n, Bytes.length_ofNat n, fun c hc hread => ?_⟩
    rw [← Nat.cast_inj.mp hread]
    exact Bytes.length_ofNat_toNat_le hc
  · rw [encodeInt_natCast, Except.ok.injEq]
    constructor
    · intro h
      rw [← h]
      exact Bytes.shortest_ofNat (Bytes.toNat b)
    · exact Bytes.ofNat_toNat
  · exact ⟨_, _, hashElements_of_nonneg hash hxs, hashElements_of_nonneg hash hys,
      exists_collision hlen hxs hys⟩

open Unlimited in
/-- Two to the sixteenth takes a third byte, a zero in front of a byte is lost, and under a hash of
the length's parity one byte and three bytes collide. -/
theorem shortest_byte_strings_parityHash :
    ((0 : ℤ) ≤ 65536 ∧ (∀ x ∈ ([5, 255] : List ℤ), 0 ≤ x) ∧ ∀ y ∈ ([5, 65536] : List ℤ), 0 ≤ y) ∧
    (∃ b, encodeInt 65536 = .ok b ∧ (Bytes.toNat b : ℤ) = 65536 ∧ b.length = 3) ∧
    Bytes.toNat [0, 7] = 7 ∧ encodeInt (Bytes.toNat [0, 7]) ≠ .ok [0, 7] ∧
    ∃ p ∈ [((5 : ℤ), (5 : ℤ)), (255, 65536)], ∃ b c, encodeInt p.1 = .ok b ∧
      encodeInt p.2 = .ok c ∧ b ≠ c ∧ parityHash b = parityHash c := by
  obtain ⟨hwritten, hread, hrows⟩ := shortest_byte_strings parityHash
  obtain ⟨b, hb, hvalue, -, hlength, -⟩ := hwritten 65536 (by decide)
  obtain ⟨digests, digests', h, h', hcollide⟩ :=
    hrows [5, 255] [5, 65536] (by decide) (by decide) rfl
  have hparity : parityHash (Bytes.ofNat 255) = parityHash (Bytes.ofNat 65536) := by
    decide +kernel
  have hsame : hashElements parityHash [5, 255] = hashElements parityHash [5, 65536] := by
    rw [hashElements_of_nonneg parityHash (by decide),
      hashElements_of_nonneg parityHash (by decide)]
    show Except.ok (_ ++ ((parityHash (Bytes.ofNat 255)).bytes ++ [])) = _
    rw [hparity]
    rfl
  exact ⟨by decide, ⟨b, hb, hvalue, hlength⟩, rfl, mt (hread [0, 7]).mp (by decide),
    hcollide (by decide) (Except.ok.inj (h.symm.trans (hsame.trans h')))⟩

end HiddenOrder
