import HiddenOrder.Proofs.Challenge
import HiddenOrder.Proofs.Elements
import HiddenOrder.Proofs.Membership
import HiddenOrder.Proofs.Representative
import HiddenOrder.Proofs.Text

/-!
# The first prime among the digests of an element

An element is hashed, the digest is hashed, and so on, until the value of a digest is prime.  No
digest may be left out and none hashed twice on the way: another prime would pass every test that a
representative ever meets, and yet two programs would disagree on what stands for the element.  So
the statement is about the whole chain.  The value that is returned is that of the element hashed
`k` times over, it is prime, and hashing less often gives none.

The bytes of an element are those of its UTF-8 form, or the byte string that it is; a text with half
of a surrogate pair has no UTF-8 form, and no number stands for it.

Every representative is positive, a prime as well as an offset with a digest added, and that is all
that an accumulator asks of it.

* `FirstPrime`, **`hashToPrime_eq_ok_iff`** — the place of the first prime, and what the search
  returns.
* `Element.HasBytes`, **`Element.toBytes_eq_ok_iff`** — the bytes of an element.
* `Represents`, **`encode_eq_ok_iff`** — the number that stands for a byte string.
* **`representatives_eq_ok_iff`** — the numbers of a list of elements, in order.
* **`representatives_accepted`** — what they are, and that an accumulator takes them.
-/

namespace HiddenOrder

variable {o : Oracles} {hash : HashFunction} {b : Bytes} {k : ℕ}

/-! ## The chain -/

/-- Hashed `k` times over, but at least once, the byte string gives a prime, and no earlier digest
does. -/
structure FirstPrime (hash : HashFunction) (b : Bytes) (k : ℕ) : Prop where
  one_le : 1 ≤ k
  prime : (Bytes.bigEndian (Digest.repeated hash k b)).Prime
  before : ∀ j, 1 ≤ j → j < k → ¬(Bytes.bigEndian (Digest.repeated hash j b)).Prime

lemma firstAt_iff_firstPrime (hexact : ∀ n, o.isPrime n = true ↔ n.Prime) :
    Digest.FirstAt o.hash Digest.toNat (fun n => o.isPrime.int n) (o.hash b) k ↔
      FirstPrime o.hash b (k + 1) := by
  have hvalue (j : ℕ) : o.isPrime.int (Digest.iterate o.hash j (o.hash b)).toNat = true ↔
      (Bytes.bigEndian (Digest.repeated o.hash (j + 1) b)).Prime := by
    rw [isPrime_int hexact, Int.toNat_natCast, Digest.toNat_iterate]
  constructor
  · rintro ⟨haccepted, hrefused⟩
    refine ⟨Nat.succ_pos k, (hvalue k).mp haccepted, fun j hj hjk hprime => ?_⟩
    obtain ⟨i, rfl⟩ := Nat.exists_eq_succ_of_ne_zero (Nat.one_le_iff_ne_zero.mp hj)
    have hrefuse := hrefused i (Nat.lt_of_succ_lt_succ hjk)
    rw [(hvalue i).mpr hprime] at hrefuse
    cases hrefuse
  · rintro ⟨-, hprime, hbefore⟩
    refine ⟨(hvalue k).mpr hprime, fun j hj => ?_⟩
    rw [← Bool.not_eq_true]
    exact fun haccepted => hbefore (j + 1) (Nat.succ_pos j) (Nat.succ_lt_succ hj)
      ((hvalue j).mp haccepted)

/-- **The search returns the first prime of the chain**, if it is among so many digests as there are
steps, and returns nothing else. -/
theorem hashToPrime_eq_ok_iff (hexact : ∀ n, o.isPrime n = true ↔ n.Prime) {v : ℕ} :
    hashToPrime o b = .ok v ↔
      ∃ k ≤ o.steps, FirstPrime o.hash b k ∧ Bytes.bigEndian (Digest.repeated o.hash k b) = v := by
  rw [hashToPrime, Digest.search_eq_ok_iff]
  constructor
  · rintro ⟨k, hk, hfirst, hv⟩
    rw [Digest.toNat_iterate] at hv
    exact ⟨k + 1, hk, (firstAt_iff_firstPrime hexact).mp hfirst, hv⟩
  · rintro ⟨k, hk, hfirst, hv⟩
    obtain ⟨i, rfl⟩ := Nat.exists_eq_succ_of_ne_zero (Nat.one_le_iff_ne_zero.mp hfirst.one_le)
    refine ⟨i, hk, (firstAt_iff_firstPrime hexact).mpr hfirst, ?_⟩
    rw [Digest.toNat_iterate, hv]

/-! ## Representatives -/

/-- The number stands for the byte string: it is the first prime of the chain, within the steps, or
the offset with the digest added. -/
def Represents (o : Oracles) (encoding : Encoding) (b : Bytes) (n : ℕ) : Prop :=
  match encoding with
  | .hashToPrime =>
      ∃ k ≤ o.steps, FirstPrime o.hash b k ∧ Bytes.bigEndian (Digest.repeated o.hash k b) = n
  | .diHash => diOffset + Bytes.bigEndian (Digest.repeated o.hash 1 b) = n
  | .unknown _ => False

/-- The byte string is that of the element: the UTF-8 form of the string with the code points of the
text, or the byte string that the element is. -/
def Element.HasBytes : Element → Bytes → Prop
  | .text t, b => ∃ s : String, s.toList.map Char.toNat = t ∧ s.toUTF8.data.toList = b
  | .bytes b', b => b' = b
  | .other _, _ => False

/-- The number stands for the bytes of the element. -/
def Element.RepresentedBy (o : Oracles) (encoding : Encoding) (e : Element) (r : ℤ) : Prop :=
  ∃ b n, e.HasBytes b ∧ Represents o encoding b n ∧ r = n

section

variable {encoding : Encoding} {e : Element} {n : ℕ}

/-- **An element is turned into its bytes**, if it has any. -/
theorem Element.toBytes_eq_ok_iff [DigitLimit] : e.toBytes = .ok b ↔ e.HasBytes b := by
  cases e with
  | text t =>
      rw [toBytes, HasBytes]
      constructor
      · intro h
        cases hs : t.toString? with
        | none => simp [hs] at h
        | some s =>
            rw [hs] at h
            cases h
            exact ⟨s, Text.toString?_eq_some_iff.mp hs, (Bytes.utf8_eq s).symm⟩
      · rintro ⟨s, hs, rfl⟩
        rw [Text.toString?_eq_some_iff.mpr hs]
        exact congrArg Except.ok (Bytes.utf8_eq s)
  | bytes b' => exact Except.ok.injEq b' b ▸ Iff.rfl
  | other value => exact iff_of_false nofun id

lemma diHash_eq (hash : HashFunction) (b : Bytes) :
    diHash hash b = diOffset + Bytes.bigEndian (Digest.repeated hash 1 b) :=
  congrArg (diOffset + ·) (Digest.toNat_iterate 0 b)

lemma Represents.pos (h : Represents o encoding b n) : 0 < n := by
  cases encoding with
  | hashToPrime =>
      obtain ⟨k, -, hfirst, rfl⟩ := h
      exact hfirst.prime.pos
  | diHash =>
      obtain rfl : diHash o.hash b = n := (diHash_eq o.hash b).trans h
      exact diHash_pos o.hash b
  | unknown tag => exact h.elim

lemma Element.RepresentedBy.pos {r : ℤ} (h : e.RepresentedBy o encoding r) : 0 < r := by
  obtain ⟨b, n, -, hrepresents, rfl⟩ := h
  exact Int.natCast_pos.mpr hrepresents.pos

/-- **An element is encoded by the number that stands for its bytes.** -/
theorem encode_eq_ok_iff [DigitLimit] (hexact : ∀ n, o.isPrime n = true ↔ n.Prime) :
    encode o encoding e = .ok n ↔ ∃ b, e.HasBytes b ∧ Represents o encoding b n := by
  cases encoding with
  | hashToPrime =>
      rw [encode, bind_eq_ok]
      simp only [Element.toBytes_eq_ok_iff, hashToPrime_eq_ok_iff hexact, Represents]
  | diHash =>
      rw [encode, bind_eq_ok]
      simp only [Element.toBytes_eq_ok_iff, pure_eq_ok, Except.ok.injEq, diHash_eq, Represents]
  | unknown tag => simp [encode, Represents]

/-- **The numbers of some elements** are those that stand for them, one by one and in order. -/
theorem representatives_eq_ok_iff [DigitLimit] (hexact : ∀ n, o.isPrime n = true ↔ n.Prime)
    {elements : List Element} {reps : List ℤ} :
    representatives o encoding elements = .ok reps ↔
      List.Forall₂ (Element.RepresentedBy o encoding) elements reps := by
  induction elements generalizing reps with
  | nil =>
      rw [representatives, pure_eq_ok, Except.ok.injEq, List.forall₂_nil_left_iff]
      exact eq_comm
  | cons e es ih =>
      rw [representatives, bind_eq_ok, List.forall₂_cons_left_iff]
      constructor
      · rintro ⟨n, hn, hrest⟩
        obtain ⟨ns, hns, hreps⟩ := bind_eq_ok.mp hrest
        cases hreps
        obtain ⟨b, hb, hrepresents⟩ := (encode_eq_ok_iff hexact).mp hn
        exact ⟨n, ns, ⟨b, n, hb, hrepresents, rfl⟩, ih.mp hns, rfl⟩
      · rintro ⟨r, rs, ⟨b, n, hb, hrepresents, rfl⟩, hrs, rfl⟩
        refine ⟨n, (encode_eq_ok_iff hexact).mpr ⟨b, hb, hrepresents⟩, ?_⟩
        rw [ih.mpr hrs]
        rfl

/-- **Representatives are accepted.**  The search for a prime returns the first one on the chain of
digests of the bytes of an element, if that comes within the steps; no earlier digest has a prime as
its value.  By either encoding the numbers of some elements are those that stand for them, in order;
they are positive, and with a modulus and a base that are fit themselves nothing about them is
refused. -/
theorem representatives_accepted [DigitLimit] (hexact : ∀ n, o.isPrime n = true ↔ n.Prime) :
    (∀ e v, encode o .hashToPrime e = .ok v ↔ ∃ b, e.HasBytes b ∧
      ∃ k ≤ o.steps, FirstPrime o.hash b k ∧ Bytes.bigEndian (Digest.repeated o.hash k b) = v) ∧
    ∀ encoding elements reps,
      (representatives o encoding elements = .ok reps ↔
        List.Forall₂ (Element.RepresentedBy o encoding) elements reps) ∧
      (representatives o encoding elements = .ok reps → (∀ r ∈ reps, 0 < r) ∧
        ∀ base N, 2 ≤ N → 0 < base → base < N → validate base N reps = .ok ()) := by
  refine ⟨fun e v => encode_eq_ok_iff hexact, fun encoding elements reps =>
    ⟨representatives_eq_ok_iff hexact, fun hreps => ?_⟩⟩
  have hstand := (representatives_eq_ok_iff hexact).mp hreps
  have hflip : List.Forall₂ (fun r e => 0 < r ∧ e.RepresentedBy o encoding r) reps elements :=
    List.Forall₂.flip (hstand.imp fun e r h => ⟨h.pos, h⟩)
  have hpos : ∀ r ∈ reps, 0 < r := ((List.forall₂_and_left _ _).mp hflip).1
  exact ⟨hpos, fun base N hN hbase hlt => validate_ok hN ⟨hbase, hlt⟩ hpos⟩

open Unlimited in
/-- The digest of the empty string is zero and everything else has the digest two, so the empty
string is hashed twice and another one once. -/
theorem representatives_accepted_empty :
    (∀ n, emptinessOracles.isPrime n = true ↔ n.Prime) ∧
    encode emptinessOracles .hashToPrime (.bytes []) = .ok 2 ∧
    (∃ b, (Element.bytes []).HasBytes b ∧ ∃ k ≤ 2, FirstPrime emptinessHash b k ∧
      Bytes.bigEndian (Digest.repeated emptinessHash k b) = 2) ∧
    representatives emptinessOracles .hashToPrime [.bytes [], .text [0xe9]] = .ok [2, 2] ∧
    validate 4 15 [2, 2] = .ok () := by
  have hexact : ∀ n, emptinessOracles.isPrime n = true ↔ n.Prime := fun n => decide_eq_true_iff
  have hfound : encode emptinessOracles .hashToPrime (.bytes []) = .ok 2 := rfl
  have hreps : representatives emptinessOracles .hashToPrime [.bytes [], .text [0xe9]]
      = .ok [2, 2] := rfl
  obtain ⟨hfirst, hnumbers⟩ := representatives_accepted hexact
  exact ⟨hexact, hfound, (hfirst _ 2).mp hfound, hreps,
    ((hnumbers _ _ _).2 hreps).2 4 15 (by decide) (by decide) (by decide)⟩

end

end HiddenOrder
