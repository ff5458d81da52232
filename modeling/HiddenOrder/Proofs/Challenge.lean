import HiddenOrder.Proofs.Bytes
import HiddenOrder.Proofs.Wording
import HiddenOrder.Transcript.Challenges
import Mathlib.Data.Nat.Prime.Defs

/-!
# What challenges are

A challenge is read off a chain of digests that is walked until a value is acceptable.  The walk
can only return an acceptable value or run out of steps, and it depends on nothing but the
transcript; from this follows all that the protocols need to know of their challenges.  The
transcript comes first, and there is none when a number in it is too long to be written.

* `Digest.repeated` — a byte string hashed so many times over.
* `Digest.FirstAt`, **`Digest.search_eq_ok_iff`** — a walk returns the first acceptable value.
* `Digest.search_outcome` — the only other outcome of a walk.
* **`Entry.texts_numbers`** — which numbers can be said.
* **`Transcript.isPrime_challenge`** — a prime challenge has passed the test.
* **`AsksAbout`**, **`Challenge.poe_asks`**, … — the outcomes of a challenge, for each protocol.
* `Challenge.isPrime_zkpoke`, `Challenge.two_le_zkpoke`, … — what the protocols need of a prime
  challenge.
-/

namespace HiddenOrder

/-! ## Walks down a chain of digests -/

namespace Digest

variable {hash : HashFunction} {read : Digest → Nat} {accepts : Nat → Bool}

/-- A byte string hashed `k` times over. -/
def repeated (hash : HashFunction) (k : Nat) (b : Bytes) : Bytes := (fun x => (hash x).bytes)^[k] b

/-- The chain starts with the byte string hashed once. -/
lemma toNat_iterate (k : Nat) (b : Bytes) :
    (iterate hash k (hash b)).toNat = Bytes.bigEndian (repeated hash (k + 1) b) := by
  induction k generalizing b with
  | zero => exact Bytes.toNat_eq _
  | succ k ih => exact ih (hash b).bytes

/-- The value read off the digest `k` links down the chain from `d` is acceptable, and none of the
values before it is. -/
structure FirstAt (hash : HashFunction) (read : Digest → Nat) (accepts : Nat → Bool) (d : Digest)
    (k : Nat) : Prop where
  accepted : accepts (read (iterate hash k d)) = true
  refused : ∀ j < k, accepts (read (iterate hash j d)) = false

/-- One link down the chain the place is one less. -/
lemma firstAt_succ {d : Digest} {k : Nat} (hd : accepts (read d) = false) :
    FirstAt hash read accepts d (k + 1) ↔ FirstAt hash read accepts (d.next hash) k := by
  constructor
  · rintro ⟨haccepted, hrefused⟩
    exact ⟨haccepted, fun j hj => hrefused (j + 1) (Nat.succ_lt_succ hj)⟩
  · rintro ⟨haccepted, hrefused⟩
    refine ⟨haccepted, fun j hj => ?_⟩
    cases j with
    | zero => exact hd
    | succ j => exact hrefused j (Nat.lt_of_succ_lt_succ hj)

/-- **A walk returns the first acceptable value**, if it is within the steps. -/
theorem search_eq_ok_iff {steps : Nat} {d : Digest} {v : Nat} :
    search hash read accepts steps d = .ok v ↔
      ∃ k < steps, FirstAt hash read accepts d k ∧ read (iterate hash k d) = v := by
  induction steps generalizing d with
  | zero => simp [search]
  | succ steps ih =>
      rw [search]
      cases hd : accepts (read d) with
      | true =>
          rw [if_pos rfl, Except.ok.injEq]
          constructor
          · rintro rfl
            exact ⟨0, Nat.succ_pos steps, ⟨hd, fun j hj => absurd hj (Nat.not_lt_zero j)⟩, rfl⟩
          · rintro ⟨k, -, hfirst, rfl⟩
            cases k with
            | zero => rfl
            | succ k =>
                have hrefused := hfirst.refused 0 (Nat.succ_pos k)
                rw [iterate, hd] at hrefused
                cases hrefused
      | false =>
          rw [if_neg Bool.false_ne_true, ih]
          constructor
          · rintro ⟨k, hk, hfirst, hv⟩
            exact ⟨k + 1, Nat.succ_lt_succ hk, (firstAt_succ hd).mpr hfirst, hv⟩
          · rintro ⟨k, hk, hfirst, hv⟩
            cases k with
            | zero =>
                have haccepted := hfirst.accepted
                rw [iterate, hd] at haccepted
                cases haccepted
            | succ k => exact ⟨k, Nat.lt_of_succ_lt_succ hk, (firstAt_succ hd).mp hfirst, hv⟩

lemma accepts_of_search {steps : Nat} {d : Digest} {v : Nat}
    (h : search hash read accepts steps d = .ok v) : accepts v = true := by
  obtain ⟨k, -, hfirst, rfl⟩ := search_eq_ok_iff.mp h
  exact hfirst.accepted

lemma search_outcome (steps : Nat) (d : Digest) :
    (∃ v, search hash read accepts steps d = .ok v) ∨
      search hash read accepts steps d = .error .outOfSteps := by
  induction steps generalizing d with
  | zero => exact Or.inr rfl
  | succ steps ih =>
      rw [search]
      by_cases hd : accepts (read d) = true
      · rw [if_pos hd]
        exact Or.inl ⟨read d, rfl⟩
      · rw [if_neg hd]
        exact ih (d.next hash)

end Digest

/-! ## Challenges of a transcript -/

/-- What passes a test is at least two, whatever test it is. -/
lemma PrimeTest.two_le {isPrime : PrimeTest} {n : Nat} (h : isPrime.int n = true) : 2 ≤ n := by
  rw [PrimeTest.int, Bool.and_eq_true, decide_eq_true_eq] at h
  omega

/-- An exact test of an integer. -/
lemma isPrime_int {o : Oracles} (hexact : ∀ n, o.isPrime n = true ↔ n.Prime) {p : Int} :
    o.isPrime.int p = true ↔ p.toNat.Prime := by
  rw [PrimeTest.int, Bool.and_eq_true, decide_eq_true_iff, hexact]
  refine ⟨And.right, fun hp => ⟨?_, hp⟩⟩
  have := hp.two_le
  omega

/-- A number read off a digest is short enough for every limit. -/
lemma writable_of_digest [DigitLimit] {d : Digest} {v : Nat} (h : v ≤ d.toNat) :
    Writable (v : Int) := by
  refine writable_of_lt_threshold ?_
  have hd : d.toNat < 256 ^ 32 := d.length_bytes ▸ Bytes.toNat_lt d.bytes
  have hdigits : 10 ^ 78 ≤ 10 ^ digitThreshold := Nat.pow_le_pow_right (by decide) (by decide)
  rw [Int.natAbs_natCast]
  omega

lemma Transcript.two_le_standardBound : 2 ≤ standardBound := by decide +kernel

lemma Transcript.two_le_toNat {bound : Int} (h : 2 ≤ bound) : 2 ≤ bound.toNat := by omega

variable [DigitLimit]

/-! ## Entries -/

/-- **Some numbers are said** when all of them can be written. -/
theorem Entry.texts_numbers (ns : List Int) :
    texts (ns.map .number) = if ∀ n ∈ ns, Writable n then .ok (ns.map toString)
      else .error (.fault .longNumeral) := by
  induction ns with
  | nil => rfl
  | cons n ns ih =>
      rw [List.map_cons, texts, toText, ih]
      exact ite_bind_ite List.forall_mem_cons _ _ _ _

namespace Transcript

variable {o : Oracles} {t : Transcript} {prime : Bool}

/-- The transcript with one more text. -/
def write (t : Transcript) (s : String) : Transcript := { t with entries := t.entries ++ [s] }

/-- After a name, some numbers are said when all of them can be written. -/
lemma ofEntries_numbers (name : String) (ns : List Int) :
    ofEntries (.text name :: ns.map .number) = if ∀ n ∈ ns, Writable n
      then .ok ⟨name :: ns.map toString, standardBound, two_le_standardBound⟩
      else .error (.fault .longNumeral) := by
  rw [ofEntries, Entry.texts, Entry.toText, ok_bind, Entry.texts_numbers]
  split_ifs <;> rfl

/-- The same under a bound of one's own. -/
lemma withBound_numbers (name : String) (ns : List Int) {bound : Int} (hbound : 2 ≤ bound) :
    withBound (.text name :: ns.map .number) bound = if ∀ n ∈ ns, Writable n
      then .ok ⟨name :: ns.map toString, bound.toNat, two_le_toNat hbound⟩
      else .error (.fault .longNumeral) := by
  rw [withBound, dif_pos hbound, Entry.texts, Entry.toText, ok_bind, Entry.texts_numbers]
  split_ifs <;> rfl

lemma extend_numbers (t : Transcript) (ns : List Int) :
    t.extend (ns.map .number) = if ∀ n ∈ ns, Writable n
      then .ok { t with entries := t.entries ++ ns.map toString }
      else .error (.fault .longNumeral) := by
  rw [extend, Entry.texts_numbers]
  split_ifs <;> rfl

lemma append_number {n : Int} (h : Writable n) :
    t.append (.number n) = .ok (t.write (toString n)) := by
  rw [append, Entry.toText, Decimal.write_of_writable h]
  rfl

/-- What is found on the chain can be written down. -/
lemma challenge_of_search {v : Nat} (h : Digest.search o.hash (fun d => d.toNat % t.bound)
    (t.accepts o prime) o.steps (o.hash t.message) = .ok v) :
    t.challenge o prime = .ok (v, t.write (toString v)) := by
  obtain ⟨k, -, -, hv⟩ := Digest.search_eq_ok_iff.mp h
  have hwritable : Writable (v : Int) := writable_of_digest (hv ▸ Nat.mod_le _ _)
  rw [challenge, h, ok_bind, append_number hwritable]
  rfl

/-- A challenge is found on the chain, and is written down. -/
lemma challenge_eq_ok_iff_search {v : Nat} {t' : Transcript} :
    t.challenge o prime = .ok (v, t') ↔
      Digest.search o.hash (fun d => d.toNat % t.bound) (t.accepts o prime) o.steps
        (o.hash t.message) = .ok v ∧ t' = t.write (toString v) := by
  constructor
  · intro h
    obtain ⟨w, hw, -⟩ := bind_eq_ok.mp (challenge.eq_1 t o prime ▸ h)
    have hfound := (challenge_of_search hw).symm.trans h
    cases hfound
    exact ⟨hw, rfl⟩
  · rintro ⟨hv, rfl⟩
    exact challenge_of_search hv

/-- A challenge is acceptable, and is written down. -/
lemma challenge_eq_ok {v : Nat} {t' : Transcript} (h : t.challenge o prime = .ok (v, t')) :
    t.accepts o prime v = true ∧ t' = t.write (toString v) := by
  obtain ⟨hv, ht'⟩ := challenge_eq_ok_iff_search.mp h
  exact ⟨Digest.accepts_of_search hv, ht'⟩

/-- A prime challenge has passed the test. -/
theorem isPrime_challenge {l : Nat} {t' : Transcript} (h : t.challenge o true = .ok (l, t')) :
    o.isPrime.int l = true := by
  have haccept := (challenge_eq_ok h).1
  rw [accepts, Bool.not_true, Bool.false_or, Bool.and_eq_true] at haccept
  exact haccept.1

/-- A challenge is found or the walk runs out of steps. -/
lemma challenge_outcome (o : Oracles) (t : Transcript) (prime : Bool) :
    (∃ r, t.challenge o prime = .ok r) ∨ t.challenge o prime = .error .outOfSteps := by
  obtain ⟨v, hv⟩ | hv := Digest.search_outcome o.steps (o.hash t.message)
  · exact .inl ⟨_, challenge_of_search hv⟩
  · rw [challenge, hv]
    exact .inr rfl

end Transcript

/-! ## Challenges of the protocols -/

/-- A computation that says some numbers before it asks for a challenge: it fails at once when one of
them is too long to be written, and otherwise finds the challenge or runs out of steps. -/
structure AsksAbout {α : Type} (ns : List Int) (r : Except Error α) : Prop where
  tooLong : (¬∀ n ∈ ns, Writable n) → r = .error (.fault .longNumeral)
  ends : (∀ n ∈ ns, Writable n) → (∃ a, r = .ok a) ∨ r = .error .outOfSteps

namespace AsksAbout

variable {α β : Type} {ns : List Int} {r : Except Error α} {a : α}

lemma of_ite {x : α} {f : α → Except Error β} (h : (∃ b, f x = .ok b) ∨ f x = .error .outOfSteps) :
    AsksAbout ns
      ((if ∀ n ∈ ns, Writable n then .ok x else .error (.fault .longNumeral)) >>= f) where
  tooLong hns := by rw [if_neg hns, error_bind]
  ends hns := by rwa [if_pos hns, ok_bind]

/-- When a challenge was found, all numbers could be written. -/
lemma writable (h : AsksAbout ns r) (hr : r = .ok a) : ∀ n ∈ ns, Writable n := by
  by_contra hns
  rw [h.tooLong hns] at hr
  cases hr

/-- The numbers of one list can be written just when those of the other can. -/
lemma congr {ms : List Int} (h : AsksAbout ns r)
    (hiff : (∀ n ∈ ns, Writable n) ↔ ∀ m ∈ ms, Writable m) : AsksAbout ms r where
  tooLong hms := h.tooLong fun hns => hms (hiff.mp hns)
  ends hms := h.ends (hiff.mpr hms)

/-- The three outcomes. -/
lemma cases (h : AsksAbout ns r) : (∃ a, r = .ok a) ∨ r = .error .outOfSteps ∨
    (¬∀ n ∈ ns, Writable n) ∧ r = .error (.fault .longNumeral) := by
  by_cases hns : ∀ n ∈ ns, Writable n
  · exact (h.ends hns).imp_right .inl
  · exact .inr (.inr ⟨hns, h.tooLong hns⟩)

end AsksAbout

namespace Challenge

variable {o : Oracles}

lemma isPrime_poe {base mod C x : Int} {l : Nat} (h : poe o base mod C x = .ok l) :
    o.isPrime.int l = true := by
  rw [poe] at h
  obtain ⟨t, -, h⟩ := bind_eq_ok.mp h
  obtain ⟨⟨v, t'⟩, hv, h⟩ := bind_eq_ok.mp h
  cases h
  exact Transcript.isPrime_challenge hv

lemma isPrime_pokeStar {G N C : Int} {l : Nat} (h : pokeStar o G N C = .ok l) :
    o.isPrime.int l = true := by
  rw [pokeStar] at h
  obtain ⟨t, -, h⟩ := bind_eq_ok.mp h
  obtain ⟨⟨v, t'⟩, hv, h⟩ := bind_eq_ok.mp h
  cases h
  exact Transcript.isPrime_challenge hv

lemma isPrime_zkpoke {G H N u w : Int} {z Ag Au : Entry} {c l : Nat}
    (h : zkpoke o G H N u w z Ag Au = .ok (c, l)) : o.isPrime.int l = true := by
  rw [zkpoke] at h
  obtain ⟨t, -, h⟩ := bind_eq_ok.mp h
  obtain ⟨⟨v, t'⟩, -, h⟩ := bind_eq_ok.mp h
  obtain ⟨⟨v', t''⟩, hv', h⟩ := bind_eq_ok.mp h
  cases h
  exact Transcript.isPrime_challenge hv'

lemma two_le_poe {base mod C x : Int} {l : Nat} (h : poe o base mod C x = .ok l) : 2 ≤ l :=
  PrimeTest.two_le (isPrime_poe h)

lemma two_le_pokeStar {G N C : Int} {l : Nat} (h : pokeStar o G N C = .ok l) : 2 ≤ l :=
  PrimeTest.two_le (isPrime_pokeStar h)

lemma two_le_zkpoke {G H N u w : Int} {z Ag Au : Entry} {c l : Nat}
    (h : zkpoke o G H N u w z Ag Au = .ok (c, l)) : 2 ≤ l :=
  PrimeTest.two_le (isPrime_zkpoke h)

/-- **The prime challenge of a proof of exponentiation** is about the whole statement. -/
theorem poe_asks (o : Oracles) (base mod C x : Int) :
    AsksAbout [base, mod, C, x] (poe o base mod C x) := by
  have hsaid : poeTranscript base mod C x = _ :=
    Transcript.ofEntries_numbers "PoE" [base, mod, C, x]
  rw [poe, hsaid]
  refine .of_ite ?_
  obtain ⟨⟨l, t⟩, hl⟩ | hl := Transcript.challenge_outcome o _ true
  · exact .inl ⟨l, bind_eq_ok.mpr ⟨_, hl, rfl⟩⟩
  · exact .inr (bind_eq_error.mpr (.inl hl))

/-- The prime challenge of a proof of knowledge of an exponent. -/
theorem pokeStar_asks (o : Oracles) (G N C : Int) : AsksAbout [G, N, C] (pokeStar o G N C) := by
  have hsaid : pokeStarTranscript G N C = _ :=
    Transcript.ofEntries_numbers "PoKEStar" [G, N, C]
  rw [pokeStar, hsaid]
  refine .of_ite ?_
  obtain ⟨⟨l, t⟩, hl⟩ | hl := Transcript.challenge_outcome o _ true
  · exact .inl ⟨l, bind_eq_ok.mpr ⟨_, hl, rfl⟩⟩
  · exact .inr (bind_eq_error.mpr (.inl hl))

/-- **The two challenges of the zero-knowledge proof** are about the statement and the first
message. -/
theorem zkpoke_asks (o : Oracles) (G H N u w z Ag Au : Int) :
    AsksAbout [G, H, N, u, w, z, Ag, Au]
      (zkpoke o G H N u w (.number z) (.number Ag) (.number Au)) := by
  have hsaid : zkpokeTranscript G H N u w (.number z) (.number Ag) (.number Au) = _ :=
    Transcript.ofEntries_numbers "ZKPoKE" [G, H, N, u, w, z, Ag, Au]
  rw [zkpoke, hsaid]
  refine .of_ite ?_
  obtain ⟨⟨c, t⟩, hc⟩ | hc := Transcript.challenge_outcome o _ false
  · rw [hc, ok_bind]
    obtain ⟨⟨l, t'⟩, hl⟩ | hl := Transcript.challenge_outcome o t true
    · exact .inl ⟨(c, l), bind_eq_ok.mpr ⟨_, hl, rfl⟩⟩
    · exact .inr (bind_eq_error.mpr (.inl hl))
  · exact .inr (bind_eq_error.mpr (.inl hc))

/-- Under a security parameter of at least one there are two challenges to choose from, so the
statement of non-negativity can be made when its numbers can be written. -/
lemma rangeOpening_eq (statement : String) (G H N C : Int) {securityParam : Int}
    (hparam : 1 ≤ securityParam) :
    ∃ bound, ∃ hbound : 2 ≤ bound, rangeOpening statement G H N C securityParam =
      if ∀ n ∈ [G, H, N, C], Writable n
        then .ok ⟨statement :: [G, H, N, C].map toString, bound, hbound⟩
        else .error (.fault .longNumeral) := by
  have hpow : 2 ^ 1 ≤ 2 ^ securityParam.toNat := Nat.pow_le_pow_right (by decide) (by omega)
  have hbound : (2 : Int) ≤ 1 * (Nat.pow 2 securityParam.toNat : Nat) := by
    rw [Nat.pow_eq]
    omega
  rw [rangeOpening, shiftLeft, if_neg (by omega), ok_bind]
  exact ⟨_, _, Transcript.withBound_numbers statement [G, H, N, C] hbound⟩

/-- The message of a proof of non-negativity takes in the commitments. -/
lemma rangeMessage_numbers (opening : Transcript) (commitments : List Int) (delta : Bytes) :
    rangeMessage opening (commitments.map .number) delta =
      if ∀ n ∈ commitments, Writable n
        then .ok { opening with
          entries := opening.entries ++ commitments.map toString ++ [delta.hex] }
        else .error (.fault .longNumeral) := by
  rw [rangeMessage, Transcript.extend_numbers]
  split_ifs <;> rfl

/-- **The integer challenge of the proof of non-negativity** is about the statement and the
commitments to the roots. -/
theorem range_asks (o : Oracles) (statement : String) (G H N C : Int) (commitments : List Int)
    (delta : Bytes) {securityParam : Int} (hparam : 1 ≤ securityParam) :
    AsksAbout ([G, H, N, C] ++ commitments)
      (range o statement G H N C commitments delta securityParam) := by
  obtain ⟨bound, hbound, hopening⟩ := rangeOpening_eq statement G H N C hparam
  rw [range, hopening]
  constructor
  · intro hns
    by_cases hopen : ∀ n ∈ [G, H, N, C], Writable n
    · have hcs : ¬∀ n ∈ commitments, Writable n := fun hcs =>
        hns (List.forall_mem_append.mpr ⟨hopen, hcs⟩)
      rw [if_pos hopen, ok_bind, rangeAfter, rangeMessage_numbers, if_neg hcs, error_bind]
    · rw [if_neg hopen, error_bind]
  · intro hns
    obtain ⟨hopen, hcs⟩ := List.forall_mem_append.mp hns
    rw [if_pos hopen, ok_bind, rangeAfter, rangeMessage_numbers, if_pos hcs, ok_bind]
    obtain ⟨⟨e, t⟩, he⟩ | he := Transcript.challenge_outcome o _ false
    · exact .inl ⟨e, bind_eq_ok.mpr ⟨_, he, rfl⟩⟩
    · exact .inr (bind_eq_error.mpr (.inl he))

end Challenge

/-! ## Oracles small enough to follow -/

/-- A digest that tells the parity of the length: five when it is even, and three when it is odd. -/
def parityHash : HashFunction := fun message =>
  ⟨List.replicate 31 0 ++ [if message.length % 2 = 0 then 5 else 3], by simp⟩

/-- Oracles with this hash, to whom only three and five are prime, and who draw ones. -/
def parityOracles : Oracles where
  isPrime n := n == 3 || n == 5
  hash := parityHash
  source _ _ := some 1
  steps := 4

/-- The same with one digest for everything, which is enough where only one challenge is asked
for. -/
def constantOracles : Oracles := { parityOracles with hash := fun _ => parityHash [] }

/-- Oracles with an exact test, whose draws are written on a tape. -/
def tapeOracles (tape : List Int) : Oracles where
  isPrime n := decide n.Prime
  hash _ := ⟨List.replicate 32 0, rfl⟩
  source i _ := tape[i]?
  steps := 1

end HiddenOrder
