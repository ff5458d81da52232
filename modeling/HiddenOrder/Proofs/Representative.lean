import HiddenOrder.Proofs.Bytes
import HiddenOrder.Proofs.Challenge
import HiddenOrder.Representative
import Mathlib.Data.Nat.Prime.Defs

/-!
# When two elements share a representative

The digest chain of an element starts with the element itself and goes on from digest to digest,
and nothing in it tells the first link from the others.  So two chains can meet in two ways: two
different links have the same digest, which is a collision of the hash function, or one element *is*
a link of the other's chain, and then its own chain is the rest of that one.

* `Digest.hashed` — the byte strings that a walk applies the hash function to.
* `Digest.search_congr` — a walk depends on the hash function through these only.
* **`Digest.meet_of_search`** — how two walks with the same result meet.
* **`hashToPrime_eq_iff`** — when exactly two elements share a representative.
* `representative_shared` — two elements that do, with no collision anywhere.
-/

namespace HiddenOrder

namespace Digest

lemma toNat_injective : Function.Injective Digest.toNat := by
  rintro ⟨b, hb⟩ ⟨c, hc⟩ h
  have hbc : b = c := Bytes.toNat_inj (hb.trans hc.symm) h
  subst hbc
  rfl

/-! ## What a walk hashes -/

section Walks

variable {hash : HashFunction} {read : Digest → ℕ} {accepts : ℕ → Bool}

/-- What the walk down the chain of `b` applies the hash function to: `b`, and every digest that it
refuses. -/
def hashed (hash : HashFunction) (read : Digest → ℕ) (accepts : ℕ → Bool) : (steps : ℕ) → Bytes →
    List Bytes
  | 0, b => [b]
  | steps + 1, b =>
    b :: if accepts (read (hash b)) then [] else hashed hash read accepts steps (hash b).bytes

lemma mem_hashed_self (steps : ℕ) (b : Bytes) : b ∈ hashed hash read accepts steps b := by
  cases steps with
  | zero => simp [hashed]
  | succ steps => simp [hashed]

/-- A link of the chain is its first, or the digest of one before it. -/
lemma eq_or_digest_of_mem_hashed {steps : ℕ} {b x : Bytes}
    (hx : x ∈ hashed hash read accepts steps b) :
    x = b ∨ ∃ y ∈ hashed hash read accepts steps b, x = (hash y).bytes := by
  induction steps generalizing b with
  | zero =>
      left
      simpa [hashed] using hx
  | succ steps ih =>
      rw [hashed] at hx ⊢
      rcases List.mem_cons.mp hx with rfl | hrest
      · exact Or.inl rfl
      · right
        by_cases haccept : accepts (read (hash b)) = true
        · simp [haccept] at hrest
        · rw [if_neg haccept] at hrest ⊢
          rcases ih hrest with rfl | ⟨y, hy, rfl⟩
          · exact ⟨b, List.mem_cons_self, rfl⟩
          · exact ⟨y, List.mem_cons_of_mem b hy, rfl⟩

/-- A hash function that agrees on these byte strings makes for the same walk. -/
theorem search_congr {hash' : HashFunction} {steps : ℕ} {b : Bytes}
    (h : ∀ x ∈ hashed hash read accepts steps b, hash' x = hash x) :
    search hash' read accepts steps (hash' b) = search hash read accepts steps (hash b) := by
  induction steps generalizing b with
  | zero => rfl
  | succ steps ih =>
      have hb : hash' b = hash b := h b (mem_hashed_self _ b)
      rw [search, search, hb]
      by_cases haccept : accepts (read (hash b)) = true
      · rw [if_pos haccept, if_pos haccept]
      · rw [if_neg haccept, if_neg haccept]
        refine ih fun x hx => h x ?_
        rw [hashed, if_neg haccept]
        exact List.mem_cons_of_mem b hx

/-! ## Walks that return -/

/-- How many steps a walk may make does not matter to what it returns. -/
lemma search_unique {m n : ℕ} {d : Digest} {v w : ℕ}
    (hv : search hash read accepts m d = .ok v) (hw : search hash read accepts n d = .ok w) :
    v = w := by
  induction m generalizing n d with
  | zero => simp [search] at hv
  | succ m ih =>
      cases n with
      | zero => simp [search] at hw
      | succ n =>
          rw [search] at hv hw
          by_cases haccept : accepts (read d) = true
          · rw [if_pos haccept] at hv hw
            cases hv
            cases hw
            rfl
          · rw [if_neg haccept] at hv hw
            exact ih hv hw

/-- From every link of its chain on, a walk returns what it returns from the first. -/
lemma search_of_mem_hashed {steps : ℕ} {b x : Bytes} {v : ℕ}
    (hv : search hash read accepts steps (hash b) = .ok v)
    (hx : x ∈ hashed hash read accepts steps b) :
    ∃ k, search hash read accepts k (hash x) = .ok v := by
  induction steps generalizing b with
  | zero => simp [search] at hv
  | succ steps ih =>
      rw [hashed] at hx
      rcases List.mem_cons.mp hx with rfl | hrest
      · exact ⟨steps + 1, hv⟩
      · by_cases haccept : accepts (read (hash b)) = true
        · simp [haccept] at hrest
        · rw [if_neg haccept] at hrest
          rw [search, if_neg haccept] at hv
          exact ih hv hrest

/-- What a walk returns is read off the digest of one of the links. -/
lemma read_of_search {steps : ℕ} {b : Bytes} {v : ℕ}
    (hv : search hash read accepts steps (hash b) = .ok v) :
    ∃ x ∈ hashed hash read accepts steps b, read (hash x) = v := by
  induction steps generalizing b with
  | zero => simp [search] at hv
  | succ steps ih =>
      rw [search] at hv
      by_cases haccept : accepts (read (hash b)) = true
      · rw [if_pos haccept] at hv
        cases hv
        exact ⟨b, mem_hashed_self _ b, rfl⟩
      · rw [if_neg haccept] at hv
        obtain ⟨x, hx, hread⟩ := ih hv
        refine ⟨x, ?_, hread⟩
        rw [hashed, if_neg haccept]
        exact List.mem_cons_of_mem b hx

/-! ## Walks that meet -/

/-- Some byte string of the first list and another one of the second have the same digest. -/
def Collide (hash : HashFunction) (xs ys : List Bytes) : Prop :=
  ∃ x ∈ xs, ∃ y ∈ ys, x ≠ y ∧ hash x = hash y

/-- Of two byte strings with the same digest, unless they are one, a collision is made. -/
lemma mem_or_collide {xs ys : List Bytes} {x y : Bytes} (hx : x ∈ xs) (hy : y ∈ ys)
    (h : hash x = hash y) : x ∈ ys ∨ Collide hash xs ys := by
  by_cases hxy : x = y
  · left
    rwa [hxy]
  · right
    exact ⟨x, hx, y, hy, hxy, h⟩

/-- **Two walks with the same result meet** in a collision, or in the first link of one of them,
which is then a link of the other. -/
theorem meet_of_search (hread : Function.Injective read) {m n : ℕ} {a b : Bytes} {v : ℕ}
    (ha : search hash read accepts m (hash a) = .ok v)
    (hb : search hash read accepts n (hash b) = .ok v) :
    Collide hash (hashed hash read accepts m a) (hashed hash read accepts n b) ∨
      a ∈ hashed hash read accepts n b ∨ b ∈ hashed hash read accepts m a := by
  induction m generalizing a with
  | zero => simp [search] at ha
  | succ m ih =>
      have hself : a ∈ hashed hash read accepts (m + 1) a := mem_hashed_self _ a
      rw [search] at ha
      by_cases haccept : accepts (read (hash a)) = true
      · -- the walk from `a` ends at once, so its digest is the last one of the other walk
        rw [if_pos haccept] at ha
        cases ha
        obtain ⟨y, hy, hvalue⟩ := read_of_search hb
        have hdigest : hash a = hash y := (hread hvalue).symm
        rcases mem_or_collide hself hy hdigest with hmem | hcollide
        · exact Or.inr (Or.inl hmem)
        · exact Or.inl hcollide
      · rw [if_neg haccept] at ha
        have hsub : ∀ x ∈ hashed hash read accepts m (hash a).bytes,
            x ∈ hashed hash read accepts (m + 1) a := by
          intro x hx
          rw [hashed, if_neg haccept]
          exact List.mem_cons_of_mem a hx
        rcases ih ha with ⟨x, hx, y, hy, hne, heq⟩ | hnext | hmem
        · exact Or.inl ⟨x, hsub x hx, y, hy, hne, heq⟩
        · -- the next link of this walk is one of the other: look at where it comes from there
          rcases eq_or_digest_of_mem_hashed hnext with hfirst | ⟨y, hy, hlink⟩
          · refine Or.inr (Or.inr (hsub b ?_))
            rw [← hfirst]
            exact mem_hashed_self _ _
          · have hdigest : hash a = hash y := toNat_injective (congrArg Bytes.toNat hlink)
            rcases mem_or_collide hself hy hdigest with hmem | hcollide
            · exact Or.inr (Or.inl hmem)
            · exact Or.inl hcollide
        · exact Or.inr (Or.inr (hsub b hmem))

/-- Every link but the first is a digest. -/
lemma length_of_mem_hashed {steps : ℕ} {b x : Bytes}
    (hx : x ∈ hashed hash read accepts steps b) (hne : x ≠ b) : x.length = 32 := by
  rcases eq_or_digest_of_mem_hashed hx with heq | ⟨y, -, rfl⟩
  · exact absurd heq hne
  · exact (hash y).length_bytes

end Walks

end Digest

/-! ## Representatives -/

/-- What the search for the representative of `b` applies the hash function to. -/
def hashedFor (o : Oracles) (b : Bytes) : List Bytes :=
  Digest.hashed o.hash Digest.toNat (fun n => o.isPrime.int n) o.steps b

/-- **When exactly two elements share a representative**: the two searches hash two different byte
strings to one digest, or one of the elements is among the digests that the search for the other
hashes.  As digests have thirty-two bytes, only a collision remains for elements of other
lengths. -/
theorem hashToPrime_eq_iff (o : Oracles) {a b : Bytes} {v w : ℕ} (hne : a ≠ b)
    (ha : hashToPrime o a = .ok v) (hb : hashToPrime o b = .ok w) :
    (v = w ↔ Digest.Collide o.hash (hashedFor o a) (hashedFor o b) ∨
      a ∈ hashedFor o b ∨ b ∈ hashedFor o a) ∧
    (a.length ≠ 32 → b.length ≠ 32 → v = w →
      Digest.Collide o.hash (hashedFor o a) (hashedFor o b)) := by
  have hmeet : v = w → Digest.Collide o.hash (hashedFor o a) (hashedFor o b) ∨
      a ∈ hashedFor o b ∨ b ∈ hashedFor o a := by
    rintro rfl
    exact Digest.meet_of_search Digest.toNat_injective ha hb
  refine ⟨⟨hmeet, ?_⟩, ?_⟩
  · rintro (⟨x, hx, y, hy, -, heq⟩ | hmem | hmem)
    · obtain ⟨k, hk⟩ := Digest.search_of_mem_hashed ha hx
      obtain ⟨l, hl⟩ := Digest.search_of_mem_hashed hb hy
      rw [heq] at hk
      exact Digest.search_unique hk hl
    · obtain ⟨k, hk⟩ := Digest.search_of_mem_hashed hb hmem
      exact Digest.search_unique ha hk
    · obtain ⟨k, hk⟩ := Digest.search_of_mem_hashed ha hmem
      exact Digest.search_unique hk hb
  · intro hlena hlenb hvw
    rcases hmeet hvw with hcollide | hmem | hmem
    · exact hcollide
    · exact absurd (Digest.length_of_mem_hashed hmem hne) hlena
    · exact absurd (Digest.length_of_mem_hashed hmem hne.symm) hlenb

/-- The empty string and one of two bytes, which collide under a hash of the length's parity. -/
theorem hashToPrime_eq_iff_parityHash :
    hashToPrime parityOracles [] = .ok 5 ∧ hashToPrime parityOracles [1, 2] = .ok 5 ∧
      Digest.Collide parityHash (hashedFor parityOracles []) (hashedFor parityOracles [1, 2]) := by
  have ha : hashToPrime parityOracles [] = .ok 5 := rfl
  have hb : hashToPrime parityOracles [1, 2] = .ok 5 := rfl
  exact ⟨ha, hb, (hashToPrime_eq_iff parityOracles (by decide) ha hb).2 (by decide) (by decide) rfl⟩

/-! ## A shared representative without a collision -/

/-- A digest that is zero for the empty string, and two for everything else. -/
def emptinessHash : HashFunction := fun message =>
  ⟨List.replicate 31 0 ++ [if message = [] then 0 else 2], by simp⟩

/-- Oracles with this hash and an exact test. -/
def emptinessOracles : Oracles where
  isPrime n := decide n.Prime
  hash := emptinessHash
  source _ _ := none
  steps := 2

/-- **A representative may be shared without any collision**: the digest of the empty string is no
prime, so the search goes on from it just as the search for that digest begins. -/
theorem representative_shared :
    ([] : Bytes) ≠ List.replicate 32 0 ∧
      hashToPrime emptinessOracles [] = .ok 2 ∧
      hashToPrime emptinessOracles (List.replicate 32 0) = .ok 2 ∧
      ∀ x ∈ hashedFor emptinessOracles [] ++ hashedFor emptinessOracles (List.replicate 32 0),
        ∀ y ∈ hashedFor emptinessOracles [] ++ hashedFor emptinessOracles (List.replicate 32 0),
          emptinessHash x = emptinessHash y → x = y := by
  exact ⟨by decide, rfl, rfl, by decide⟩

end HiddenOrder
