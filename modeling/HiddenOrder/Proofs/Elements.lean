import HiddenOrder.Proofs.Outcome
import HiddenOrder.Representative
import Mathlib.Algebra.Order.Ring.Int

/-!
# The numbers that stand for elements

An element has a number when it has bytes and, if the number is to be a prime, when the digest
chain of these bytes meets one.  Chains have no end, so the walk down a chain is given a number of
steps, and the chain has to meet a prime within them; nothing else can keep an element from being
encoded.

* `Element.HasNumber` — an element that has a number.
* **`encode_ok`** — such elements are encoded, by positive numbers.
* `numberOf` — the number of an element.
* **`representatives_ok`** — the numbers of a list of elements, one for each.
-/

namespace HiddenOrder

/-- A chain that has an acceptable value among its first links is walked down to one. -/
lemma Digest.search_of_iterate {hash : HashFunction} {read : Digest → ℕ} {accepts : ℕ → Bool}
    {steps k : ℕ} {d : Digest} (hk : k < steps)
    (haccept : accepts (read (iterate hash k d)) = true) :
    ∃ v, search hash read accepts steps d = .ok v ∧ accepts v = true := by
  induction steps generalizing k d with
  | zero => omega
  | succ steps ih =>
      rw [search]
      by_cases hfirst : accepts (read d) = true
      · exact ⟨read d, by rw [if_pos hfirst], hfirst⟩
      · rw [if_neg hfirst]
        cases k with
        | zero => exact absurd haccept hfirst
        | succ k => exact ih (Nat.lt_of_succ_lt_succ hk) haccept

/-- An element that has a number: it has bytes, and where a prime is wanted their digest chain meets
one within the given steps.  A text with half of a surrogate pair has no bytes and so no chain. -/
def Element.HasNumber [DigitLimit] (o : Oracles) (encoding : Encoding) (e : Element) : Prop :=
  ∃ b, e.toBytes = .ok b ∧
    match encoding with
    | .hashToPrime =>
        ∃ k < o.steps, o.isPrime.int (Digest.iterate o.hash k (o.hash b)).toNat = true
    | .diHash => True
    | .unknown _ => False

section

variable {o : Oracles} {encoding : Encoding} {e : Element} {elements : List Element}

lemma hashToPrime_ok {b : Bytes} {k : ℕ} (hk : k < o.steps)
    (hprime : o.isPrime.int (Digest.iterate o.hash k (o.hash b)).toNat = true) :
    ∃ n, hashToPrime o b = .ok n ∧ 0 < n := by
  obtain ⟨n, hn, haccept⟩ : ∃ n, hashToPrime o b = .ok n ∧ o.isPrime.int n = true :=
    Digest.search_of_iterate hk hprime
  refine ⟨n, hn, ?_⟩
  simp only [PrimeTest.int, Bool.and_eq_true, decide_eq_true_eq] at haccept
  omega

lemma diHash_pos (hash : HashFunction) (b : Bytes) : 0 < diHash hash b := by
  have hoffset : 0 < diOffset := by decide
  rw [diHash]
  omega

/-- **An element that has a number is encoded**, by a positive one. -/
theorem encode_ok [DigitLimit] (h : e.HasNumber o encoding) :
    ∃ n, encode o encoding e = .ok n ∧ 0 < n := by
  obtain ⟨b, hbytes, hchain⟩ := h
  cases encoding with
  | hashToPrime =>
      obtain ⟨k, hk, hprime⟩ := hchain
      rw [encode, hbytes, ok_bind]
      exact hashToPrime_ok hk hprime
  | diHash =>
      rw [encode, hbytes, ok_bind]
      exact ⟨diHash o.hash b, rfl, diHash_pos o.hash b⟩
  | unknown tag => exact hchain.elim

/-- The number that stands for an element; zero for one that has none. -/
def numberOf [DigitLimit] (o : Oracles) (encoding : Encoding) (e : Element) : ℤ :=
  match encode o encoding e with
  | .ok n => n
  | .error _ => 0

lemma encode_numberOf [DigitLimit] (h : e.HasNumber o encoding) :
    ∃ n : ℕ, encode o encoding e = .ok n ∧ (n : ℤ) = numberOf o encoding e := by
  obtain ⟨n, hn, -⟩ := encode_ok h
  exact ⟨n, hn, by rw [numberOf, hn]⟩

lemma numberOf_pos [DigitLimit] (h : e.HasNumber o encoding) : 0 < numberOf o encoding e := by
  obtain ⟨n, hn, hpos⟩ := encode_ok h
  rw [numberOf, hn]
  exact Int.natCast_pos.mpr hpos

/-- **The numbers of some elements** are those of the single elements, in order. -/
theorem representatives_ok [DigitLimit] (h : ∀ e ∈ elements, e.HasNumber o encoding) :
    representatives o encoding elements = .ok (elements.map (numberOf o encoding)) := by
  induction elements with
  | nil => rfl
  | cons e es ih =>
      obtain ⟨n, hn, hnumber⟩ := encode_numberOf (h e List.mem_cons_self)
      rw [representatives, hn, ok_bind, ih fun x hx => h x (List.mem_cons_of_mem e hx), ok_bind,
        List.map_cons, hnumber, pure_eq_ok]

lemma numbers_pos [DigitLimit] (h : ∀ e ∈ elements, e.HasNumber o encoding) :
    ∀ n ∈ elements.map (numberOf o encoding), 0 < n := by
  intro n hn
  obtain ⟨e, he, rfl⟩ := List.mem_map.mp hn
  exact numberOf_pos (h e he)

end

end HiddenOrder
