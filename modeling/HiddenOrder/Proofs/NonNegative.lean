import HiddenOrder.Proofs.Challenge
import HiddenOrder.Proofs.Commitment
import HiddenOrder.Proofs.FourSquares
import HiddenOrder.Protocol.NonNegative

/-!
# Proofs of non-negativity are complete

The verifier never sees the first message.  It computes it again from the responses, and what it
computes are the prover's own commitments: the roots drop out of each of them, and the value drops
out of the last one because the squares of its roots add up to it.  As the hash is taken of
canonical integers, the two sides hash the same bytes.

* `NonNegative.sumOfProducts_mask` — what a masked row contributes to a sum of products.
* `NonNegative.commitRow` — a commitment to each entry of a row.
* **`NonNegative.multiPow_commitRow`** — a product of powers of commitments is a commitment to sums
  of products.
* **`NonNegative.recoverRoots_ok`**, **`NonNegative.recoverValue_ok`** — the first message, computed
  again.
* **`NonNegative.verify_of_respond`**, **`NonNegative.verify_of_prove`** — completeness.
-/

namespace HiddenOrder

namespace NonNegative

/-! ## Rows of integers -/

section Rows

variable {as bs ms : List Int}

lemma length_mask {e : ℕ} (h : as.length = ms.length) : (mask e as ms).length = as.length := by
  rw [mask, List.length_zipWith, h, min_self]

lemma sumOfProducts_comm (as bs : List Int) : sumOfProducts as bs = sumOfProducts bs as := by
  induction as generalizing bs with
  | nil => cases bs <;> rfl
  | cons a as ih =>
      cases bs with
      | nil => rfl
      | cons b bs => rw [sumOfProducts, sumOfProducts, ih, mul_comm]

/-- A sum of products with a masked row: the row times the challenge, and the mask. -/
lemma sumOfProducts_mask (e : ℕ) (h : bs.length = ms.length) :
    sumOfProducts as (mask e bs ms) = e * sumOfProducts as bs + sumOfProducts as ms := by
  induction as generalizing bs ms with
  | nil => simp [sumOfProducts]
  | cons a as ih =>
      cases bs with
      | nil =>
          cases ms with
          | nil => simp [sumOfProducts, mask]
          | cons m ms => simp at h
      | cons b bs =>
          cases ms with
          | nil => simp at h
          | cons m ms =>
              have hrest := ih (Nat.succ.inj h)
              rw [mask] at hrest
              rw [mask, List.zipWith_cons_cons, sumOfProducts, sumOfProducts, sumOfProducts, hrest]
              ring

lemma sumOfProducts_toList (w : FourInt) : sumOfProducts w.toList w.toList = w.squareSum := by
  simp only [FourInt.toList, sumOfProducts, FourInt.squareSum]
  ring

end Rows

/-! ## Rows of commitments -/

variable [DigitLimit]

section Commitments

variable (pp : GroupParameters)

/-- Commitments to the entries of a row, as they are written down. -/
noncomputable def commitRow (xs rs : List Int) : List Int :=
  List.zipWith (fun x r => canonical (pp.commitment x r : Residue pp.N)) xs rs

omit [DigitLimit] in
lemma length_commitRow {xs rs : List Int} (h : xs.length = rs.length) :
    (commitRow pp xs rs).length = xs.length := by
  rw [commitRow, List.length_zipWith, h, min_self]

lemma commitAll_zip (xs rs : List Int) : commitAll pp (xs.zip rs) = .ok (commitRow pp xs rs) := by
  induction xs generalizing rs with
  | nil => rfl
  | cons x xs ih =>
      cases rs with
      | nil => rfl
      | cons r rs =>
          rw [List.zip_cons_cons, commitAll, commit_ok, ok_bind, ih, ok_bind]
          rfl

omit [DigitLimit] in
/-- A product of powers of commitments, among the units. -/
lemma unitProduct_commitments {xs rs es : List Int} (hrs : xs.length = rs.length)
    (hes : xs.length = es.length) :
    Modular.unitProduct (List.zipWith pp.commitment xs rs) es
      = pp.commitment (sumOfProducts xs es) (sumOfProducts rs es) := by
  induction xs generalizing rs es with
  | nil =>
      rw [List.length_nil, eq_comm, List.length_eq_zero_iff] at hrs hes
      rw [hrs, hes]
      simp [Modular.unitProduct, sumOfProducts, GroupParameters.commitment]
  | cons x xs ih =>
      cases rs with
      | nil => simp at hrs
      | cons r rs =>
          cases es with
          | nil => simp at hes
          | cons e es =>
              have hrest := ih (Nat.succ.inj hrs) (Nat.succ.inj hes)
              rw [Modular.unitProduct] at hrest
              rw [Modular.unitProduct, List.zipWith_cons_cons, List.zipWith_cons_cons,
                List.prod_cons, hrest, sumOfProducts, sumOfProducts, pp.commitment_add,
                mul_comm x, mul_comm r, pp.commitment_zpow]

/-- **A product of powers of commitments** is a commitment to sums of products. -/
theorem multiPow_commitRow {xs rs es : List Int} (hrs : xs.length = rs.length)
    (hes : xs.length = es.length) :
    Modular.multiPow (commitRow pp xs rs) es pp.N
      = .ok (canonical (pp.commitment (sumOfProducts xs es) (sumOfProducts rs es)
          : Residue pp.N)) := by
  have hbases : List.Forall₂ (fun (b : Int) (u : (Residue pp.N)ˣ) => (b : Residue pp.N) = u)
      (commitRow pp xs rs) (List.zipWith pp.commitment xs rs) := by
    clear hes
    induction xs generalizing rs with
    | nil => exact .nil
    | cons x xs ih =>
        cases rs with
        | nil => exact .nil
        | cons r rs => exact .cons (cast_canonical pp.two_le_N _) (ih (Nat.succ.inj hrs))
  rw [Modular.multiPow_units pp.two_le_N hbases ((length_commitRow pp hrs).trans hes),
    unitProduct_commitments pp hrs hes]

end Commitments

/-! ## The first message, on both sides -/

section Messages

variable {pp : GroupParameters} {xs rs : List Int}

/-- What the prover hashes for given masks. -/
noncomputable def firstElements (pp : GroupParameters) (xs rs : List Int) (masks : Masks) :
    List Int :=
  commitRow pp masks.m masks.s
    ++ [canonical (pp.commitment (sumOfProducts xs masks.m) (sumOfProducts rs masks.m + masks.rest)
        : Residue pp.N)]

/-- The first message is made whenever the rows are equally long. -/
lemma firstMessage_ok (o : Oracles) {masks : Masks} (hrs : xs.length = rs.length)
    (hm : xs.length = masks.m.length) :
    firstMessage o pp (commitRow pp xs rs) masks
      = hashElements o.hash (firstElements pp xs rs masks) := by
  have hN := pp.two_le_N
  rw [firstMessage, commitAll_zip, ok_bind, multiPow_commitRow pp hrs hm, ok_bind,
    Modular.pow_of_unit hN pp.cast_H, ok_bind, Modular.mul_ok hN, ok_bind, cast_canonical hN,
    cast_canonical hN, ← Units.val_mul, ← pp.commitment_zero_left, ← pp.commitment_add, add_zero]
  rfl

/-- The commitment to a mask, from the response and the commitment to the root. -/
lemma recoverRoot_ok (pp : GroupParameters) (e : ℕ) (x r m s : Int) :
    recoverRoot pp e (.int (canonical (pp.commitment x r : Residue pp.N))) (.int (e * x + m))
        (.int (e * r + s))
      = .ok (canonical (pp.commitment m s : Residue pp.N)) := by
  have hlen : [pp.G, pp.H, canonical (pp.commitment x r : Residue pp.N)].length
      = [e * x + m, e * r + s, -(e : Int)].length := rfl
  have hproduct := Modular.multiPow_units pp.two_le_N
    (.cons pp.cast_G (.cons pp.cast_H (.cons (cast_canonical pp.two_le_N _) .nil))) hlen
  have hunits : Modular.unitProduct [pp.g, pp.h, pp.commitment x r]
      [e * x + m, e * r + s, -(e : Int)] = pp.commitment m s := by
    calc Modular.unitProduct [pp.g, pp.h, pp.commitment x r] [e * x + m, e * r + s, -(e : Int)]
        = pp.commitment (e * x + m) (e * r + s) * pp.commitment x r ^ (-(e : Int)) := by
          simp [Modular.unitProduct, GroupParameters.commitment, mul_assoc]
      _ = pp.commitment (e * x + m + -e * x) (e * r + s + -e * r) := by
          rw [← pp.commitment_zpow, ← pp.commitment_add]
      _ = pp.commitment m s := by
          congr 1 <;> ring
  rw [recoverRoot, Datum.get_int, ok_bind, Datum.get_int, ok_bind, Datum.get_int, ok_bind,
    hproduct, hunits]

/-- **The commitments to the masks of the roots** are recovered. -/
theorem recoverRoots_ok (pp : GroupParameters) (e : ℕ) {xs rs ms ss : List Int}
    (hrs : xs.length = rs.length) (hms : xs.length = ms.length) (hss : xs.length = ss.length) :
    recoverRoots pp e (((commitRow pp xs rs).map Datum.int).zip
        (((mask e xs ms).map Datum.int).zip ((mask e rs ss).map Datum.int)))
      = .ok (commitRow pp ms ss) := by
  induction xs generalizing rs ms ss with
  | nil =>
      rw [List.length_nil, eq_comm, List.length_eq_zero_iff] at hrs hms hss
      rw [hrs, hms, hss]
      rfl
  | cons x xs ih =>
      obtain ⟨r, rs, rfl⟩ := List.exists_cons_of_length_eq_add_one hrs.symm
      obtain ⟨m, ms, rfl⟩ := List.exists_cons_of_length_eq_add_one hms.symm
      obtain ⟨s, ss, rfl⟩ := List.exists_cons_of_length_eq_add_one hss.symm
      have hrest := ih (Nat.succ.inj hrs) (Nat.succ.inj hms) (Nat.succ.inj hss)
      rw [commitRow, mask, mask] at hrest
      rw [commitRow, mask, mask, commitRow, List.zipWith_cons_cons, List.zipWith_cons_cons,
        List.zipWith_cons_cons, List.zipWith_cons_cons, List.map_cons, List.map_cons,
        List.map_cons, List.zip_cons_cons, List.zip_cons_cons, recoverRoots, recoverRoot_ok,
        ok_bind, hrest]
      rfl

/-- **The commitment that belongs to the value** is recovered: the squares of the roots cancel
the value, and their products with the randomizers its randomness. -/
theorem recoverValue_ok (pp : GroupParameters) (e : ℕ) {x r rest : Int} {ms : List Int}
    (hrs : xs.length = rs.length) (hms : xs.length = ms.length) (hx : sumOfProducts xs xs = x) :
    recoverValue pp (canonical (pp.commitment x r : Residue pp.N)) e
        ((commitRow pp xs rs).map Datum.int) ((mask e xs ms).map Datum.int)
        (some (.int (e * (r - sumOfProducts xs rs) + rest)))
      = .ok (canonical (pp.commitment (sumOfProducts xs ms) (sumOfProducts rs ms + rest)
          : Residue pp.N)) := by
  have hN := pp.two_le_N
  have hblind := Modular.multiPow_pair hN pp.cast_H
    (cast_canonical hN (pp.commitment x r : Residue pp.N))
    (e * (r - sumOfProducts xs rs) + rest) (-(e : Int))
  have hunits : pp.commitment (sumOfProducts xs (mask e xs ms)) (sumOfProducts rs (mask e xs ms))
        * (pp.h ^ (e * (r - sumOfProducts xs rs) + rest) * pp.commitment x r ^ (-(e : Int)))
      = pp.commitment (sumOfProducts xs ms) (sumOfProducts rs ms + rest) := by
    rw [← pp.commitment_zero_left, ← pp.commitment_zpow, ← pp.commitment_add, ← pp.commitment_add,
      sumOfProducts_mask e hms, sumOfProducts_mask e hms, hx, sumOfProducts_comm rs xs]
    congr 1 <;> ring
  rw [recoverValue, Datum.getAll_map_int, ok_bind, Datum.getAll_map_int, ok_bind,
    multiPow_commitRow pp hrs (length_mask hms).symm, ok_bind, presentInt_some_int, ok_bind,
    hblind, ok_bind, Modular.mul_ok hN, cast_canonical hN, cast_canonical hN, ← Units.val_mul,
    hunits]

end Messages

/-! ## Prover and verifier -/

section Completeness

variable {o : Oracles} {cfg : Settings} {pp : GroupParameters} {x r kappa C : Int}
  {roots rs : List Int} {masks : Masks} {proof : Proof} {e : ℕ} {s s' : SearchState}

/-- Rows of the right length are judged once the challenge is known, on the first message computed
again. -/
lemma verify_of_lengths (proof : Proof) (hcs : proof.commitments.length = 4)
    (hz : proof.z.length = 4) (ht : proof.t.length = 4) :
    verify o cfg pp C proof
      = (Challenge.range o statement pp.G pp.H pp.N C proof.commitments proof.delta
          cfg.securityParam >>= fun e =>
          verdict o pp C e (proof.commitments.map Datum.int) (proof.z.map Datum.int)
            (proof.t.map Datum.int) (some (.int proof.tt)) proof.delta) := by
  rw [verify, check, Proof.received, presentRow_some_ofInts, ok_bind, List.length_map,
    if_neg (not_not.mpr hcs), presentRow_some_ofInts, ok_bind, List.length_map,
    if_neg (not_not.mpr hz), presentRow_some_ofInts, ok_bind, List.length_map,
    if_neg (not_not.mpr ht), checkRows, Challenge.range]
  cases Challenge.rangeOpening statement pp.G pp.H pp.N C cfg.securityParam with
  | error failure => rfl
  | ok opening =>
      have hentries : Datum.entry ∘ Datum.int = Entry.number := rfl
      rw [ok_bind, ok_bind, present_some, ok_bind, List.map_map, hentries]

/-- **An answer to the challenge is accepted**, when the squares of the roots add up to the
value. -/
theorem verify_of_respond (hroots : roots.length = 4) (hrs : rs.length = 4)
    (hm : masks.m.length = 4) (hs : masks.s.length = 4) (hx : sumOfProducts roots roots = x)
    (h : respond o pp cfg.securityParam (canonical (pp.commitment x r : Residue pp.N)) r roots rs
      (commitRow pp roots rs) masks = .ok proof) :
    verify o cfg pp (canonical (pp.commitment x r : Residue pp.N)) proof = .ok true := by
  have hrs' : roots.length = rs.length := hroots.trans hrs.symm
  have hm' : roots.length = masks.m.length := hroots.trans hm.symm
  have hs' : roots.length = masks.s.length := hroots.trans hs.symm
  have hs'' : rs.length = masks.s.length := hrs.trans hs.symm
  rw [respond, firstMessage_ok o hrs' hm'] at h
  obtain ⟨delta, hdelta, h⟩ := bind_eq_ok.mp h
  obtain ⟨e, he, h⟩ := bind_eq_ok.mp h
  cases h
  refine (verify_of_lengths ⟨commitRow pp roots rs, delta, _, _, _⟩ ?_ ?_ ?_).trans ?_
  · exact (length_commitRow pp hrs').trans hroots
  · exact (length_mask hm').trans hroots
  · exact (length_mask hs'').trans hrs
  have hrecover : recover pp (canonical (pp.commitment x r : Residue pp.N)) e
      ((commitRow pp roots rs).map Datum.int) ((mask e roots masks.m).map Datum.int)
      ((mask e rs masks.s).map Datum.int)
      (some (.int (e * (r - sumOfProducts roots rs) + masks.rest)))
      = .ok (firstElements pp roots rs masks) := by
    rw [recover, recoverRoots_ok pp e hrs' hm' hs', ok_bind, recoverValue_ok pp e hrs' hm' hx,
      ok_bind]
    rfl
  rw [he, ok_bind, verdict, hrecover]
  dsimp only
  rw [hdelta, ok_bind, decide_eq_true rfl, pure_eq_ok]

lemma length_of_drawMasks {N mBound : Int} {n n' : ℕ}
    (h : drawMasks o N kappa mBound n = .ok masks n') :
    masks.m.length = 4 ∧ masks.s.length = 4 := by
  rw [drawMasks] at h
  obtain ⟨m, _, hm, h⟩ := bind_run_eq_ok.mp h
  obtain ⟨_, _, -, h⟩ := bind_run_eq_ok.mp h
  obtain ⟨s, _, hs, h⟩ := bind_run_eq_ok.mp h
  obtain ⟨_, _, -, h⟩ := bind_run_eq_ok.mp h
  cases h
  exact ⟨Draw.length_times hm, Draw.length_times hs⟩

lemma commitRoots_ok (hroots : roots.length = 4) (hrs : rs.length = 4) :
    commitRoots pp roots rs = .ok (commitRow pp roots rs) := by
  rw [commitRoots, if_neg (by omega), commitAll_zip]

/-- **Proofs of non-negativity are complete.** -/
theorem verify_of_prove (h : prove o cfg pp x r s = .ok proof s') :
    verify o cfg pp (canonical (pp.commitment x r : Residue pp.N)) proof = .ok true := by
  rw [prove] at h
  by_cases hneg : x < 0
  · rw [if_pos hneg] at h
    cases h
  by_cases hbits : valueBits < bitLength x.toNat
  · rw [if_neg hneg, if_pos hbits] at h
    cases h
  rw [if_neg hneg, if_neg hbits] at h
  obtain ⟨C, _, hC, h⟩ := bind_run_eq_ok.mp h
  obtain ⟨w, _, hw, h⟩ := bind_run_eq_ok.mp h
  obtain ⟨rs, _, hdraws, h⟩ := bind_run_eq_ok.mp h
  obtain ⟨cs, _, hcs, h⟩ := bind_run_eq_ok.mp h
  obtain ⟨mBound, _, -, h⟩ := bind_run_eq_ok.mp h
  obtain ⟨masks, _, hmasks, h⟩ := bind_run_eq_ok.mp h
  have hrespond := (Search.ofExcept_run_eq_ok.mp h).1
  have hrs := Draw.length_times (Search.draw_run_eq_ok hdraws)
  obtain ⟨hm, hs⟩ := length_of_drawMasks (Search.draw_run_eq_ok hmasks)
  have hC := (Search.ofExcept_run_eq_ok.mp hC).1
  have hcs := (Search.ofExcept_run_eq_ok.mp hcs).1
  rw [commit_ok] at hC
  rw [commitRoots_ok rfl hrs] at hcs
  cases hC
  cases hcs
  have hsum : sumOfProducts w.toList w.toList = x := by
    rw [sumOfProducts_toList, squareSum_of_lagrange hw]
  exact verify_of_respond rfl hrs hm hs hsum hrespond

end Completeness

end NonNegative

end HiddenOrder
