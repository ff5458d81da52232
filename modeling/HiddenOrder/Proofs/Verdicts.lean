import HiddenOrder.Proofs.Interval
import HiddenOrder.Proofs.ShortestBytes
import HiddenOrder.Proofs.Verifier

/-!
# Every verifier reaches a verdict

The integers of a proof from outside have any sign and any size, and its rows any length.  The
verifiers of the exponentiation protocols raise to natural exponents only, so nothing can stop them.
The verifier of non-negativity does take inverses, where every refusal is a verdict; what it hashes
afterwards is canonical, so the hash is not refused.  Only the walk to a challenge may take longer
than one waits for it; and under a limit on numerals the challenge cannot even be asked for when one
of the numbers that it is about is too long.  Once it was, the refusals that follow have their
texts: the numbers in them were written before.

* `Modular.okOrRefused_multiPow`, **`Modular.isUnit_of_multiPow`** — products of powers; only a unit
  passes under a negative exponent.
* **`NonNegative.okOrRefused_recover`**, **`NonNegative.isUnit_of_recover`** — the first message,
  computed again from any responses.
* `Concludes` — a verdict is reached, or there is no challenge.
* **`verifiers_total`** — all five verifiers conclude, and those with inverses refuse commitments
  that are no units.
-/

namespace HiddenOrder

/-! ## Powers return or refuse -/

section

variable [DigitLimit]

namespace Modular

variable {N : Int}

lemma okOrRefused_mul (hN : 2 ≤ N) (a b : Int) : OkOrRefused (0 ≤ ·) (mul a b N) := by
  rw [mul_ok hN]
  exact .ok (Int.natCast_nonneg _)

lemma okOrRefused_pow (hN : 2 ≤ N) (hwritable : Writable N) {b : Int} (hb : Writable b) (e : Int) :
    OkOrRefused (0 ≤ ·) (pow b e N) := by
  by_cases he : 0 ≤ e
  · rw [pow_of_nonneg hN b he]
    exact .ok (Int.natCast_nonneg _)
  · by_cases hunit : IsUnit (b : Residue N)
    · obtain ⟨u, hu⟩ := hunit
      rw [pow_of_unit hN hu.symm]
      exact .ok (Int.natCast_nonneg _)
    · rw [pow_of_not_isUnit hN hunit (not_le.mp he)]
      exact .of_fits (List.forall_mem_cons.mpr ⟨hb, List.forall_mem_singleton.mpr hwritable⟩)

lemma okOrRefused_prodPow (hN : 2 ≤ N) (hwritable : Writable N) {pairs : List (Int × Int)}
    (hpairs : ∀ pair ∈ pairs, Writable pair.1) {acc : Int} (hacc : 0 ≤ acc) :
    OkOrRefused (0 ≤ ·) (prodPow N acc pairs) := by
  induction pairs generalizing acc with
  | nil => exact .ok hacc
  | cons pair pairs ih =>
      obtain ⟨hpair, hpairs⟩ := List.forall_mem_cons.mp hpairs
      exact (okOrRefused_pow hN hwritable hpair pair.2).bind fun p _ =>
        (okOrRefused_mul hN acc p).bind fun _ hproduct => ih hpairs hproduct

lemma okOrRefused_multiPow (hN : 2 ≤ N) (hwritable : Writable N) {bases exponents : List Int}
    (hbases : ∀ b ∈ bases, Writable b) (hlen : bases.length = exponents.length) :
    OkOrRefused (0 ≤ ·) (multiPow bases exponents N) := by
  rw [multiPow, if_neg (not_not.mpr hlen)]
  exact okOrRefused_prodPow hN hwritable
    (fun pair hpair => hbases _ (List.of_mem_zip hpair).1) zero_le_one

lemma isUnit_of_pow (hN : 2 ≤ N) {b e v : Int} (h : pow b e N = .ok v) (he : e < 0) :
    IsUnit (b : Residue N) := by
  by_contra hb
  rw [pow_of_not_isUnit hN hb he] at h
  cases h

lemma isUnit_of_prodPow (hN : 2 ≤ N) {pairs : List (Int × Int)} {acc v b e : Int}
    (h : prodPow N acc pairs = .ok v) (hmem : (b, e) ∈ pairs) (he : e < 0) :
    IsUnit (b : Residue N) := by
  induction pairs generalizing acc with
  | nil => cases hmem
  | cons pair pairs ih =>
      obtain ⟨p, hpow, h⟩ := bind_eq_ok.mp h
      obtain ⟨product, _, h⟩ := bind_eq_ok.mp h
      rcases List.mem_cons.mp hmem with rfl | hmem
      · exact isUnit_of_pow hN hpow he
      · exact ih h hmem

/-- **Only a unit passes under a negative exponent**, wherever it stands in a product of powers. -/
theorem isUnit_of_multiPow (hN : 2 ≤ N) {bases exponents : List Int} {v b e : Int}
    (h : multiPow bases exponents N = .ok v) (hmem : (b, e) ∈ bases.zip exponents) (he : e < 0) :
    IsUnit (b : Residue N) := by
  rw [multiPow] at h
  by_cases hlen : bases.length ≠ exponents.length
  · rw [if_pos hlen] at h
    cases h
  · rw [if_neg hlen] at h
    exact isUnit_of_prodPow hN h hmem he

end Modular

/-! ## The first message, from any responses -/

namespace NonNegative

section Recovery

variable {o : Oracles} {pp : GroupParameters} {C tt : Int} {e : Nat} {cs zs ts : List Int}

/-- The generators are shorter than the modulus. -/
lemma writable_generators (hN : Writable pp.N) : Writable pp.G ∧ Writable pp.H := by
  have hG := pp.one_lt_G
  have hH := pp.one_lt_H
  exact ⟨hN.of_lt (by omega) pp.G_lt_N, hN.of_lt (by omega) pp.H_lt_N⟩

lemma recoverRoot_ints (pp : GroupParameters) (e : Nat) (c z t : Int) :
    recoverRoot pp e (.int c) (.int z) (.int t)
      = Modular.multiPow [pp.G, pp.H, c] [z, t, -e] pp.N := rfl

lemma okOrRefused_recoverRoot (hN : Writable pp.N) (e : Nat) {c : Int} (hc : Writable c)
    (z t : Int) : OkOrRefused (0 ≤ ·) (recoverRoot pp e (.int c) (.int z) (.int t)) := by
  obtain ⟨hG, hH⟩ := writable_generators hN
  rw [recoverRoot_ints]
  exact Modular.okOrRefused_multiPow pp.two_le_N hN (by simp [hG, hH, hc]) rfl

lemma okOrRefused_recoverRoots (hN : Writable pp.N) (e : Nat) {rows : List (Int × Int × Int)}
    (hrows : ∀ row ∈ rows, Writable row.1) :
    OkOrRefused (fun ds => ∀ d ∈ ds, 0 ≤ d)
      (recoverRoots pp e (rows.map (Prod.map Datum.int (Prod.map Datum.int Datum.int)))) := by
  induction rows with
  | nil => exact .ok (List.forall_mem_nil _)
  | cons row rows ih =>
      obtain ⟨c, z, t⟩ := row
      obtain ⟨hc, hrows⟩ := List.forall_mem_cons.mp hrows
      refine (okOrRefused_recoverRoot hN e hc z t).bind fun d hd => ?_
      refine (ih hrows).bind fun ds hds => ?_
      exact .ok (List.forall_mem_cons.mpr ⟨hd, hds⟩)

lemma isUnit_of_recoverRoots {rows : List (Int × Int × Int)} {ds : List Int}
    (h : recoverRoots pp e (rows.map (Prod.map Datum.int (Prod.map Datum.int Datum.int))) = .ok ds)
    (he : e ≠ 0) : ∀ row ∈ rows, IsUnit (row.1 : Residue pp.N) := by
  induction rows generalizing ds with
  | nil => exact List.forall_mem_nil _
  | cons row rows ih =>
      obtain ⟨d, hd, h⟩ := bind_eq_ok.mp h
      obtain ⟨rest, hrest, _⟩ := bind_eq_ok.mp h
      rw [recoverRoot_ints] at hd
      refine List.forall_mem_cons.mpr ⟨?_, ih hrest⟩
      exact Modular.isUnit_of_multiPow pp.two_le_N hd
        (List.mem_cons_of_mem _ (List.mem_cons_of_mem _ List.mem_cons_self)) (by omega)

lemma recoverValue_ints (pp : GroupParameters) (C : Int) (e : Nat) (cs zs : List Int) (tt : Int) :
    recoverValue pp C e (cs.map .int) (zs.map .int) (some (.int tt))
      = (Modular.multiPow cs zs pp.N >>= fun product =>
          Modular.multiPow [pp.H, C] [tt, -e] pp.N >>= fun blind =>
            Modular.mul product blind pp.N) := by
  rw [recoverValue, Datum.getAll_map_int, ok_bind, Datum.getAll_map_int, ok_bind]
  rfl

/-- **Whatever the responses are**, the first message is computed again in integers that are not
negative, or one of the elements is refused. -/
theorem okOrRefused_recover (e : Nat) (ts : List Int) (tt : Int) (hlen : cs.length = zs.length)
    (hwritable : ∀ n ∈ [pp.G, pp.H, pp.N, C] ++ cs, Writable n) :
    OkOrRefused (fun ds => ∀ d ∈ ds, 0 ≤ d)
      (recover pp C e (cs.map .int) (zs.map .int) (ts.map .int) (some (.int tt))) := by
  have hN := pp.two_le_N
  obtain ⟨hstated, hcs⟩ := List.forall_mem_append.mp hwritable
  have hmodulus : Writable pp.N := hstated _ (by simp)
  have hblind : ∀ b ∈ [pp.H, C], Writable b := fun b hb => hstated b (by
    rcases List.mem_pair.mp hb with rfl | rfl <;> simp)
  have hrows : ∀ row ∈ cs.zip (zs.zip ts), Writable row.1 := fun row hrow =>
    hcs _ (List.of_mem_zip hrow).1
  rw [recover, List.zip_map, List.zip_map, recoverValue_ints]
  refine (okOrRefused_recoverRoots hmodulus e hrows).bind fun ds hds => ?_
  refine OkOrRefused.bind (P := (0 ≤ ·)) ?_ fun d hd => .ok ?_
  · exact (Modular.okOrRefused_multiPow hN hmodulus hcs hlen).bind fun product _ =>
      (Modular.okOrRefused_multiPow hN hmodulus hblind
        (show [pp.H, C].length = [tt, -(e : Int)].length from rfl)).bind fun blind _ =>
        Modular.okOrRefused_mul hN _ _
  · exact List.forall_mem_append.mpr ⟨hds, List.forall_mem_singleton.mpr hd⟩

/-- **Only from units** is it computed again, when the challenge is not zero. -/
theorem isUnit_of_recover {ds : List Int}
    (h : recover pp C e (cs.map .int) (zs.map .int) (ts.map .int) (some (.int tt)) = .ok ds)
    (he : e ≠ 0) (hz : cs.length = zs.length) (ht : zs.length = ts.length) :
    IsUnit (C : Residue pp.N) ∧ ∀ c ∈ cs, IsUnit (c : Residue pp.N) := by
  have hN := pp.two_le_N
  rw [recover, List.zip_map, List.zip_map, recoverValue_ints] at h
  obtain ⟨roots, hroots, h⟩ := bind_eq_ok.mp h
  obtain ⟨value, hvalue, _⟩ := bind_eq_ok.mp h
  obtain ⟨product, _, hvalue⟩ := bind_eq_ok.mp hvalue
  obtain ⟨blind, hblind, _⟩ := bind_eq_ok.mp hvalue
  refine ⟨Modular.isUnit_of_multiPow hN hblind (List.mem_cons_of_mem _ List.mem_cons_self)
    (by omega), fun c hc => ?_⟩
  have hrows : (cs.zip (zs.zip ts)).map Prod.fst = cs :=
    List.map_fst_zip (by rw [List.length_zip]; omega)
  rw [← hrows] at hc
  obtain ⟨row, hrow, rfl⟩ := List.mem_map.mp hc
  exact isUnit_of_recoverRoots hroots he row hrow

end Recovery

/-! ## The verdict on a proof of non-negativity -/

/-- The challenge that a proof is judged under. -/
def challenge (o : Oracles) (cfg : Settings) (pp : GroupParameters) (C : Int) (proof : Proof) :
    Except Error Nat :=
  Challenge.range o statement pp.G pp.H pp.N C proof.commitments proof.delta cfg.securityParam

section Verdict

variable {o : Oracles} {cfg : Settings} {pp : GroupParameters} {C : Int} {proof : Proof} {e : Nat}

/-- The numbers that a proof is judged about. -/
def stated (pp : GroupParameters) (C : Int) (proof : Proof) : List Int :=
  [pp.G, pp.H, pp.N, C] ++ proof.commitments

/-- The challenge is about them. -/
lemma challenge_asks (o : Oracles) (pp : GroupParameters) (C : Int) (proof : Proof)
    (hcfg : 1 ≤ cfg.securityParam) : AsksAbout (stated pp C proof) (challenge o cfg pp C proof) :=
  Challenge.range_asks o statement pp.G pp.H pp.N C proof.commitments proof.delta hcfg

lemma verdict_total (o : Oracles) (e : Nat) {cs zs : List Int} (ts : List Int) (tt : Int)
    (delta : Bytes) (hlen : cs.length = zs.length)
    (hwritable : ∀ n ∈ [pp.G, pp.H, pp.N, C] ++ cs, Writable n) :
    ∃ b, verdict o pp C e (cs.map .int) (zs.map .int) (ts.map .int) (some (.int tt)) delta
      = .ok b := by
  rw [verdict]
  obtain ⟨ds, hds, hnonneg⟩ | ⟨cause, hrefused⟩ := okOrRefused_recover e ts tt hlen hwritable
  · have hbytes := hashElements_of_nonneg o.hash hnonneg
    rw [hds]
    dsimp only
    exact ⟨_, by rw [hbytes, ok_bind, pure_eq_ok]⟩
  · rw [hrefused]
    exact ⟨false, rfl⟩

/-- A row of another length than four refutes a proof, before any challenge is asked for. -/
lemma verify_of_length (o : Oracles) (cfg : Settings) (pp : GroupParameters) (C : Int)
    (h : ¬(proof.commitments.length = 4 ∧ proof.z.length = 4 ∧ proof.t.length = 4)) :
    verify o cfg pp C proof = .ok false := by
  rw [verify, check, Proof.received, presentRow_some_ofInts, ok_bind, List.length_map]
  by_cases hcs : proof.commitments.length = 4
  · rw [if_neg (not_not.mpr hcs), presentRow_some_ofInts, ok_bind, List.length_map]
    by_cases hz : proof.z.length = 4
    · rw [if_neg (not_not.mpr hz), presentRow_some_ofInts, ok_bind, List.length_map,
        if_pos fun ht => h ⟨hcs, hz, ht⟩, pure_eq_ok]
    · rw [if_pos hz, pure_eq_ok]
  · rw [if_pos hcs, pure_eq_ok]

/-- What is accepted was judged under a challenge. -/
lemma challenge_of_accepted (h : verify o cfg pp C proof = .ok true) :
    ∃ e, challenge o cfg pp C proof = .ok e := by
  by_cases hlen : proof.commitments.length = 4 ∧ proof.z.length = 4 ∧ proof.t.length = 4
  · obtain ⟨hcs, hz, ht⟩ := hlen
    rw [verify_of_lengths proof hcs hz ht, ← challenge] at h
    obtain ⟨e, he, -⟩ := bind_eq_ok.mp h
    exact ⟨e, he⟩
  · rw [verify_of_length o cfg pp C hlen] at h
    cases h

/-- **A commitment that is no unit refutes a proof**, when the challenge is not zero. -/
theorem verify_of_not_isUnit (hcfg : 1 ≤ cfg.securityParam)
    (he : challenge o cfg pp C proof = .ok e) (hne : e ≠ 0)
    (h : ¬IsUnit (C : Residue pp.N) ∨ ∃ c ∈ proof.commitments, ¬IsUnit (c : Residue pp.N)) :
    verify o cfg pp C proof = .ok false := by
  by_cases hlen : proof.commitments.length = 4 ∧ proof.z.length = 4 ∧ proof.t.length = 4
  · obtain ⟨hcs, hz, ht⟩ := hlen
    rw [verify_of_lengths proof hcs hz ht, ← challenge, he, ok_bind, verdict]
    have hwritable := (challenge_asks o pp C proof hcfg).writable he
    obtain ⟨ds, hds, _⟩ | ⟨cause, hrefused⟩ :=
      okOrRefused_recover e proof.t proof.tt (hcs.trans hz.symm) hwritable
    · obtain ⟨hC, hunits⟩ := isUnit_of_recover hds hne (hcs.trans hz.symm) (hz.trans ht.symm)
      obtain hC' | ⟨c, hc, hc'⟩ := h
      · exact absurd hC hC'
      · exact absurd (hunits c hc) hc'
    · rw [hrefused]
  · exact verify_of_length o cfg pp C hlen

end Verdict

end NonNegative

/-! ## Verifiers conclude -/

/-- A verdict is reached, unless there is no challenge: the walk to it has run out of steps, or one
of the numbers that the proof is judged about is too long to be put to it. -/
inductive Concludes {α : Type} (stated : List Int) (verdict : Except Error Bool)
    (challenge : Except Error α) : Prop
  | reached (h : ∃ b, verdict = .ok b)
  | unended (hchallenge : challenge = .error .outOfSteps) (hverdict : verdict = .error .outOfSteps)
  | tooLong (hstated : ¬∀ n ∈ stated, Writable n)
      (hchallenge : challenge = .error (.fault .longNumeral))
      (hverdict : verdict = .error (.fault .longNumeral))

namespace Concludes

variable {α : Type} {ns : List Int} {verdict : Except Error Bool} {challenge : Except Error α}

lemma of_ok {l : α} (h : Concludes ns verdict challenge) (hl : challenge = .ok l) :
    ∃ b, verdict = .ok b := by
  rw [hl] at h
  cases h with
  | reached h => exact h
  | unended hchallenge => cases hchallenge
  | tooLong _ hchallenge => cases hchallenge

/-- A verifier that asks for one challenge, if for any, concludes when it does under a challenge. -/
lemma of_asks (hasks : AsksAbout ns challenge) (hok : ∀ l, challenge = .ok l → ∃ b, verdict = .ok b)
    (herror : ∀ e, challenge = .error e → verdict = .error e ∨ ∃ b, verdict = .ok b) :
    Concludes ns verdict challenge := by
  obtain ⟨l, hl⟩ | hout | ⟨hlong, hout⟩ := hasks.cases
  · exact .reached (hok l hl)
  · exact (herror _ hout).elim (.unended hout) .reached
  · exact (herror _ hout).elim (.tooLong hlong hout) .reached

/-- The numbers that are too long are among others. -/
lemma mono {ms : List Int} (h : Concludes ns verdict challenge)
    (hms : (∀ m ∈ ms, Writable m) → ∀ n ∈ ns, Writable n) : Concludes ms verdict challenge := by
  cases h with
  | reached h => exact .reached h
  | unended hchallenge hverdict => exact .unended hchallenge hverdict
  | tooLong hstated hchallenge hverdict =>
      exact .tooLong (fun h => hstated (hms h)) hchallenge hverdict

end Concludes

section Verifiers

variable {o : Oracles} {cfg : Settings} {pp : GroupParameters}

lemma PoE.verify_concludes (o : Oracles) (base mod C x Q : Int) :
    Concludes [base, mod, C, x] (verify o base mod C x ⟨Q⟩) (Challenge.poe o base mod C x) := by
  refine .of_asks (Challenge.poe_asks o base mod C x) (fun l hl => (verify_decides Q hl).returns)
    fun e he => ?_
  rw [verify, check]
  by_cases hshape : x < 0 ∨ mod < 2
  · rw [if_pos hshape]
    exact .inr ⟨false, rfl⟩
  · rw [if_neg hshape, he]
    exact .inl rfl

lemma PoKEStar.verify_concludes (o : Oracles) (G N C Q r : Int) :
    Concludes [G, N, C] (verify o G N C ⟨Q, r⟩) (Challenge.pokeStar o G N C) := by
  refine .of_asks (Challenge.pokeStar_asks o G N C) (fun l hl => (verify_decides Q r hl).returns)
    fun e he => ?_
  rw [verify, check]
  by_cases hN : N < 2
  · rw [if_pos hN]
    exact .inr ⟨false, rfl⟩
  · rw [if_neg hN, he]
    exact .inl rfl

lemma ZKPoKE.verify_concludes (o : Oracles) (pp : GroupParameters) (u w : Int) (proof : Proof) :
    Concludes [pp.G, pp.H, pp.N, u, w, proof.z, proof.Ag, proof.Au] (verify o pp u w proof)
      (Challenge.zkpoke o pp.G pp.H pp.N u w proof.z proof.Ag proof.Au) := by
  refine .of_asks (Challenge.zkpoke_asks o pp.G pp.H pp.N u w proof.z proof.Ag proof.Au)
    (fun (c, l) hl => (verify_decides proof hl).returns) fun e he => ?_
  have hchallenges : challenges o pp u w proof.received = .error e := he
  rw [verify, check, hchallenges]
  exact .inl rfl

lemma NonNegative.verify_concludes (o : Oracles) (pp : GroupParameters) (C : Int) (proof : Proof)
    (hcfg : 1 ≤ cfg.securityParam) :
    Concludes (stated pp C proof) (verify o cfg pp C proof) (challenge o cfg pp C proof) := by
  by_cases hlen : proof.commitments.length = 4 ∧ proof.z.length = 4 ∧ proof.t.length = 4
  · obtain ⟨hcs, hz, ht⟩ := hlen
    have hasks := challenge_asks o pp C proof hcfg
    rw [verify_of_lengths proof hcs hz ht, ← challenge]
    refine .of_asks hasks (fun e he => ?_) fun e he => .inl ?_
    · rw [he, ok_bind]
      exact verdict_total o e _ _ _ (hcs.trans hz.symm) (hasks.writable he)
    · rw [he, error_bind]
  · exact .reached ⟨false, verify_of_length o cfg pp C hlen⟩

namespace Interval

variable {C a b : Int}

/-- The challenges that the two parts of a proof are judged under. -/
def challenges (o : Oracles) (cfg : Settings) (pp : GroupParameters) (C a b : Int) (proof : Proof) :
    Except Error (Nat × Nat) := do
  let (lower, upper) ← commitments pp C a b
  let e ← NonNegative.challenge o cfg pp lower proof.lower
  let e' ← NonNegative.challenge o cfg pp upper proof.upper
  pure (e, e')

/-- From a unit the commitments of both parts are derived, and they are residues. -/
lemma commitments_of_isUnit (hC : IsUnit (C : Residue pp.N)) (a b : Int) :
    ∃ lower upper : Residue pp.N,
      commitments pp C a b = .ok (canonical lower, canonical upper) := by
  have hN := pp.two_le_N
  obtain ⟨v, hv⟩ := hC
  rw [commitments, Modular.pow_of_unit hN pp.cast_G, ok_bind, Modular.mul_ok hN, ok_bind,
    Modular.pow_of_unit hN pp.cast_G, ok_bind, Modular.pow_of_unit hN hv.symm, ok_bind,
    Modular.mul_ok hN, ok_bind]
  exact ⟨_, _, rfl⟩

/-- The second one is derived with an inverse, so from nothing else. -/
lemma commitments_of_not_isUnit (hC : ¬IsUnit (C : Residue pp.N)) (a b : Int) :
    commitments pp C a b = .error (refuse (.baseNotInvertible C pp.N)) := by
  have hN := pp.two_le_N
  rw [commitments, Modular.pow_of_unit hN pp.cast_G, ok_bind, Modular.mul_ok hN, ok_bind,
    Modular.pow_of_unit hN pp.cast_G, ok_bind, Modular.pow_of_not_isUnit hN hC (by decide),
    error_bind]

/-- **A commitment that is no unit refutes a proof**, whatever the interval; unless the refusal
itself cannot be written. -/
theorem verify_of_not_isUnit (hC : ¬IsUnit (C : Residue pp.N)) (a b : Int) (proof : Proof) :
    verify o cfg pp C a b proof = if b < a ∨ Writable C ∧ Writable pp.N then .ok false
      else .error (.fault .longNumeral) := by
  rw [verify, check, commitments_of_not_isUnit hC, refuse_of_two rfl]
  by_cases hab : b < a
  · rw [if_pos hab, if_pos (.inl hab)]
  · by_cases hwritable : Writable C ∧ Writable pp.N
    · rw [if_neg hab, if_pos hwritable, if_pos (.inr hwritable)]
    · rw [if_neg hab, if_neg hwritable, if_neg (not_or.mpr ⟨hab, hwritable⟩)]

/-- Of an interval that is not empty the parts are judged one after the other. -/
lemma verify_of_commitments {lower upper : Int} (proof : Proof) (hab : a ≤ b)
    (h : commitments pp C a b = .ok (lower, upper)) :
    verify o cfg pp C a b proof
      = (NonNegative.verify o cfg pp lower proof.lower >>= fun low =>
          if low then NonNegative.verify o cfg pp upper proof.upper else .ok false) := by
  rw [verify, check, if_neg (not_lt.mpr hab), h]
  rfl

/-- The numbers that a proof is judged about, apart from what is derived of them. -/
def stated (pp : GroupParameters) (C : Int) (proof : Proof) : List Int :=
  [pp.N, C] ++ proof.lower.commitments ++ proof.upper.commitments

/-- What is derived is a residue. -/
lemma writable_stated {proof : Proof} (h : ∀ n ∈ stated pp C proof, Writable n)
    (derived : Residue pp.N) :
    (∀ n ∈ NonNegative.stated pp (canonical derived) proof.lower, Writable n) ∧
      ∀ n ∈ NonNegative.stated pp (canonical derived) proof.upper, Writable n := by
  obtain ⟨h, hupper⟩ := List.forall_mem_append.mp h
  obtain ⟨h, hlower⟩ := List.forall_mem_append.mp h
  have hN : Writable pp.N := h _ List.mem_cons_self
  obtain ⟨hG, hH⟩ := NonNegative.writable_generators hN
  have hderived : Writable (canonical derived) :=
    hN.of_lt (Int.natCast_nonneg _) (canonical_lt pp.two_le_N derived)
  have hopening : ∀ n ∈ [pp.G, pp.H, pp.N, canonical derived], Writable n := by
    simp [hG, hH, hN, hderived]
  exact ⟨List.forall_mem_append.mpr ⟨hopening, hlower⟩,
    List.forall_mem_append.mpr ⟨hopening, hupper⟩⟩

/-- The parts of a proof conclude one after the other. -/
lemma parts_conclude (o : Oracles) (proof : Proof) (hab : a ≤ b) (hcfg : 1 ≤ cfg.securityParam)
    {lower upper : Residue pp.N}
    (h : commitments pp C a b = .ok (canonical lower, canonical upper)) :
    Concludes (stated pp C proof) (verify o cfg pp C a b proof)
      (challenges o cfg pp C a b proof) := by
  rw [verify_of_commitments proof hab h, challenges, h, ok_bind]
  dsimp only
  have hlower := (NonNegative.verify_concludes o pp (canonical lower) proof.lower hcfg).mono
    fun h : ∀ n ∈ stated pp C proof, Writable n => (writable_stated h lower).1
  have hupper := (NonNegative.verify_concludes o pp (canonical upper) proof.upper hcfg).mono
    fun h : ∀ n ∈ stated pp C proof, Writable n => (writable_stated h upper).2
  cases hlower with
  | unended hchallenge hverdict =>
      rw [hchallenge, hverdict]
      exact .unended rfl rfl
  | tooLong hlong hchallenge hverdict =>
      rw [hchallenge, hverdict]
      exact .tooLong hlong rfl rfl
  | reached hreached =>
      obtain ⟨low, hlow⟩ := hreached
      rw [hlow, ok_bind]
      cases low with
      | false => exact .reached ⟨false, rfl⟩
      | true =>
          -- only now is the second challenge asked for, and it may be the one that is missing
          obtain ⟨e, he⟩ := NonNegative.challenge_of_accepted hlow
          rw [he, ok_bind]
          cases hupper with
          | reached h => exact .reached h
          | unended hchallenge hverdict =>
              rw [hchallenge, error_bind]
              exact .unended rfl hverdict
          | tooLong hlong hchallenge hverdict =>
              rw [hchallenge, error_bind]
              exact .tooLong hlong rfl hverdict

lemma verify_concludes (o : Oracles) (pp : GroupParameters) (C a b : Int) (proof : Proof)
    (hcfg : 1 ≤ cfg.securityParam) :
    Concludes (stated pp C proof) (verify o cfg pp C a b proof)
      (challenges o cfg pp C a b proof) := by
  by_cases hab : a ≤ b
  · by_cases hC : IsUnit (C : Residue pp.N)
    · obtain ⟨lower, upper, hderived⟩ := commitments_of_isUnit hC a b
      exact parts_conclude o proof hab hcfg hderived
    · rw [verify_of_not_isUnit hC]
      split_ifs with hwritable
      · exact .reached ⟨false, rfl⟩
      · have hlong : ¬(Writable C ∧ Writable pp.N) := fun h => hwritable (.inr h)
        refine .tooLong (fun h => hlong ⟨h _ (by simp [stated]), h _ (by simp [stated])⟩) ?_ rfl
        rw [challenges, commitments_of_not_isUnit hC, refuse_of_two rfl, if_neg hlong, error_bind]
  · rw [verify, check, if_pos (not_le.mp hab)]
    exact .reached ⟨false, rfl⟩

end Interval

end Verifiers

/-- **Every verifier reaches a verdict**, on any statement and any proof in its proper form: rows of
any length, integers of any sign and size, any bytes.  It is kept from one only by a walk to a
challenge that has not come to its end, or by a number that is too long to be put to the challenge.
A commitment that is no unit is refused by the verifier of non-negativity when the challenge is not
zero, and by the verifier of intervals in any case, unless the interval is not empty and the text of
the refusal cannot be written. -/
theorem verifiers_total (o : Oracles) (cfg : Settings) (pp : GroupParameters)
    (hcfg : 1 ≤ cfg.securityParam) :
    (∀ base mod C x Q, Concludes [base, mod, C, x]
      (PoE.verify o base mod C x ⟨Q⟩) (Challenge.poe o base mod C x)) ∧
    (∀ G N C Q r, Concludes [G, N, C]
      (PoKEStar.verify o G N C ⟨Q, r⟩) (Challenge.pokeStar o G N C)) ∧
    (∀ u w proof, Concludes [pp.G, pp.H, pp.N, u, w, proof.z, proof.Ag, proof.Au]
      (ZKPoKE.verify o pp u w proof)
      (Challenge.zkpoke o pp.G pp.H pp.N u w proof.z proof.Ag proof.Au)) ∧
    (∀ C proof, Concludes ([pp.G, pp.H, pp.N, C] ++ proof.commitments)
      (NonNegative.verify o cfg pp C proof) (NonNegative.challenge o cfg pp C proof)) ∧
    (∀ C a b proof, Concludes ([pp.N, C] ++ proof.lower.commitments ++ proof.upper.commitments)
      (Interval.verify o cfg pp C a b proof) (Interval.challenges o cfg pp C a b proof)) ∧
    (∀ C proof e, NonNegative.challenge o cfg pp C proof = .ok e → e ≠ 0 →
      Int.gcd C pp.N ≠ 1 ∨ (∃ c ∈ proof.commitments, Int.gcd c pp.N ≠ 1) →
      NonNegative.verify o cfg pp C proof = .ok false) ∧
    (∀ C a b proof, Int.gcd C pp.N ≠ 1 → Interval.verify o cfg pp C a b proof =
      if b < a ∨ Writable C ∧ Writable pp.N then .ok false
        else .error (.fault .longNumeral)) := by
  have hunit : ∀ c : Int, Int.gcd c pp.N ≠ 1 ↔ ¬IsUnit (c : Residue pp.N) := fun c =>
    not_congr (isUnit_cast_iff pp.two_le_N c).symm
  refine ⟨PoE.verify_concludes o, PoKEStar.verify_concludes o, ZKPoKE.verify_concludes o pp,
    fun C proof => NonNegative.verify_concludes o pp C proof hcfg,
    fun C a b proof => Interval.verify_concludes o pp C a b proof hcfg,
    fun C proof e he hne h => NonNegative.verify_of_not_isUnit hcfg he hne ?_,
    fun C a b proof hC => Interval.verify_of_not_isUnit ((hunit C).mp hC) a b proof⟩
  simpa only [hunit] using h

end

open Unlimited in
/-- An element that shares a factor with the modulus, among the commitments to the roots, as the
commitment to the value, and as the commitment of an interval; and a zero-knowledge proof made of
negative integers and non-units, which is judged all the same. -/
theorem verifiers_total_smallGroup :
    NonNegative.verify parityOracles leastSettings smallGroup 16
        ⟨[4, 1, -94, 9], [7], [0, -3, 1081, 2], [-5, 5, 0, 1], -12⟩ = .ok false ∧
      NonNegative.verify parityOracles leastSettings smallGroup (-23)
        ⟨[4, 1, 9, 9], [7], [0, -3, 1081, 2], [-5, 5, 0, 1], -12⟩ = .ok false ∧
      Interval.verify parityOracles leastSettings smallGroup 47 (-3) 8
        ⟨⟨[0], [], [1, 2], [], 3⟩, ⟨[], [1], [], [-1], 0⟩⟩ = .ok false ∧
      ∃ b, ZKPoKE.verify parityOracles smallGroup (-46) 0 ⟨-1, 0, 2162, -5, 23, 1, 2⟩ = .ok b := by
  obtain ⟨_, _, hzkpoke, _, _, hnonneg, hinterval⟩ :=
    verifiers_total parityOracles leastSettings smallGroup (by decide)
  have hl : Challenge.zkpoke parityOracles smallGroup.G smallGroup.H smallGroup.N (-46) 0 (-1 : Int)
      (0 : Int) (2162 : Int) = .ok (3, 5) := rfl
  refine ⟨hnonneg 16 _ 1 (toOption_eq_some.mp (by decide +kernel)) one_ne_zero
      (.inr ⟨-94, by decide, by decide⟩),
    hnonneg (-23) _ 1 (toOption_eq_some.mp (by decide +kernel)) one_ne_zero (.inl (by decide)),
    (hinterval 47 (-3) 8 _ (by decide)).trans
      (if_pos (.inr ⟨writable_off 47, writable_off smallGroup.N⟩)),
    (hzkpoke (-46) 0 _).of_ok hl⟩

end HiddenOrder
