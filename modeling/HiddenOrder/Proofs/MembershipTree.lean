import HiddenOrder.Accumulator.Tree
import HiddenOrder.Proofs.Membership

/-!
# Every strategy of the proof tree computes the same proofs

The node of a range carries the base raised to the product of all numbers *outside* the range.
That invariant is the content of `rangeNode`, and it is the only fact the strategies share:
splitting keeps it (**`split_rangeNode`**), and settling a short range writes the proofs of exactly
its own positions (**`settle_rangeNode`**).  What a strategy leaves behind is described by `fill` —
the proofs of some positions written, the others untouched — and fills of different ranges can be
made in any order, so depth first, forked and breadth first come to the same list:

* **`prove_rangeNode`**, **`fork_rangeNode`**, **`proveQueue_rangeNodes`**.
* **`membership_proofs_agree`** — all four strategies, on a whole list.
-/

namespace HiddenOrder

namespace TreeNode

variable {base N : Int} {reps : List Int}

/-! ## Products inside and outside a range -/

/-- The product of the numbers in a range. -/
def within (reps : List Int) (l r : Nat) : Int := ((reps.take r).drop l).prod

/-- The product of the numbers before and after a range. -/
def outside (reps : List Int) (l r : Nat) : Int := (reps.take l).prod * (reps.drop r).prod

/-- What is outside the left half is what is outside the whole and what is in the right half. -/
lemma outside_left (reps : List Int) {l m r : Nat} (hmr : m ≤ r) :
    outside reps l r * within reps m r = outside reps l m := by
  have hdrop : reps.drop r = (reps.drop m).drop (r - m) := by
    rw [List.drop_drop, Nat.add_sub_cancel' hmr]
  have hafter : within reps m r * (reps.drop r).prod = (reps.drop m).prod := by
    rw [within, List.drop_take, hdrop, List.prod_take_mul_prod_drop]
  rw [outside, outside, ← hafter]
  ring

lemma outside_right (reps : List Int) {l m r : Nat} (hlm : l ≤ m) :
    outside reps l r * within reps l m = outside reps m r := by
  have htake : reps.take l = (reps.take m).take l := by
    rw [List.take_take, min_eq_left hlm]
  have hbefore : (reps.take l).prod * within reps l m = (reps.take m).prod := by
    rw [within, htake, List.prod_take_mul_prod_drop]
  rw [outside, outside, ← hbefore]
  ring

lemma within_single {i : Nat} (hi : i < reps.length) : within reps i (i + 1) = repAt reps i := by
  rw [within, repAt, List.drop_take, Nat.add_sub_cancel_left, List.drop_eq_getElem_cons hi,
    List.getD_eq_getElem?_getD, List.getElem?_eq_getElem hi, List.take_succ_cons, List.take_zero,
    List.prod_singleton, Option.getD_some]

lemma outside_single (reps : List Int) (i : Nat) :
    outside reps i (i + 1) = productOfOthers reps i := by
  rw [outside, productOfOthers, List.eraseIdx_eq_take_drop_succ, List.prod_append]

lemma within_pos (hreps : ∀ e ∈ reps, 0 < e) (l r : Nat) : 0 < within reps l r :=
  prod_pos fun e he => hreps e (List.mem_of_mem_take (List.mem_of_mem_drop he))

lemma outside_pos (hreps : ∀ e ∈ reps, 0 < e) (l r : Nat) : 0 < outside reps l r :=
  mul_pos (prod_pos fun e he => hreps e (List.mem_of_mem_take he))
    (prod_pos fun e he => hreps e (List.mem_of_mem_drop he))

/-! ## Nodes and what they carry -/

/-- The node of a range, with the base that it has to carry. -/
def rangeNode (base N : Int) (reps : List Int) (l r : Nat) : TreeNode :=
  ⟨l, r, canonical ((base : Residue N) ^ (outside reps l r).toNat)⟩

@[simp]
lemma left_rangeNode (l r : Nat) : (rangeNode base N reps l r).left = l := rfl

@[simp]
lemma right_rangeNode (l r : Nat) : (rangeNode base N reps l r).right = r := rfl

@[simp]
lemma mid_rangeNode (l r : Nat) : (rangeNode base N reps l r).mid = (l + r) / 2 := rfl

@[simp]
lemma length_rangeNode (l r : Nat) : (rangeNode base N reps l r).length = r - l := rfl

lemma pow_rangeNode [DigitLimit] (hN : 2 ≤ N) (hreps : ∀ e ∈ reps, 0 < e) (l r : Nat) {x : Int}
    (hx : 0 < x) :
    Modular.pow (rangeNode base N reps l r).base x N
      = .ok (canonical ((base : Residue N) ^ (outside reps l r * x).toNat)) := by
  rw [rangeNode, Modular.pow_of_nonneg hN _ hx.le, cast_canonical hN, ← pow_mul,
    Int.toNat_mul (outside_pos hreps l r).le hx.le]

/-- **Splitting keeps the invariant**: the halves of a range carry what their ranges call for. -/
theorem split_rangeNode [DigitLimit] (hN : 2 ≤ N) (hreps : ∀ e ∈ reps, 0 < e) {l r : Nat}
    (hlr : l ≤ r) :
    split (rangeNode base N reps l r) reps N
      = .ok (rangeNode base N reps l ((l + r) / 2), rangeNode base N reps ((l + r) / 2) r) := by
  have hleft : absorb (rangeNode base N reps l r).base reps ((l + r) / 2) r N
      = .ok (rangeNode base N reps l ((l + r) / 2)).base := by
    rw [absorb, treeProduct_eq]
    refine (pow_rangeNode hN hreps l r (within_pos hreps _ _)).trans ?_
    rw [outside_left reps (by omega), rangeNode]
  have hright : absorb (rangeNode base N reps l r).base reps l ((l + r) / 2) N
      = .ok (rangeNode base N reps ((l + r) / 2) r).base := by
    rw [absorb, treeProduct_eq]
    refine (pow_rangeNode hN hreps l r (within_pos hreps _ _)).trans ?_
    rw [outside_right reps (by omega), rangeNode]
  rw [split, mid_rangeNode, left_rangeNode, right_rangeNode, hleft, ok_bind, hright, ok_bind]
  rfl

/-! ## Proofs written into their places -/

/-- The proofs of the positions in `P` written into their places, the rest left as it is. -/
def fill (base N : Int) (reps : List Int) (P : Nat → Bool) (proofs : List Int) : List Int :=
  proofs.mapIdx fun i w => if P i then membershipProof base N reps i else w

/-- Whether a position lies in a range. -/
def covers (l r : Nat) (i : Nat) : Bool := decide (l ≤ i) && decide (i < r)

lemma fill_fill (P Q : Nat → Bool) (proofs : List Int) :
    fill base N reps P (fill base N reps Q proofs)
      = fill base N reps (fun i => P i || Q i) proofs := by
  rw [fill, fill, fill, List.mapIdx_mapIdx]
  congr 1
  funext i w
  by_cases hP : P i = true
  · simp [hP]
  · simp [hP]

lemma fill_congr {P Q : Nat → Bool} (h : ∀ i, P i = Q i) (proofs : List Int) :
    fill base N reps P proofs = fill base N reps Q proofs := by
  rw [funext h]

lemma fill_comm (P Q : Nat → Bool) (proofs : List Int) :
    fill base N reps P (fill base N reps Q proofs)
      = fill base N reps Q (fill base N reps P proofs) := by
  rw [fill_fill, fill_fill]
  exact fill_congr (fun i => Bool.or_comm _ _) proofs

lemma covers_halves {l m r : Nat} (hlm : l ≤ m) (hmr : m ≤ r) (i : Nat) :
    (covers m r i || covers l m i) = covers l r i := by
  simp only [covers, ← Bool.decide_and, ← Bool.decide_or]
  exact decide_eq_decide.mpr (by omega)

/-- The two halves of a range, one after the other, make up the range. -/
lemma fill_halves {l m r : Nat} (hlm : l ≤ m) (hmr : m ≤ r) (proofs : List Int) :
    fill base N reps (covers m r) (fill base N reps (covers l m) proofs)
      = fill base N reps (covers l r) proofs := by
  rw [fill_fill]
  exact fill_congr (covers_halves hlm hmr) proofs

lemma set_eq_fill (proofs : List Int) (i : Nat) :
    proofs.set i (membershipProof base N reps i)
      = fill base N reps (covers i (i + 1)) proofs := by
  refine List.ext_getElem? fun j => ?_
  rw [fill, List.getElem?_mapIdx, List.getElem?_set]
  by_cases hij : i = j
  · subst hij
    rw [if_pos rfl]
    by_cases hi : i < proofs.length
    · rw [if_pos hi, List.getElem?_eq_getElem hi]
      simp [covers]
    · rw [if_neg hi, List.getElem?_eq_none (not_lt.mp hi)]
      rfl
  · have hcov : covers i (i + 1) j = false := by
      simp only [covers, ← Bool.decide_and]
      exact decide_eq_false (by omega)
    simp [hij, hcov]

/-- **Settling writes the proofs of the range** and nothing else. -/
theorem settle_rangeNode [DigitLimit] (hN : 2 ≤ N) (hreps : ∀ e ∈ reps, 0 < e) {l r : Nat}
    (hlr : l < r) (hr : r ≤ reps.length) (hshort : r - l ≤ 2) (proofs : List Int) :
    settle (rangeNode base N reps l r) reps N proofs
      = .ok (fill base N reps (covers l r) proofs) := by
  have hproof : ∀ i, canonical ((base : Residue N) ^ (outside reps i (i + 1)).toNat)
      = membershipProof base N reps i := fun i => by rw [outside_single, membershipProof]
  obtain h | h : r = l + 1 ∨ r = l + 2 := by omega
  · subst h
    rw [settle, length_rangeNode, if_pos (by omega), ← set_eq_fill, ← hproof]
    rfl
  · subst h
    have hfirst : Modular.pow (rangeNode base N reps l (l + 2)).base (repAt reps (l + 1)) N
        = .ok (membershipProof base N reps l) := by
      rw [← within_single (show l + 1 < reps.length by omega),
        pow_rangeNode hN hreps l (l + 2) (within_pos hreps (l + 1) (l + 1 + 1)),
        outside_left reps (show l + 1 ≤ l + 2 by omega), hproof]
    have hsecond : Modular.pow (rangeNode base N reps l (l + 2)).base (repAt reps l) N
        = .ok (membershipProof base N reps (l + 1)) := by
      rw [← within_single (show l < reps.length by omega),
        pow_rangeNode hN hreps l (l + 2) (within_pos hreps l (l + 1)),
        outside_right reps (show l ≤ l + 1 by omega), hproof]
    rw [settle, length_rangeNode, if_neg (by omega), left_rangeNode, hfirst, ok_bind, hsecond,
      ok_bind, set_eq_fill, set_eq_fill, fill_halves (by omega) (by omega), pure_eq_ok]

/-! ## Depth first -/

lemma prove_of_short [DigitLimit] (node : TreeNode) (h : node.length ≤ 2) (proofs : List Int) :
    prove node reps N proofs = settle node reps N proofs := by
  rw [prove, dif_pos h]

/-- A long range is split, and its halves are worked off from left to right. -/
lemma prove_of_long [DigitLimit] (node : TreeNode) (h : ¬node.length ≤ 2) (proofs : List Int) :
    prove node reps N proofs
      = (split node reps N >>= fun halves =>
          prove halves.1 reps N proofs >>= prove halves.2 reps N) := by
  rw [prove, dif_neg h, split]
  cases absorb node.base reps node.mid node.right N with
  | error e => rfl
  | ok leftBase =>
      cases absorb node.base reps node.left node.mid N with
      | error e => rfl
      | ok rightBase => rfl

/-- **Depth first** writes the proofs of the range. -/
theorem prove_rangeNode [DigitLimit] (hN : 2 ≤ N) (hreps : ∀ e ∈ reps, 0 < e) {l r : Nat}
    (hlr : l < r) (hr : r ≤ reps.length) (proofs : List Int) :
    prove (rangeNode base N reps l r) reps N proofs
      = .ok (fill base N reps (covers l r) proofs) := by
  -- the induction is on the length of the range: the halves of a long range are shorter
  induction hlen : r - l using Nat.strong_induction_on generalizing l r proofs with
  | _ n ih =>
      subst hlen
      by_cases hshort : r - l ≤ 2
      · rw [prove_of_short (rangeNode base N reps l r) hshort,
          settle_rangeNode hN hreps hlr hr hshort]
      · rw [prove_of_long (rangeNode base N reps l r) hshort, split_rangeNode hN hreps hlr.le,
          ok_bind, ih ((l + r) / 2 - l) (by omega) (by omega) (by omega) proofs rfl, ok_bind,
          ih (r - (l + r) / 2) (by omega) (by omega) hr _ rfl, fill_halves (by omega) (by omega)]

/-! ## Forked -/

/-- **Forking** the topmost levels changes nothing: the right half comes first, and the two halves
have no position in common. -/
theorem fork_rangeNode [DigitLimit] (base : Int) (hN : 2 ≤ N) (hreps : ∀ e ∈ reps, 0 < e)
    (depth : Nat) {l r : Nat} (hlr : l < r) (hr : r ≤ reps.length) (proofs : List Int) :
    ∃ submitted, fork reps N depth (rangeNode base N reps l r) proofs
      = .ok (fill base N reps (covers l r) proofs, submitted) := by
  induction depth generalizing l r proofs with
  | zero =>
      rw [fork, prove_rangeNode hN hreps hlr hr, ok_bind, pure_eq_ok]
      exact ⟨0, rfl⟩
  | succ depth ih =>
      rw [fork, length_rangeNode]
      by_cases hshort : r - l ≤ 2
      · rw [if_pos hshort, prove_rangeNode hN hreps hlr hr, ok_bind, pure_eq_ok]
        exact ⟨0, rfl⟩
      · obtain ⟨n, hright⟩ := ih (l := (l + r) / 2) (r := r) (by omega) hr proofs
        obtain ⟨m, hleft⟩ := ih (l := l) (r := (l + r) / 2) (by omega) (by omega)
          (fill base N reps (covers ((l + r) / 2) r) proofs)
        refine ⟨m + n + 2, ?_⟩
        rw [if_neg hshort, split_rangeNode hN hreps hlr.le, ok_bind]
        simp only [hright, hleft, ok_bind, pure_eq_ok]
        rw [fill_comm, fill_halves (by omega) (by omega)]

/-! ## Breadth first -/

/-- Whether a position lies in one of some ranges. -/
def coversAny (ranges : List (Nat × Nat)) (i : Nat) : Bool :=
  ranges.any fun range => covers range.1 range.2 i

lemma fill_coversAny_nil (proofs : List Int) :
    fill base N reps (coversAny []) proofs = proofs := by
  refine List.ext_getElem? fun i => ?_
  rw [fill, List.getElem?_mapIdx]
  simp [coversAny]

/-- How many nodes the trees over some ranges have, at most: one less than twice the length of each
range. -/
def nodeCount (ranges : List (Nat × Nat)) : Nat :=
  (ranges.map fun range => 2 * (range.2 - range.1) - 1).sum

/-- The nodes of some ranges. -/
def rangeNodes (base N : Int) (reps : List Int) (ranges : List (Nat × Nat)) : List TreeNode :=
  ranges.map fun range => rangeNode base N reps range.1 range.2

/-- The halves of a pending range, at the end of the list, cover what the range covered. -/
lemma coversAny_halves {l m r : Nat} (hlm : l ≤ m) (hmr : m ≤ r) (rest : List (Nat × Nat))
    (i : Nat) : coversAny (rest ++ [(l, m), (m, r)]) i = coversAny ((l, r) :: rest) i := by
  rw [coversAny, coversAny, List.any_append, List.any_cons, List.any_cons, List.any_cons,
    List.any_nil, Bool.or_false, ← covers_halves hlm hmr, Bool.or_comm (covers l m i),
    Bool.or_comm]

/-- **Breadth first**, the pending ranges are all written when there are steps for all of their
nodes. -/
theorem proveQueue_rangeNodes [DigitLimit] (base : Int) (hN : 2 ≤ N) (hreps : ∀ e ∈ reps, 0 < e)
    (steps : Nat) (ranges : List (Nat × Nat))
    (hranges : ∀ range ∈ ranges, range.1 < range.2 ∧ range.2 ≤ reps.length)
    (hsteps : nodeCount ranges ≤ steps) (proofs : List Int) :
    proveQueue reps N steps (rangeNodes base N reps ranges) proofs
      = .ok (fill base N reps (coversAny ranges) proofs) := by
  induction steps generalizing ranges proofs with
  | zero =>
      cases ranges with
      | nil => rw [proveQueue, pure_eq_ok, fill_coversAny_nil]
      | cons range rest =>
          -- a range that is not empty has a node of its own
          have hrange := hranges range List.mem_cons_self
          rw [nodeCount, List.map_cons, List.sum_cons] at hsteps
          omega
  | succ steps ih =>
      cases ranges with
      | nil => rw [rangeNodes, List.map_nil, proveQueue, pure_eq_ok, fill_coversAny_nil]
      | cons range rest =>
          obtain ⟨l, r⟩ := range
          obtain ⟨hlr, hr⟩ := hranges (l, r) List.mem_cons_self
          have hrest : ∀ range ∈ rest, range.1 < range.2 ∧ range.2 ≤ reps.length :=
            fun range hmem => hranges range (List.mem_cons_of_mem _ hmem)
          rw [nodeCount, List.map_cons, List.sum_cons] at hsteps
          rw [rangeNodes, List.map_cons, proveQueue, length_rangeNode]
          by_cases hshort : r - l ≤ 2
          · rw [if_pos hshort, settle_rangeNode hN hreps hlr hr hshort, ok_bind]
            refine (ih rest hrest (by rw [nodeCount]; omega) _).trans ?_
            rw [fill_fill]
            exact congrArg _ (fill_congr (fun i => Bool.or_comm _ _) proofs)
          · have hhalves : ∀ range ∈ rest ++ [(l, (l + r) / 2), ((l + r) / 2, r)],
                range.1 < range.2 ∧ range.2 ≤ reps.length := by
              intro range hmem
              rcases List.mem_append.mp hmem with hmem | hmem
              · exact hrest range hmem
              · rcases List.mem_pair.mp hmem with rfl | rfl
                · exact ⟨by omega, by omega⟩
                · exact ⟨by omega, hr⟩
            have hcount : nodeCount (rest ++ [(l, (l + r) / 2), ((l + r) / 2, r)]) ≤ steps := by
              rw [nodeCount, List.map_append, List.sum_append, List.map_cons, List.map_cons,
                List.map_nil, List.sum_cons, List.sum_cons, List.sum_nil]
              omega
            rw [if_neg hshort, split_rangeNode hN hreps hlr.le, ok_bind]
            have hqueue := ih _ hhalves hcount proofs
            rw [rangeNodes, List.map_append] at hqueue
            refine hqueue.trans ?_
            exact congrArg _
              (fill_congr (coversAny_halves (by omega) (by omega) rest) proofs)

/-! ## The root of the tree -/

/-- The root carries the base itself, since nothing is outside the whole list. -/
lemma rootNode_eq (hN : 2 ≤ N) (hbase : 0 < base ∧ base < N) :
    rootNode base reps = rangeNode base N reps 0 reps.length := by
  have hone : outside reps 0 reps.length = 1 := by
    rw [outside, List.take_zero, List.drop_length, List.prod_nil, one_mul]
  rw [rootNode, rangeNode, hone, Int.toNat_one, pow_one,
    canonical_cast_of_lt hN hbase.1.le hbase.2]

/-- Every position of a blank list is written from the root. -/
lemma fill_blankProofs :
    fill base N reps (covers 0 reps.length) (blankProofs reps)
      = (List.range reps.length).map (membershipProof base N reps) := by
  refine List.ext_getElem? fun i => ?_
  rw [fill, List.getElem?_mapIdx, blankProofs, List.getElem?_map]
  by_cases hi : i < reps.length
  · simp [covers, hi]
  · simp [hi]

end TreeNode

/-! ## The four strategies on a whole list -/

section Strategies

variable {base N : Int} {reps : List Int}

lemma reps_pos_length (h : ¬reps.isEmpty) : 0 < reps.length :=
  List.length_pos_of_ne_nil fun hnil => h (by rw [hnil]; rfl)

lemma proveMembership_ok [DigitLimit] (hN : 2 ≤ N) (hbase : 0 < base ∧ base < N)
    (hreps : ∀ e ∈ reps, 0 < e) :
    proveMembership base N reps
      = .ok ((List.range reps.length).map (membershipProof base N reps)) := by
  rw [proveMembership, validate_ok hN hbase hreps, ok_bind]
  by_cases hempty : reps.isEmpty = true
  · rw [if_pos hempty, List.isEmpty_iff.mp hempty]
    rfl
  · rw [if_neg hempty, TreeNode.rootNode_eq hN hbase,
      TreeNode.prove_rangeNode hN hreps (reps_pos_length hempty) le_rfl, TreeNode.fill_blankProofs]

lemma proveMembershipForked_ok [DigitLimit] (hN : 2 ≤ N) (hbase : 0 < base ∧ base < N)
    (hreps : ∀ e ∈ reps, 0 < e) {budget : Int} (hbudget : 0 ≤ budget) :
    proveMembershipForked base N reps budget
      = .ok ((List.range reps.length).map (membershipProof base N reps)) := by
  rw [proveMembershipForked, checkBudget, if_neg (not_lt.mpr hbudget), ok_bind,
    validate_ok hN hbase hreps, ok_bind]
  by_cases hempty : reps.isEmpty = true
  · rw [if_pos hempty, List.isEmpty_iff.mp hempty]
    rfl
  · obtain ⟨submitted, hfork⟩ := TreeNode.fork_rangeNode base hN hreps budget.toNat
      (reps_pos_length hempty) le_rfl (blankProofs reps)
    rw [if_neg hempty, TreeNode.rootNode_eq hN hbase, hfork, ok_bind, TreeNode.fill_blankProofs]
    rfl

lemma proveMembershipQueued_ok [DigitLimit] (hN : 2 ≤ N) (hbase : 0 < base ∧ base < N)
    (hreps : ∀ e ∈ reps, 0 < e) :
    proveMembershipQueued base N reps
      = .ok ((List.range reps.length).map (membershipProof base N reps)) := by
  rw [proveMembershipQueued, validate_ok hN hbase hreps, ok_bind]
  by_cases hempty : reps.isEmpty = true
  · rw [if_pos hempty, List.isEmpty_iff.mp hempty]
    rfl
  · have hpos := reps_pos_length hempty
    have hqueue := TreeNode.proveQueue_rangeNodes base hN hreps (2 * reps.length)
      [(0, reps.length)] (by simpa using hpos) (by simp [TreeNode.nodeCount]) (blankProofs reps)
    rw [if_neg hempty, TreeNode.rootNode_eq hN hbase]
    refine hqueue.trans ?_
    rw [← TreeNode.fill_blankProofs]
    exact congrArg _ (TreeNode.fill_congr (fun i => Bool.or_false _) _)

end Strategies

/-- **All four strategies agree.**  Depth first, with any number of levels forked off, breadth
first and one by one, they return the same list: for every number the base to the power of the
product of all other numbers. -/
theorem membership_proofs_agree [DigitLimit] {base N : Int} {reps : List Int} {budget : Int}
    (hN : 2 ≤ N) (hbase : 0 < base ∧ base < N) (hreps : ∀ e ∈ reps, 0 < e) (hbudget : 0 ≤ budget) :
    ∃ proofs : List Int,
      proveMembership base N reps = .ok proofs ∧
      proveMembershipForked base N reps budget = .ok proofs ∧
      proveMembershipQueued base N reps = .ok proofs ∧
      proveNaive base N reps = .ok proofs ∧
      proofs.length = reps.length ∧
      ∀ i : Fin reps.length,
        proofs[i.val]? = some (base ^ (∏ j ∈ Finset.univ.erase i, reps[j]).toNat % N) := by
  refine ⟨(List.range reps.length).map (membershipProof base N reps),
    proveMembership_ok hN hbase hreps, proveMembershipForked_ok hN hbase hreps hbudget,
    proveMembershipQueued_ok hN hbase hreps, proveNaive_ok hN hbase hreps, ?_, ?_⟩
  · rw [List.length_map, List.length_range]
  · intro i
    rw [List.getElem?_map, List.getElem?_range i.isLt, Option.map_some, membershipProof_eq hN,
      productOfOthers_eq hreps]

open Unlimited in
/-- Five numbers, one of them twice: a length at which the halves of the tree differ. -/
theorem membership_proofs_agree_five :
    ((2 : Int) ≤ 35 ∧ (0 : Int) < 2 ∧ (∀ e ∈ ([3, 5, 3, 11, 7] : List Int), 0 < e)) ∧
    ∃ proofs : List Int,
      proveMembership 2 35 [3, 5, 3, 11, 7] = .ok proofs ∧
      proveMembershipForked 2 35 [3, 5, 3, 11, 7] 2 = .ok proofs ∧
      proveMembershipQueued 2 35 [3, 5, 3, 11, 7] = .ok proofs ∧
      proveNaive 2 35 [3, 5, 3, 11, 7] = .ok proofs ∧
      proofs.length = 5 ∧
      ∀ i : Fin 5, proofs[i.val]?
        = some (2 ^ (∏ j ∈ Finset.univ.erase i, ([3, 5, 3, 11, 7] : List Int)[j]).toNat % 35) :=
  ⟨by decide, @membership_proofs_agree _ 2 35 [3, 5, 3, 11, 7] 2 (by decide) (by decide) (by decide)
    (by decide)⟩

end HiddenOrder
