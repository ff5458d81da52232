import HiddenOrder.Proofs.MembershipTree
import Mathlib.Order.Interval.Finset.Nat
import Mathlib.Order.Interval.Multiset

/-!
# The nodes of the proof tree in any order

Subtrees that run concurrently interleave, and the three strategies are three orders out of many.
Here nobody chooses: at every stage any pending node may be taken, a short one is settled and a long
one gives way to its halves.  Two invariants carry the result.  The *shape* of a stage needs nothing
of the base, the modulus or the numbers: the positions written so far and the ranges still pending
tile the list, each position once (`Tiling`).  The *values* need what is checked before a list is
proved: pending nodes carry what their ranges call for, and what is written is the proof of its
position (`Carried`).

* `Stage`, `Stage.take`, `Run` — a stage, the step that takes one node, and the stages that an order
  of nodes leads to.
* **`Tiling.take`**, **`Carried.take`** — one step keeps the invariants; **`work_take`** — and leaves
  less to do.
* **`Run.of_prove`**, **`Run.of_fork`**, **`Run.of_proveQueue`** — depth first, forked and breadth
  first are orders like others.
* **`any_order_proves`** — every order ends, stays within the ranges, writes each position once and
  leaves the proofs that depth first leaves.
-/

namespace HiddenOrder

namespace TreeNode

variable {base N : Int} {reps : List Int}

/-! ## The assignments of a short range -/

/-- The places that settling a short range writes to, with what it writes there, in order. -/
def writes [DigitLimit] (node : TreeNode) (reps : List Int) (N : Int) :
    Except Error (List (Nat × Int)) :=
  if node.length = 1 then pure [(node.left, node.base)]
  else do
    let first ← Modular.pow node.base (repAt reps (node.left + 1)) N
    let second ← Modular.pow node.base (repAt reps node.left) N
    pure [(node.left, first), (node.left + 1, second)]

def assign (proofs : List Int) (ws : List (Nat × Int)) : List Int :=
  ws.foldl (fun proofs w => proofs.set w.1 w.2) proofs

/-- **Settling is making its assignments**, and nothing else happens to the list. -/
theorem settle_eq_assign [DigitLimit] (node : TreeNode) (proofs : List Int) :
    settle node reps N proofs = (node.writes reps N >>= fun ws => pure (assign proofs ws)) := by
  rw [settle, writes]
  by_cases hone : node.length = 1
  · rw [if_pos hone, if_pos hone]
    rfl
  · rw [if_neg hone, if_neg hone]
    cases Modular.pow node.base (repAt reps (node.left + 1)) N with
    | error e => rfl
    | ok first =>
        cases Modular.pow node.base (repAt reps node.left) N with
        | error e => rfl
        | ok second => rfl

def positions (node : TreeNode) : Multiset Nat := Multiset.Ico node.left node.right

/-- **The assignments of a short range** go to its positions, one to each. -/
theorem places_writes [DigitLimit] {node : TreeNode} {ws : List (Nat × Int)}
    (hrange : node.left < node.right) (hshort : node.length ≤ 2)
    (hws : node.writes reps N = .ok ws) :
    ((ws.map Prod.fst : List Nat) : Multiset Nat) = node.positions := by
  rw [length] at hshort
  rw [writes, length] at hws
  by_cases hone : node.right - node.left = 1
  · rw [if_pos hone] at hws
    obtain rfl := Except.ok.inj hws
    rw [positions, show node.right = node.left + 1 by omega, Multiset.Ico, Nat.Ico_succ_singleton]
    rfl
  · rw [if_neg hone] at hws
    obtain ⟨first, _, hws⟩ := bind_eq_ok.mp hws
    obtain ⟨second, _, hws⟩ := bind_eq_ok.mp hws
    obtain rfl := Except.ok.inj hws
    rw [positions, show node.right = node.left + 1 + 1 by omega,
      ← Multiset.Ico_add_Ico_eq_Ico (Nat.le_succ _) (Nat.le_succ _), Multiset.Ico, Multiset.Ico,
      Nat.Ico_succ_singleton, Nat.Ico_succ_singleton]
    rfl

lemma length_assign (proofs : List Int) (ws : List (Nat × Int)) :
    (assign proofs ws).length = proofs.length := by
  induction ws generalizing proofs with
  | nil => rfl
  | cons w ws ih => rw [assign, List.foldl_cons, ← assign, ih, List.length_set]

lemma getElem?_assign {i : Nat} {ws : List (Nat × Int)} (hi : i ∉ ws.map Prod.fst)
    (proofs : List Int) : (assign proofs ws)[i]? = proofs[i]? := by
  induction ws generalizing proofs with
  | nil => rfl
  | cons w ws ih =>
      rw [List.map_cons, List.mem_cons, not_or] at hi
      rw [assign, List.foldl_cons, ← assign, ih hi.2, List.getElem?_set_ne (Ne.symm hi.1)]

/-! ## The halves of a long range -/

lemma split_ranges [DigitLimit] {node left right : TreeNode}
    (h : node.split reps N = .ok (left, right)) :
    left.left = node.left ∧ left.right = node.mid ∧ right.left = node.mid ∧
      right.right = node.right := by
  rw [split] at h
  obtain ⟨leftBase, _, h⟩ := bind_eq_ok.mp h
  obtain ⟨rightBase, _, h⟩ := bind_eq_ok.mp h
  obtain ⟨rfl, rfl⟩ := Prod.mk.inj (Except.ok.inj h)
  exact ⟨rfl, rfl, rfl, rfl⟩

lemma positions_halves [DigitLimit] {node left right : TreeNode} (hlong : ¬node.length ≤ 2)
    (h : node.split reps N = .ok (left, right)) :
    left.positions + right.positions = node.positions := by
  obtain ⟨h₁, h₂, h₃, h₄⟩ := split_ranges h
  rw [length] at hlong
  rw [positions, positions, h₁, h₂, h₃, h₄, mid, positions]
  exact Multiset.Ico_add_Ico_eq_Ico (by omega) (by omega)

end TreeNode

/-! ## Stages -/

/-- A stage of the work on a tree: the nodes that are pending, in no order, the list of proofs, and
the positions that have been written, each as often as it has been. -/
structure Stage where
  /-- The pending nodes. -/
  pending : Multiset TreeNode
  /-- The list of proofs. -/
  proofs : List Int
  /-- The positions written so far. -/
  written : Multiset Nat
deriving DecidableEq

namespace Stage

/-- The stage at which only the root is pending. -/
def start (base : Int) (reps : List Int) : Stage := ⟨{rootNode base reps}, blankProofs reps, 0⟩

/-- The stage after a pending node has been taken: settled if it is short, else replaced by its
halves. -/
def take [DigitLimit] (s : Stage) (reps : List Int) (N : Int) (node : TreeNode) :
    Except Error Stage :=
  if node.length ≤ 2 then do
    let ws ← node.writes reps N
    let proofs ← node.settle reps N s.proofs
    pure ⟨s.pending.erase node, proofs, s.written + (ws.map Prod.fst : List Nat)⟩
  else do
    let (left, right) ← node.split reps N
    pure ⟨left ::ₘ right ::ₘ s.pending.erase node, s.proofs, s.written⟩

variable {base N : Int} {reps : List Int} {s t : Stage} {node : TreeNode}

/-- A short node is gone afterwards, and its assignments are made. -/
lemma take_of_short [DigitLimit] (hshort : node.length ≤ 2) :
    s.take reps N node = .ok t ↔ ∃ ws, node.writes reps N = .ok ws ∧
      t = ⟨s.pending.erase node, TreeNode.assign s.proofs ws,
        s.written + (ws.map Prod.fst : List Nat)⟩ := by
  rw [take, if_pos hshort, TreeNode.settle_eq_assign]
  cases node.writes reps N with
  | error e => simp
  | ok ws => simp [eq_comm]

/-- A long node has its halves in its place, and nothing is written. -/
lemma take_of_long [DigitLimit] (hlong : ¬node.length ≤ 2) :
    s.take reps N node = .ok t ↔ ∃ left right, node.split reps N = .ok (left, right) ∧
      t = ⟨left ::ₘ right ::ₘ s.pending.erase node, s.proofs, s.written⟩ := by
  rw [take, if_neg hlong]
  cases node.split reps N with
  | error e => simp
  | ok halves =>
      obtain ⟨left, right⟩ := halves
      simp [eq_comm]

variable {rest : Multiset TreeNode} {proofs : List Int} {written : Multiset Nat}

lemma take_cons_of_short [DigitLimit] {ws : List (Nat × Int)} (hshort : node.length ≤ 2)
    (hws : node.writes reps N = .ok ws) :
    take ⟨node ::ₘ rest, proofs, written⟩ reps N node
      = .ok ⟨rest, TreeNode.assign proofs ws, written + (ws.map Prod.fst : List Nat)⟩ :=
  (take_of_short hshort).mpr ⟨ws, hws, by rw [Multiset.erase_cons_head]⟩

lemma take_cons_of_long [DigitLimit] {left right : TreeNode} (hlong : ¬node.length ≤ 2)
    (hsplit : node.split reps N = .ok (left, right)) :
    take ⟨node ::ₘ rest, proofs, written⟩ reps N node
      = .ok ⟨left ::ₘ right ::ₘ rest, proofs, written⟩ :=
  (take_of_long hlong).mpr ⟨left, right, hsplit, by rw [Multiset.erase_cons_head]⟩

/-! ### The shape of a stage -/

/-- The pending ranges are not empty, and with the positions written so far they make up the list,
each position once. -/
structure Tiling (n : Nat) (s : Stage) : Prop where
  nonempty : ∀ node ∈ s.pending, node.left < node.right
  tiles : s.written + s.pending.bind TreeNode.positions = Multiset.range n

namespace Tiling

variable {n : Nat}

lemma start (base : Int) (hne : reps ≠ []) : Tiling reps.length (start base reps) where
  nonempty node hnode := by
    rw [Multiset.mem_singleton.mp hnode]
    exact List.length_pos_of_ne_nil hne
  tiles := by
    rw [Stage.start, zero_add, Multiset.singleton_bind, TreeNode.positions, rootNode, Multiset.Ico,
      ← Finset.range_eq_Ico, Finset.range_val]

lemma nodup_written (h : Tiling n s) : s.written.Nodup := by
  have hnodup := Multiset.nodup_range n
  rw [← h.tiles] at hnodup
  exact (Multiset.nodup_add.mp hnodup).1

lemma lt_of_written (h : Tiling n s) {i : Nat} (hi : i ∈ s.written) : i < n := by
  rw [← Multiset.mem_range, ← h.tiles]
  exact Multiset.mem_add.mpr (.inl hi)

lemma right_le (h : Tiling n s) (hnode : node ∈ s.pending) : node.right ≤ n := by
  have hrange := h.nonempty node hnode
  have hlast : node.right - 1 ∈ Multiset.range n := by
    rw [← h.tiles]
    refine Multiset.mem_add.mpr (.inr (Multiset.mem_bind.mpr ⟨node, hnode, ?_⟩))
    exact Multiset.mem_Ico.mpr ⟨by omega, by omega⟩
  rw [Multiset.mem_range] at hlast
  omega

/-- The node that is taken, apart from the other pending ones. -/
lemma tiles_erase (h : Tiling n s) (hnode : node ∈ s.pending) :
    s.written + (node.positions + (s.pending.erase node).bind TreeNode.positions)
      = Multiset.range n := by
  rw [← Multiset.cons_bind, Multiset.cons_erase hnode, h.tiles]

/-- **One step keeps the tiling**: a short range moves from pending to written, and a long one is
cut in two. -/
theorem take [DigitLimit] (h : Tiling n s) (hnode : node ∈ s.pending)
    (ht : s.take reps N node = .ok t) : Tiling n t := by
  have hrange := h.nonempty node hnode
  by_cases hshort : node.length ≤ 2
  · obtain ⟨ws, hws, rfl⟩ := (take_of_short hshort).mp ht
    refine ⟨fun other hother => h.nonempty other (Multiset.mem_of_mem_erase hother), ?_⟩
    rw [TreeNode.places_writes hrange hshort hws, add_assoc]
    exact h.tiles_erase hnode
  · obtain ⟨left, right, hsplit, rfl⟩ := (take_of_long hshort).mp ht
    obtain ⟨h₁, h₂, h₃, h₄⟩ := TreeNode.split_ranges hsplit
    rw [TreeNode.mid] at h₂ h₃
    have hlong : ¬node.right - node.left ≤ 2 := hshort
    refine ⟨fun other hother => ?_, ?_⟩
    · rcases Multiset.mem_cons.mp hother with rfl | hother
      · omega
      · rcases Multiset.mem_cons.mp hother with rfl | hother
        · omega
        · exact h.nonempty other (Multiset.mem_of_mem_erase hother)
    · rw [Multiset.cons_bind, Multiset.cons_bind, ← add_assoc left.positions,
        TreeNode.positions_halves hshort hsplit]
      exact h.tiles_erase hnode

end Tiling

/-! ### What is left to do -/

/-- How many nodes the trees below the pending nodes have, at most. -/
def work (s : Stage) : Nat := (s.pending.map fun node => 2 * node.length - 1).sum

/-- **One step leaves less to do.** -/
theorem work_take [DigitLimit] (hrange : node.left < node.right) (hnode : node ∈ s.pending)
    (ht : s.take reps N node = .ok t) : t.work + 1 ≤ s.work := by
  have hwork : s.work
      = 2 * node.length - 1 + ((s.pending.erase node).map fun node => 2 * node.length - 1).sum := by
    rw [work, ← Multiset.sum_cons, ← Multiset.map_cons (fun node => 2 * TreeNode.length node - 1),
      Multiset.cons_erase hnode]
  by_cases hshort : node.length ≤ 2
  · obtain ⟨ws, _, rfl⟩ := (take_of_short hshort).mp ht
    have hpos : 0 < node.length := Nat.sub_pos_of_lt hrange
    rw [hwork, work]
    dsimp only
    omega
  · obtain ⟨left, right, hsplit, rfl⟩ := (take_of_long hshort).mp ht
    obtain ⟨h₁, h₂, h₃, h₄⟩ := TreeNode.split_ranges hsplit
    rw [TreeNode.mid] at h₂ h₃
    rw [TreeNode.length] at hshort
    rw [hwork, work, Multiset.map_cons, Multiset.map_cons, Multiset.sum_cons, Multiset.sum_cons,
      TreeNode.length, TreeNode.length, TreeNode.length]
    omega

/-! ### Steps stay within their ranges -/

/-- Between two stages only positions of the node's range have been written, and everything outside
it has stayed as it was. -/
structure Within (node : TreeNode) (s t : Stage) : Prop where
  written : ∃ places : Multiset Nat, t.written = s.written + places ∧
    ∀ i ∈ places, node.left ≤ i ∧ i < node.right
  length : t.proofs.length = s.proofs.length
  outside : ∀ i, ¬(node.left ≤ i ∧ i < node.right) → t.proofs[i]? = s.proofs[i]?

/-- **A step writes within the range** of the node that it takes. -/
theorem within_take [DigitLimit] (hrange : node.left < node.right)
    (ht : s.take reps N node = .ok t) : Within node s t := by
  by_cases hshort : node.length ≤ 2
  · obtain ⟨ws, hws, rfl⟩ := (take_of_short hshort).mp ht
    have hplaces := TreeNode.places_writes hrange hshort hws
    have hmem : ∀ i, i ∈ ws.map Prod.fst ↔ node.left ≤ i ∧ i < node.right := fun i => by
      rw [← Multiset.mem_coe, hplaces, TreeNode.positions, Multiset.mem_Ico]
    exact ⟨⟨_, rfl, fun i hi => (hmem i).mp hi⟩, TreeNode.length_assign _ _,
      fun i hi => TreeNode.getElem?_assign (fun hws => hi ((hmem i).mp hws)) _⟩
  · obtain ⟨left, right, _, rfl⟩ := (take_of_long hshort).mp ht
    exact ⟨⟨0, (add_zero _).symm, fun i hi => absurd hi (Multiset.notMem_zero i)⟩, rfl,
      fun i _ => rfl⟩

/-! ### The values of a stage -/

/-- Pending nodes carry what their ranges call for, and the proofs of the positions written so far
are in their places. -/
structure Carried (base N : Int) (reps : List Int) (s : Stage) : Prop where
  carries : ∀ node ∈ s.pending, node = TreeNode.rangeNode base N reps node.left node.right
  filled : s.proofs = TreeNode.fill base N reps (fun i => decide (i ∈ s.written)) (blankProofs reps)

namespace Carried

lemma start (hN : 2 ≤ N) (hbase : 0 < base ∧ base < N) :
    Carried base N reps (start base reps) where
  carries node hnode := by
    rw [Multiset.mem_singleton.mp hnode, TreeNode.rootNode_eq hN hbase, TreeNode.left_rangeNode,
      TreeNode.right_rangeNode]
  filled :=
    (TreeNode.fill_coversAny_nil (blankProofs reps)).symm.trans
      (TreeNode.fill_congr (fun i => (decide_eq_false (Multiset.notMem_zero i)).symm) _)

/-- **Any pending node can be taken, and the step keeps what is carried.** -/
theorem take [DigitLimit] (hN : 2 ≤ N) (hreps : ∀ e ∈ reps, 0 < e) (h : Carried base N reps s)
    (htiling : Tiling reps.length s) (hnode : node ∈ s.pending) :
    ∃ t, s.take reps N node = .ok t ∧ Carried base N reps t := by
  have hrange := htiling.nonempty node hnode
  have hcarries : ∀ other ∈ s.pending.erase node,
      other = TreeNode.rangeNode base N reps other.left other.right :=
    fun other hother => h.carries other (Multiset.mem_of_mem_erase hother)
  by_cases hshort : node.length ≤ 2
  · have hsettle : node.settle reps N s.proofs
        = .ok (TreeNode.fill base N reps (TreeNode.covers node.left node.right) s.proofs) := by
      rw [h.carries node hnode]
      exact TreeNode.settle_rangeNode hN hreps hrange (htiling.right_le hnode) hshort s.proofs
    have hassign := hsettle
    rw [TreeNode.settle_eq_assign] at hassign
    obtain ⟨ws, hws, hassign⟩ := bind_eq_ok.mp hassign
    refine ⟨_, (take_of_short hshort).mpr ⟨ws, hws, rfl⟩, hcarries, ?_⟩
    -- what is written now is what was written before or lies in the range
    rw [Except.ok.inj hassign, h.filled, TreeNode.fill_fill,
      TreeNode.places_writes hrange hshort hws]
    refine TreeNode.fill_congr (fun i => ?_) _
    rw [TreeNode.covers, ← Bool.decide_and, ← Bool.decide_or, TreeNode.positions]
    exact decide_eq_decide.mpr (by rw [Multiset.mem_add, Multiset.mem_Ico, or_comm])
  · have hsplit : node.split reps N
        = .ok (TreeNode.rangeNode base N reps node.left ((node.left + node.right) / 2),
            TreeNode.rangeNode base N reps ((node.left + node.right) / 2) node.right) := by
      rw [h.carries node hnode]
      exact TreeNode.split_rangeNode hN hreps hrange.le
    refine ⟨_, (take_of_long hshort).mpr ⟨_, _, hsplit, rfl⟩, fun other hother => ?_, h.filled⟩
    rcases Multiset.mem_cons.mp hother with rfl | hother
    · rfl
    · rcases Multiset.mem_cons.mp hother with rfl | hother
      · rfl
      · exact hcarries other hother

end Carried

end Stage

/-! ## Runs -/

/-- The stages that are reached when nodes are taken in some order, each of them pending when its
turn comes. -/
inductive Run [DigitLimit] (reps : List Int) (N : Int) : List TreeNode → Stage → Stage → Prop
  | done (s : Stage) : Run reps N [] s s
  | next {node : TreeNode} {order : List TreeNode} {s t u : Stage} (pending : node ∈ s.pending)
      (step : s.take reps N node = .ok t) (rest : Run reps N order t u) :
      Run reps N (node :: order) s u

namespace Run

open Stage

variable {base N : Int} {reps : List Int} {s t u : Stage} {order order' : List TreeNode}

lemma single [DigitLimit] {node : TreeNode} (hnode : node ∈ s.pending)
    (ht : s.take reps N node = .ok t) : Run reps N [node] s t :=
  .next hnode ht (.done t)

lemma append [DigitLimit] (h : Run reps N order s t) (h' : Run reps N order' t u) :
    Run reps N (order ++ order') s u := by
  induction h with
  | done s => exact h'
  | next hnode ht _ ih => exact .next hnode ht (ih h')

/-! ### The invariants along a run -/

theorem tiling [DigitLimit] {n : Nat} (h : Run reps N order s t) (hs : Tiling n s) :
    Tiling n t := by
  induction h with
  | done s => exact hs
  | next hnode ht _ ih => exact ih (hs.take hnode ht)

/-- **Every order ends**: what is left to do bounds how many nodes can be taken. -/
theorem length_le_work [DigitLimit] {n : Nat} (h : Run reps N order s t) (hs : Tiling n s) :
    order.length + t.work ≤ s.work := by
  induction h with
  | done s => rw [List.length_nil, zero_add]
  | next hnode ht _ ih =>
      have hless := work_take (hs.nonempty _ hnode) hnode ht
      have hrest := ih (hs.take hnode ht)
      rw [List.length_cons]
      omega

theorem carried [DigitLimit] (hN : 2 ≤ N) (hreps : ∀ e ∈ reps, 0 < e) (h : Run reps N order s t)
    (htiling : Tiling reps.length s) (hs : Carried base N reps s) : Carried base N reps t := by
  induction h with
  | done s => exact hs
  | next hnode ht _ ih =>
      obtain ⟨t', ht', hcarried⟩ := hs.take hN hreps htiling hnode
      obtain rfl := Except.ok.inj (ht'.symm.trans ht)
      exact ih (htiling.take hnode ht) hcarried

/-! ### The strategies as orders -/

/-- **Depth first** is an order: the left half is worked off before the right half is taken. -/
theorem of_prove [DigitLimit] (node : TreeNode) (rest : Multiset TreeNode)
    (proofs proofs' : List Int) (written : Multiset Nat)
    (h : node.prove reps N proofs = .ok proofs') :
    ∃ order written', Run reps N order ⟨node ::ₘ rest, proofs, written⟩
      ⟨rest, proofs', written'⟩ := by
  induction hlen : node.length using Nat.strong_induction_on
    generalizing node rest proofs proofs' written with
  | _ n ih =>
      subst hlen
      have hnode : node ∈ node ::ₘ rest := Multiset.mem_cons_self node rest
      by_cases hshort : node.length ≤ 2
      · rw [TreeNode.prove_of_short node hshort, TreeNode.settle_eq_assign] at h
        obtain ⟨ws, hws, h⟩ := bind_eq_ok.mp h
        obtain rfl := Except.ok.inj h
        exact ⟨_, _, single hnode (take_cons_of_short hshort hws)⟩
      · rw [TreeNode.prove_of_long node hshort] at h
        obtain ⟨⟨left, right⟩, hsplit, h⟩ := bind_eq_ok.mp h
        obtain ⟨proofs₁, hleft, hright⟩ := bind_eq_ok.mp h
        obtain ⟨h₁, h₂, h₃, h₄⟩ := TreeNode.split_ranges hsplit
        obtain ⟨order₁, written₁, hrun₁⟩ := ih left.length
          (by rw [TreeNode.length, h₁, h₂]; exact TreeNode.length_left node hshort 0)
          left (right ::ₘ rest) proofs proofs₁ written hleft rfl
        obtain ⟨order₂, written₂, hrun₂⟩ := ih right.length
          (by rw [TreeNode.length, h₃, h₄]; exact TreeNode.length_right node hshort 0)
          right rest proofs₁ proofs' written₁ hright rfl
        exact ⟨_, _, .next hnode (take_cons_of_long hshort hsplit) (hrun₁.append hrun₂)⟩

/-- **Forked**, the right half of a topmost node comes before its left half. -/
theorem of_fork [DigitLimit] (depth : Nat) (node : TreeNode) (rest : Multiset TreeNode)
    (proofs proofs' : List Int) (written : Multiset Nat) (submitted : Nat)
    (h : TreeNode.fork reps N depth node proofs = .ok (proofs', submitted)) :
    ∃ order written', Run reps N order ⟨node ::ₘ rest, proofs, written⟩
      ⟨rest, proofs', written'⟩ := by
  induction depth generalizing node rest proofs proofs' written submitted with
  | zero =>
      obtain ⟨_, hprove, h⟩ := bind_eq_ok.mp h
      obtain ⟨rfl, rfl⟩ := Prod.mk.inj (Except.ok.inj h)
      exact of_prove node rest proofs _ written hprove
  | succ depth ih =>
      rw [TreeNode.fork] at h
      by_cases hshort : node.length ≤ 2
      · rw [if_pos hshort] at h
        obtain ⟨_, hprove, h⟩ := bind_eq_ok.mp h
        obtain ⟨rfl, rfl⟩ := Prod.mk.inj (Except.ok.inj h)
        exact of_prove node rest proofs _ written hprove
      · rw [if_neg hshort] at h
        obtain ⟨⟨left, right⟩, hsplit, h⟩ := bind_eq_ok.mp h
        obtain ⟨⟨proofs₁, n₁⟩, hright, h⟩ := bind_eq_ok.mp h
        obtain ⟨⟨proofs₂, n₂⟩, hleft, h⟩ := bind_eq_ok.mp h
        obtain ⟨rfl, rfl⟩ := Prod.mk.inj (Except.ok.inj h)
        obtain ⟨order₁, written₁, hrun₁⟩ := ih right (left ::ₘ rest) proofs proofs₁ written n₁ hright
        obtain ⟨order₂, written₂, hrun₂⟩ := ih left rest proofs₁ proofs₂ written₁ n₂ hleft
        rw [Multiset.cons_swap] at hrun₁
        exact ⟨_, _, .next (Multiset.mem_cons_self node rest) (take_cons_of_long hshort hsplit)
          (hrun₁.append hrun₂)⟩

/-- **Breadth first** is an order, which stops when its steps are used up or nothing is pending. -/
theorem of_proveQueue [DigitLimit] (steps : Nat) (nodes : List TreeNode) (proofs proofs' : List Int)
    (written : Multiset Nat) (h : TreeNode.proveQueue reps N steps nodes proofs = .ok proofs') :
    ∃ order t, Run reps N order ⟨nodes, proofs, written⟩ t ∧ t.proofs = proofs' ∧
      (order.length < steps → t.pending = 0) := by
  induction steps generalizing nodes proofs written with
  | zero =>
      rw [TreeNode.proveQueue] at h
      exact ⟨[], _, .done _, Except.ok.inj h, fun hlt => absurd hlt (Nat.not_lt_zero _)⟩
  | succ steps ih =>
      cases nodes with
      | nil =>
          rw [TreeNode.proveQueue] at h
          exact ⟨[], _, .done _, Except.ok.inj h, fun _ => rfl⟩
      | cons node nodes =>
          have hnode : node ∈ node ::ₘ (nodes : Multiset TreeNode) :=
            Multiset.mem_cons_self node nodes
          rw [TreeNode.proveQueue] at h
          rw [← Multiset.cons_coe]
          by_cases hshort : node.length ≤ 2
          · rw [if_pos hshort, TreeNode.settle_eq_assign] at h
            obtain ⟨_, hsettle, h⟩ := bind_eq_ok.mp h
            obtain ⟨ws, hws, hassign⟩ := bind_eq_ok.mp hsettle
            obtain rfl := Except.ok.inj hassign
            obtain ⟨order, t, hrun, ht, hdone⟩ :=
              ih nodes _ (written + (ws.map Prod.fst : List Nat)) h
            exact ⟨node :: order, t, .next hnode (take_cons_of_short hshort hws) hrun, ht,
              fun hlt => hdone (Nat.lt_of_succ_lt_succ hlt)⟩
          · rw [if_neg hshort] at h
            obtain ⟨⟨left, right⟩, hsplit, h⟩ := bind_eq_ok.mp h
            obtain ⟨order, t, hrun, ht, hdone⟩ := ih (nodes ++ [left, right]) proofs written h
            rw [← Multiset.coe_add, add_comm] at hrun
            exact ⟨node :: order, t, .next hnode (take_cons_of_long hshort hsplit) hrun, ht,
              fun hlt => hdone (Nat.lt_of_succ_lt_succ hlt)⟩

end Run

/-! ## All orders -/

section Orders

open Stage

/-- **The order in which nodes are taken does not matter.**  From the root of a list that is not
empty, whatever the base, the modulus and the numbers, every order ends before twice as many nodes
are taken as there are numbers; a step writes within the range of its node; no position is written
twice, and at the end each has been written.  When the base and the numbers are in range, every
pending node can be taken, and at the end there are the proofs that depth first returns. -/
theorem any_order_proves [DigitLimit] (base N : Int) {reps : List Int} (hne : reps ≠ [])
    {order : List TreeNode} {s : Stage} (hrun : Run reps N order (start base reps) s) :
    order.length < 2 * reps.length ∧
    (∀ node ∈ s.pending, node.left < node.right ∧ node.right ≤ reps.length ∧
      ∀ t, s.take reps N node = .ok t → Within node s t) ∧
    s.written.Nodup ∧ (∀ i ∈ s.written, i < reps.length) ∧
    (s.pending = 0 → s.written = Multiset.range reps.length) ∧
    (2 ≤ N → 0 < base ∧ base < N → (∀ e ∈ reps, 0 < e) →
      (∀ node ∈ s.pending, ∃ t, s.take reps N node = .ok t) ∧
      ∃ proofs, proveMembership base N reps = .ok proofs ∧ (s.pending = 0 → s.proofs = proofs)) := by
  have hpos : 0 < reps.length := List.length_pos_of_ne_nil hne
  have hstart := Tiling.start base hne
  have htiling := hrun.tiling hstart
  have hall : s.pending = 0 → s.written = Multiset.range reps.length := fun hdone => by
    rw [← htiling.tiles, hdone, Multiset.zero_bind, add_zero]
  refine ⟨?_, fun node hnode => ⟨htiling.nonempty node hnode, htiling.right_le hnode,
    fun t ht => within_take (htiling.nonempty node hnode) ht⟩, htiling.nodup_written,
    fun i hi => htiling.lt_of_written hi, hall, fun hN hbase hreps => ?_⟩
  · have hwork := hrun.length_le_work hstart
    have hroot : (start base reps).work = 2 * reps.length - 1 := by
      rw [work, start, Multiset.map_singleton, Multiset.sum_singleton]
      rfl
    omega
  · have hcarried := hrun.carried hN hreps hstart (Carried.start hN hbase)
    refine ⟨fun node hnode => ?_, _, proveMembership_ok hN hbase hreps, fun hdone => ?_⟩
    · obtain ⟨t, ht, _⟩ := hcarried.take hN hreps htiling hnode
      exact ⟨t, ht⟩
    · rw [hcarried.filled, hall hdone, ← TreeNode.fill_blankProofs]
      refine TreeNode.fill_congr (fun i => ?_) _
      rw [TreeNode.covers, ← Bool.decide_and]
      exact decide_eq_decide.mpr (by rw [Multiset.mem_range]; omega)

open Unlimited in
/-- Five numbers, of which the last two are settled first, then the first two, and at last the one
between them: an order that none of the strategies takes. -/
theorem any_order_proves_middle_last :
    ∃ (order : List TreeNode) (s : Stage),
      Run [3, 5, 3, 11, 7] 667 order (start 2 [3, 5, 3, 11, 7]) s ∧ order.length = 5 ∧
      s.pending = 0 ∧ s.written = Multiset.range 5 ∧
      ∃ proofs, proveMembership 2 667 [3, 5, 3, 11, 7] = .ok proofs ∧ s.proofs = proofs := by
  have hrun : Run [3, 5, 3, 11, 7] 667
      [⟨0, 5, 2⟩, ⟨2, 5, 85⟩, ⟨3, 5, 485⟩, ⟨0, 2, 70⟩, ⟨2, 3, 70⟩]
      (start 2 [3, 5, 3, 11, 7]) ⟨0, [70, 162, 70, 128, 461], {3, 4, 0, 1, 2}⟩ :=
    .next (t := ⟨{⟨0, 2, 70⟩, ⟨2, 5, 85⟩}, [0, 0, 0, 0, 0], 0⟩) (by decide)
        (toOption_eq_some.mp (by decide +kernel)) <|
      .next (t := ⟨{⟨2, 3, 70⟩, ⟨3, 5, 485⟩, ⟨0, 2, 70⟩}, [0, 0, 0, 0, 0], 0⟩) (by decide)
        (toOption_eq_some.mp (by decide +kernel)) <|
      .next (t := ⟨{⟨2, 3, 70⟩, ⟨0, 2, 70⟩}, [0, 0, 0, 128, 461], {3, 4}⟩) (by decide)
        (toOption_eq_some.mp (by decide +kernel)) <|
      .next (t := ⟨{⟨2, 3, 70⟩}, [70, 162, 0, 128, 461], {3, 4, 0, 1}⟩) (by decide)
        (toOption_eq_some.mp (by decide +kernel)) <|
      .single (by decide) (toOption_eq_some.mp (by decide +kernel))
  obtain ⟨_, _, _, _, hwritten, hvalues⟩ := any_order_proves 2 667 (by decide) hrun
  obtain ⟨_, proofs, hproofs, hdone⟩ := hvalues (by decide) (by decide) (by decide)
  exact ⟨_, _, hrun, rfl, rfl, hwritten rfl, proofs, hproofs, hdone rfl⟩

end Orders

end HiddenOrder
