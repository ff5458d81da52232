import HiddenOrder.Entropy
import HiddenOrder.Group.Parameters
import HiddenOrder.Number.Modular

/-!
# Commitments

A commitment to an integer `x` with randomness `r` is `G ^ x · H ^ r` modulo `N`.  Either may be
negative: the generators are units, so their inverses serve.

* **`commit`** — the commitment.
* `randomCommitment` — the same with randomness drawn from `[0, N]`.
* `commitRoots` — a commitment to each of four roots.
-/

namespace HiddenOrder

variable [DigitLimit]

/-- The commitment `G ^ x · H ^ r` modulo `N`. -/
def commit (pp : GroupParameters) (x r : Int) : Except Error Int :=
  Modular.multiPow [pp.G, pp.H] [x, r] pp.N

/-- Commitments to a list of values under a list of randomizers, as far as both go. -/
def commitAll (pp : GroupParameters) : List (Int × Int) → Except Error (List Int)
  | [] => pure []
  | (x, r) :: rest => do
    let c ← commit pp x r
    let cs ← commitAll pp rest
    pure (c :: cs)

/-- A commitment to `x` with randomness drawn from `[0, N]`, and the randomness. -/
def randomCommitment (o : Entropy) (pp : GroupParameters) (x : Int) : Draw (Int × Int) := do
  let r ← o.range 0 pp.N
  let c ← Draw.ofExcept (commit pp x r)
  pure (c, r)

/-- Commitments to four roots. -/
def commitRoots (pp : GroupParameters) (roots randomizers : List Int) : Except Error (List Int) :=
  if roots.length ≠ 4 ∨ randomizers.length ≠ 4 then
    .error (refuse (.fourCommitments roots.length randomizers.length))
  else commitAll pp (roots.zip randomizers)

end HiddenOrder
