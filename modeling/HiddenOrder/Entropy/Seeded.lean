import HiddenOrder.Digest
import HiddenOrder.Entropy

/-!
# A source expanded from a seed

A computation that has to be repeatable gets its entropy from a seed.  Draw `i` below a bound is
read off the digests of `"seed:i:0"`, `"seed:i:1"`, …, as many of them as give the bound's bits and
sixty-four more, so that the reduction has no visible bias.  In front of the seed a tape may stand:
the answers, or failures, of the first draws.

* **`Entropy.expand`** — the seed's answer to a draw.
* **`Entropy.seeded`** — a tape, and a seed when the tape is used up.
-/

namespace HiddenOrder

namespace Entropy

/-- The bytes that stand behind block `j` of draw `i`. -/
def label (seed : Bytes) (i j : Nat) : Bytes :=
  seed ++ Bytes.utf8 (":" ++ toString i ++ ":" ++ toString j)

/-- The seed's answer to draw `i` below `bound`: enough digests, read as one number. -/
def expand (hash : HashFunction) (seed : Bytes) : Entropy := fun i bound =>
  let blocks := (bitLength bound + 319) / 256
  let digests := (List.range blocks).map fun j => (hash (label seed i j)).bytes
  some (Bytes.toNat digests.flatten)

/-- A source that answers from a tape while it lasts, and from a seed afterwards. -/
def seeded (hash : HashFunction) (seed : Bytes) (tape : List (Option Int)) : Entropy :=
  fun i bound =>
    match tape[i]? with
    | some answer => answer
    | none => expand hash seed i bound

end Entropy

end HiddenOrder
