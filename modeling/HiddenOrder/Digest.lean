import HiddenOrder.Bytes
import HiddenOrder.Error

/-!
# Digests and digest chains

Representatives and challenges are both found by walking a chain of digests: a first digest, then
the digest of that digest, and so on, until the number read off one of them is acceptable.  What
function makes the digests does not matter to the walk, so it is an argument.

* **`Digest`** — a byte string of thirty-two bytes.
* **`HashFunction`** — a function from byte strings to digests.
* **`Digest.iterate`** — the digest `k` links further down the chain.
* **`Digest.search`** — the first acceptable value on the chain.

A chain has no last link, so the walk is given a number of steps to make; when they are spent it
fails with `Error.outOfSteps`, and otherwise the number of steps left over has no influence.
-/

namespace HiddenOrder

/-- A digest: thirty-two bytes. -/
structure Digest where
  /-- The bytes. -/
  bytes : Bytes
  /-- There are thirty-two of them. -/
  length_bytes : bytes.length = 32
deriving DecidableEq

/-- A function from byte strings to digests. -/
abbrev HashFunction := Bytes → Digest

namespace Digest

/-- The digest as a big-endian number. -/
def toNat (d : Digest) : Nat := Bytes.toNat d.bytes

/-- The next link of the chain: the digest of a digest. -/
def next (hash : HashFunction) (d : Digest) : Digest := hash d.bytes

/-- The digest `k` links down the chain. -/
def iterate (hash : HashFunction) : Nat → Digest → Digest
  | 0, d => d
  | k + 1, d => iterate hash k (d.next hash)

/-- The first value read off the chain from `d` on that is acceptable, within so many steps. -/
def search (hash : HashFunction) (read : Digest → Nat) (accepts : Nat → Bool) :
    (steps : Nat) → Digest → Except Error Nat
  | 0, _ => .error .outOfSteps
  | steps + 1, d =>
    if accepts (read d) then .ok (read d) else search hash read accepts steps (d.next hash)

end Digest

end HiddenOrder
