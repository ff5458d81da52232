import HiddenOrder.Digest
import HiddenOrder.Entropy
import HiddenOrder.Number.Primality

/-!
# What is asked rather than computed

Three questions run through the whole library — is this number prime, what is the digest of these
bytes, what is the next draw — and none of its algorithms depends on how they are answered.  The
answers travel together, with the number of steps that a loop without a bound of its own may make.

* **`Oracles`** — a primality test, a hash function, a source of entropy, and the step budget.

A statement about the library holds for all oracles, or says which of them it needs: a theorem
about primes assumes an exact test, one about binding exhibits a collision of the hash function.
-/

namespace HiddenOrder

/-- A primality test, a hash function, an entropy source and a step budget. -/
structure Oracles where
  /-- Whether a number is prime. -/
  isPrime : PrimeTest
  /-- The digest of a byte string. -/
  hash : HashFunction
  /-- The answers to draws. -/
  source : Entropy
  /-- How many steps a loop without a bound of its own may make. -/
  steps : Nat

end HiddenOrder
