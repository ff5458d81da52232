/-!
# Settings

The numbers that shape a search or a proof without being part of its statement, and how they are
read from an environment of variables.

* **`Settings`** — the record.
* `Settings.standard` — the values when nothing is set.
* **`powerOfTwoBelow`** — the largest power of two that a number of processors holds, and its
  exponent, which is the parallelism budget.
-/

namespace HiddenOrder

/-- The settings of setup, searches and proofs. -/
structure Settings where
  /-- Bits of a fresh group modulus. -/
  rsaBits : Int := 2048
  /-- The security parameter of the zero-knowledge protocols. -/
  securityParam : Int := 128
  /-- Rounds of the primality test for representatives. -/
  hashToPrimeRounds : Int := 10
  /-- Rounds of the primality test for challenges. -/
  challengePrimeRounds : Int := 30
  /-- Rounds of the primality test for safe primes. -/
  safePrimeRounds : Int := 64
  /-- How many workers race for a witness; fewer than one count as one. -/
  workers : Int := 1
  /-- How many trials a worker may make; no limit when absent. -/
  maxTrials : Option Int := none
  /-- The number of bits from which on a number is large. -/
  largeBits : Int := 1500
  /-- The name of the logging level. -/
  logLevel : String := "WARNING"
deriving DecidableEq, Repr

/-- The largest power of two that is not above a number of processors, and its exponent; fewer than
one processor count as one. -/
def powerOfTwoBelow (cpus : Int) : Nat × Nat :=
  let depth := (max cpus 1).toNat.log2
  (Nat.pow 2 depth, depth)

namespace Settings

/-- The settings when nothing is set and there is one processor. -/
def standard : Settings := {}

/-- How many levels of a proof tree are split into concurrent tasks. -/
def parallelismBudget (s : Settings) : Nat := (powerOfTwoBelow s.workers).2

end Settings

end HiddenOrder
