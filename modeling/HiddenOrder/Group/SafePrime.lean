import HiddenOrder.Number.Sieve
import HiddenOrder.Oracles
import HiddenOrder.Race
import HiddenOrder.Settings

/-!
# Safe primes

The modulus of a group is a product of two safe primes, `p = 2c + 1` with `c` prime as well: then
the squares modulo `p` have the prime order `c`, and hardly any element has a small order.  A
candidate `c` is drawn as a prime, thrown away at once when a small prime divides `2c + 1`, and
tested otherwise.

* **`sievedOut`** — whether one of the small primes divides `2c + 1`.
* **`safePrime`** — the first candidate that succeeds, with workers racing for it.
-/

namespace HiddenOrder

/-- The bound of the small primes by which candidates are sieved. -/
def sieveLimit : Nat := 1000

/-- The least number of bits of a group modulus. -/
def leastSetupBits : Nat := 32

/-- The odd primes by which candidates are sieved. -/
def sievingPrimes : List Nat := (primesBelow sieveLimit).filter (2 < ·)

/-- Whether one of some odd primes divides `2c + 1`: a prime `r` does just if `c` leaves the
remainder `(r - 1) / 2`. -/
def sievedOut (small : List Nat) (c : Nat) : Bool := small.any fun r => c % r == (r - 1) / 2

/-- One trial: a prime `c`, and `2c + 1` if that is prime too. -/
def safePrimeTrial (o : Oracles) (bits : Nat) : Draw (Option Nat) := do
  let c ← o.source.prime o.isPrime (bits - 1) o.steps
  if sievedOut sievingPrimes c then pure none
  else pure (if o.isPrime (2 * c + 1) then some (2 * c + 1) else none)

variable [DigitLimit]

/-- A safe prime of so many bits. -/
def safePrime (o : Oracles) (cfg : Settings) (bits : Int) : Draw Nat := do
  if bits < leastSetupBits / 2 then
    throw (refuse (.safePrimeBits (leastSetupBits / 2) bits))
  else
    let failure ← Draw.ofExcept (exhausted (.safePrime bits))
    race (fun _ _ =>
        withinTrials cfg.maxTrials o.steps .outOfSteps (safePrimeTrial o bits.toNat))
      cfg.workers failure

end HiddenOrder
