import HiddenOrder.Group.Parameters
import HiddenOrder.Group.SafePrime
import HiddenOrder.Number.Jacobi
import HiddenOrder.Number.Modular

/-!
# Fresh parameters

Whoever sets up a group knows its factors for a moment; with them, generators of the subgroup of
squares are recognised.  The subgroup has order `p'q'` for the safe primes `p = 2p' + 1` and
`q = 2q' + 1`, so an element generates it when it is a square and has none of the orders `1`, `p'`
and `q'`.

* **`Trapdoor`** — the factors, with the modulus and the order they determine.
* **`Trapdoor.isGenerator`** — whether an element generates the squares.
* **`Trapdoor.findGenerator`** — draws until an element does.
* **`setup`** — two safe primes, a generator, and a random power of it as the second one.
-/

namespace HiddenOrder

/-- The factors of a group modulus. -/
structure Trapdoor where
  (p q : Int)
deriving DecidableEq, Repr

namespace Trapdoor

/-- The modulus. -/
def N (t : Trapdoor) : Int := t.p * t.q

/-- The order of the subgroup of squares, for safe primes. -/
def order (t : Trapdoor) : Int := t.p / 2 * (t.q / 2)

variable [DigitLimit]

/-- Whether `g` generates the subgroup of squares: it is a unit, a square modulo both factors, and
of none of the orders `1`, `p / 2` and `q / 2`.  Factors that are even or not positive are refused
when their turn comes. -/
def isGenerator (t : Trapdoor) (g : Int) : Except Error Bool :=
  if ¬(1 < g ∧ g < t.N) ∨ Int.gcd g t.N ≠ 1 then pure false
  else do
    let overP ← jacobi g t.p
    if overP ≠ 1 then pure false
    else
      let overQ ← jacobi g t.q
      if overQ ≠ 1 then pure false
      else
        let a ← Modular.pow g (t.p / 2) t.N
        if a = 1 then pure false
        else
          let b ← Modular.pow g (t.q / 2) t.N
          pure (decide (b ≠ 1))

/-- A generator of the subgroup of squares, from at most so many draws. -/
def findGenerator (o : Oracles) (t : Trapdoor) : (steps : Nat) → Draw Int
  | 0 => throw .outOfSteps
  | steps + 1 => do
    let g ← o.source.range 2 (t.N - 1)
    let ok ← Draw.ofExcept (t.isGenerator g)
    if ok then pure g else findGenerator o t steps

end Trapdoor

/-- A safe prime other than `p`, from a candidate on; at most `steps` further ones are made. -/
def distinctFrom (p : Nat) (again : Draw Nat) : (steps : Nat) → Nat → Draw Nat
  | steps, q =>
    if q ≠ p then pure q
    else
      match steps with
      | 0 => throw .outOfSteps
      | steps + 1 => do
        let q ← again
        distinctFrom p again steps q

variable [DigitLimit]

/-- The generators for a factored modulus: the first by rejection, the second a random power of the
first. -/
def chooseGenerators (o : Oracles) (t : Trapdoor) : Draw GroupParameters := do
  let G ← t.findGenerator o o.steps
  let r ← o.source.range 1 (t.order - 1)
  let H ← Draw.ofExcept (Modular.pow G r t.N)
  Draw.ofExcept (GroupParameters.of t.N G H)

/-- Fresh parameters with a modulus of so many bits, and its factors. -/
def setup (o : Oracles) (cfg : Settings) (bits : Int) : Draw (GroupParameters × Trapdoor) := do
  if bits < leastSetupBits then throw (refuse (.setupBits leastSetupBits bits))
  else
    let p ← safePrime o cfg (bits / 2)
    let again := safePrime o cfg (bits - bits / 2)
    let q ← again
    let q ← distinctFrom p again o.steps q
    let t : Trapdoor := ⟨p, q⟩
    let pp ← chooseGenerators o t
    pure (pp, t)

end HiddenOrder
