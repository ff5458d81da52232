import HiddenOrder.Race
import HiddenOrder.Settings
import HiddenOrder.Squares.Tuple
import HiddenOrder.Squares.Two

/-!
# Four squares

Every natural number is a sum of four squares, and a range proof has to find them.  The power of
two is split off first, `n = 2 ^ e · m`; an odd part of at most seven has a fixed decomposition.
For a larger one, racing workers look for a quaternion of integer coordinates whose norm is a
multiple of `m`: a greatest common right divisor with `m` then has norm exactly `m`, and the factor
`(1 + i) ^ e` restores the power of two.  There are three ways to look:

* **`lagrange`** — a prime `p = M · m · k - 1`, where `M` is the product of the small primes and `k`
  is odd and random; the squares `A² + B² = p` make `A + Bi + j`.
* **`largeLagrange`** — a prime `p = 2 m M - l` for a random prime `l` of twenty-five bits; the
  squares of `p` and of `l` make the quaternion.  For numbers of so many bits that `p` is positive.
* **`unconditional`** — random `x, y`, and the squares `z² + w²` of `-(x² + y²) mod m`, found by
  taking out small primes; nothing is assumed about primes in progressions.

What is found is checked before it is handed out.
-/

namespace HiddenOrder

variable [DigitLimit]

/-- A divisor of norm `odd` with integer coordinates, from a quaternion whose norm is a multiple of
`odd`; the number itself goes into a borrowed slot. -/
def divisorOfNorm (h : Hurwitz) (odd : Nat) : Search (Option Hurwitz) := do
  let d ← Search.quaternions fun pool => pool.borrow fun x pool =>
    let pool := pool.write x (Hurwitz.ofInts odd 0 0 0)
    (Hurwitz.gcrd h (pool.read x), pool)
  if d.norm ≠ odd then pure none
  else
    let h ← Search.ofExcept d.toLipschitz
    pure (some h)

/-- The decompositions of the odd numbers up to seven. -/
def smallRoots (odd : Nat) : Hurwitz :=
  match odd with
  | 1 => .ofInts 1 0 0 0
  | 3 => .ofInts 1 1 1 0
  | 5 => .ofInts 2 1 0 0
  | _ => .ofInts 2 1 1 1

/-- The roots of `n = 2 ^ e · odd` from a quaternion of norm `odd`, checked. -/
def finish (n : Int) (e : Nat) (h : Hurwitz) : Except Error FourInt := do
  let roots ← (Hurwitz.ofGaussian (Gaussian.onePlusIPow e) * h).value
  let w ← FourInt.of roots
  if w.squareSum = n then pure w
  else throw (unverified (.fourSquares w.toList n))

/-- The frame of all three searches: `find odd` looks for a quaternion of norm `odd`. -/
def decompose (n : Int) (find : Nat → Search Hurwitz) : Search FourInt := do
  if n < 0 then throw (refuse (.negativeSum n))
  else if n = 0 then pure ⟨0, 0, 0, 0⟩
  else
    let (e, odd) := oddPart n.toNat
    let h ← if odd ≤ 8 then pure (smallRoots odd) else find odd
    Search.ofExcept (finish n e h)

/-! ## A prime in a progression -/

/-- The bound of the draws of one of several workers. -/
def lagrangeBound (odd workers : Nat) : Int := (Nat.pow odd 5 / 2 / workers + 1 : Nat)

/-- The candidate `pre · k - 1`, for the odd number `k` that a draw `t` stands for; no two workers
share such a number. -/
def lagrangeCandidate (pre : Int) (worker workers : Nat) (t : Int) : Int :=
  pre * (t * (2 * workers) + (2 * worker + 1)) - 1

/-- One trial: a candidate `M · odd · k - 1`, and its two squares if it is prime. -/
def lagrangeTrial (o : Oracles) (odd : Nat) (pre : Int) (worker workers : Nat) :
    Search (Option Hurwitz) := do
  let t ← Search.draw (o.source.below (lagrangeBound odd workers))
  let p := lagrangeCandidate pre worker workers t
  if o.isPrime.int p then
    match ← primeTwoSquares o p with
    | none => pure none
    | some g => divisorOfNorm (.ofInts g.re g.im 1 0) odd
  else pure none

/-- The search for a quaternion of norm `odd` by a prime `M · odd · k - 1`. -/
def lagrangeSearch (o : Oracles) (cfg : Settings) (n : Int) (odd : Nat) : Search Hurwitz := do
  let primorial ← Search.primes (·.product (bitLength n.toNat) false)
  let failure ← Search.ofExcept (exhausted (.fourSquares n))
  race (fun worker workers =>
      withinTrials cfg.maxTrials o.steps .outOfSteps
        (lagrangeTrial o odd (primorial * odd) worker workers))
    cfg.workers failure

/-! ## A prime just below a multiple, for large numbers -/

/-- The number of bits of the auxiliary prime. -/
def auxiliaryBits : Nat := 25

/-- A prime of the class one modulo four with so many bits. -/
def randomPrimeOneModFour (o : Oracles) (bits : Nat) : (steps : Nat) → Draw Int
  | 0 => throw .outOfSteps
  | steps + 1 => do
    let t ← o.source.bits bits
    let l : Int := (t.toNat ||| Nat.pow 2 (bits - 1) : Nat)
    let l := l - l % 4 + 1
    if o.isPrime.int l then pure l else randomPrimeOneModFour o bits steps

/-- One trial: the candidate `pre - l` for a random auxiliary prime `l`. -/
def largeTrial (o : Oracles) (odd : Nat) (pre : Int) : Search (Option Hurwitz) := do
  let l ← Search.draw (randomPrimeOneModFour o auxiliaryBits o.steps)
  let p := pre - l
  if 5 ≤ p ∧ o.isPrime.int p then
    match ← primeTwoSquares o p with
    | none => pure none
    | some ab =>
      match ← primeTwoSquares o l with
      | none => pure none
      | some cd => divisorOfNorm (.ofInts ab.re ab.im cd.re cd.im) odd
  else pure none

/-- The search for a quaternion of norm `odd` by a prime `2 · odd · M - l`. -/
def largeSearch (o : Oracles) (cfg : Settings) (n : Int) (odd : Nat) : Search Hurwitz := do
  let primorial ← Search.primes (·.product (bitLength n.toNat) true)
  let failure ← Search.ofExcept (exhausted (.largeFourSquares n))
  race (fun _ _ =>
      withinTrials cfg.maxTrials o.steps .outOfSteps (largeTrial o odd (2 * odd * primorial)))
    cfg.workers failure

/-- Whether a number has more than `bits` bits; a negative number has more than any. -/
def exceedsBits (n bits : Int) : Except Error Bool :=
  if bits < 0 then .error (.fault .negativeShift)
  else .ok (decide (n < 0 ∨ bits.toNat < bitLength n.toNat))

/-- Four squares with the sum `n`; large numbers go the way of `largeLagrange`. -/
def lagrange (o : Oracles) (cfg : Settings) (n : Int) : Search FourInt := do
  let large ← if 0 < n then Search.ofExcept (exceedsBits n cfg.largeBits) else pure false
  if large then decompose n (largeSearch o cfg n) else decompose n (lagrangeSearch o cfg n)

/-- Four squares with the sum `n`; numbers that are not large go the way of `lagrange`. -/
def largeLagrange (o : Oracles) (cfg : Settings) (n : Int) : Search FourInt := do
  let large ← Search.ofExcept (exceedsBits n cfg.largeBits)
  if large then decompose n (largeSearch o cfg n) else decompose n (lagrangeSearch o cfg n)

/-! ## Without assumptions on primes -/

/-- A small prime `q` taken out of `rest` as often as it divides: `acc` is multiplied by its roots
each time.  Every division at least halves `rest`, so so many steps suffice. -/
def takeOut (q : Nat) : (steps : Nat) → Gaussian × Nat → Search (Gaussian × Nat)
  | 0, state => pure state
  | steps + 1, (acc, rest) =>
    if rest % q = 0 then do
      match ← Search.squares (·.twoSquares q) with
      | some (a, b) => takeOut q steps (acc * ⟨a, b⟩, rest / q)
      | none => throw (.fault .wrongKind)
    else pure (acc, rest)

/-- Each of some small primes taken out of `rest`. -/
def takeOutAll : List Nat → Gaussian × Nat → Search (Gaussian × Nat)
  | [], state => pure state
  | q :: qs, (acc, rest) => do
    let state ← takeOut q (bitLength rest) (acc, rest)
    takeOutAll qs state

/-- A Gaussian integer of norm `r`, for a product `r` of some of the small primes and a rest that is
one, or small, or a prime of the class one modulo four; none for another rest. -/
def sumOfTwoSquares (o : Oracles) (small : List Nat) (r : Nat) : Search (Option Gaussian) := do
  let (acc, rest) ← takeOutAll small (⟨1, 0⟩, r)
  if rest = 1 then pure (some acc)
  else
    let limit ← squareLimit
    if (rest : Int) ≤ limit then
      let found ← Search.squares (·.twoSquares rest)
      pure (found.map fun (a, b) => acc * ⟨a, b⟩)
    else if isPrimeOneModFour o rest then
      let found ← primeTwoSquares o rest
      pure (found.map (acc * ·))
    else pure none

/-- One trial: two drawn squares, completed by two more to a multiple of `odd`. -/
def unconditionalTrial (o : Oracles) (odd : Nat) (small : List Nat) :
    Search (Option Hurwitz) := do
  let x ← Search.draw (o.source.below odd)
  let y ← Search.draw (o.source.below odd)
  let r := -(x * x + y * y) % (odd : Int)
  let zw ← if r = 0 then pure (some ⟨0, 0⟩) else sumOfTwoSquares o small r.toNat
  match zw with
  | none => pure none
  | some g => divisorOfNorm (.ofInts x y g.re g.im) odd

/-- The search for a quaternion of norm `odd` by two random squares. -/
def unconditionalSearch (o : Oracles) (cfg : Settings) (n : Int) (odd : Nat) : Search Hurwitz := do
  let primes ← Search.primes (·.primesBelow (max (bitLength n.toNat) 8 : Nat))
  let small := primes.filter fun q => q == 2 || q % 4 == 1
  let failure ← Search.ofExcept (exhausted (.unconditionalFourSquares n))
  race (fun _ _ =>
      withinTrials cfg.maxTrials o.steps .outOfSteps (unconditionalTrial o odd small))
    cfg.workers failure

/-- Four squares with the sum `n`, without assumptions on primes in progressions. -/
def unconditional (o : Oracles) (cfg : Settings) (n : Int) : Search FourInt :=
  decompose n (unconditionalSearch o cfg n)

end HiddenOrder
