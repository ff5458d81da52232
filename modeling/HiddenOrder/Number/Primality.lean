import HiddenOrder.Number.Jacobi
import HiddenOrder.Number.Modular
import HiddenOrder.Number.Root

/-!
# Primality

Whether a number is prime is asked everywhere: of digests, of challenges, of the candidates of
every search.  No search depends on how the question is answered, so all of them take the test as
an argument:

* **`PrimeTest`** — a decision on natural numbers; `PrimeTest.int` asks it of an integer.
* **`bailliePSW`** — the test that runs: trial division, one strong test to base two and one
  strong Lucas test.  No composite number that passes all three is known.

A round count changes nothing: further rounds could only refuse a composite that no one has found.
-/

namespace HiddenOrder

/-- A primality test. -/
abbrev PrimeTest := Nat → Bool

/-- The test for an integer; nothing below two is prime. -/
def PrimeTest.int (isPrime : PrimeTest) (n : Int) : Bool := decide (2 ≤ n) && isPrime n.toNat

/-! ## The parts of the test -/

/-- Whether squaring `x` modulo `n` up to `k` times meets `n - 1`, `x` itself included. -/
def meetsMinusOne (n : Nat) : Nat → Nat → Bool
  | 0, _ => false
  | k + 1, x => x == n - 1 || meetsMinusOne n k (x * x % n)

/-- The strong probable-prime test to base two, for odd `n` above two. -/
def strongBaseTwo (n : Nat) : Bool :=
  let (k, d) := oddPart (n - 1)
  let x := (powMod 2 d n).toNat
  x == 1 || meetsMinusOne n k x

/-- Half of a residue modulo an odd `n`. -/
def halve (x n : Int) : Int := (if x % 2 = 0 then x / 2 else (x + n) / 2) % n

/-- The discriminant of the Lucas test: the first of `5, -7, 9, -11, …` whose Jacobi symbol over
`n` is `-1`.  None when one of them shares a factor with `n`, or when none of the first `k` will
do, as for a square. -/
def lucasDiscriminant (n : Nat) : Nat → Int → Option Int
  | 0, _ => none
  | k + 1, d =>
    match jacobiNat (d % n).toNat n with
    | -1 => some d
    | 0 => none
    | _ => lucasDiscriminant n k (if 0 < d then -(d + 2) else -d + 2)

/-- The Lucas numbers `Uₖ, Vₖ` and `Qᵏ` modulo `n` for `P = 1`, by the binary digits of `k`. -/
def lucas (n d q : Int) (k : Nat) : Int × Int × Int :=
  if k = 0 then (0, 2 % n, 1 % n)
  else
    let (u, v, qk) := lucas n d q (k / 2)
    let u₂ := u * v % n
    let v₂ := (v * v - 2 * qk) % n
    let q₂ := qk * qk % n
    if k % 2 = 0 then (u₂, v₂, q₂)
    else (halve (u₂ + v₂) n, halve (d * u₂ + v₂) n, q₂ * q % n)
termination_by k
decreasing_by omega

/-- Whether doubling the index of `V` up to `k` times meets zero, `v` itself included. -/
def meetsZero (n : Int) : Nat → Int → Int → Bool
  | 0, _, _ => false
  | k + 1, v, q => v % n == 0 || meetsZero n k ((v * v - 2 * q) % n) (q * q % n)

/-- The strong Lucas probable-prime test, for odd `n` above two. -/
def strongLucas (n : Nat) : Bool :=
  match lucasDiscriminant n (2 * n.log2 + 100) 5 with
  | none => false
  | some d =>
    let (s, m) := oddPart (n + 1)
    let (u, v, q) := lucas n d ((1 - d) / 4) m
    u % (n : Int) == 0 || meetsZero n s v q

/-- The primes by which candidates are divided first. -/
def trialPrimes : List Nat :=
  [2, 3, 5, 7, 11, 13, 17, 19, 23, 29, 31, 37, 41, 43, 47, 53, 59, 61, 67, 71, 73, 79, 83, 89, 97,
   101, 103, 107, 109, 113, 127, 131, 137, 139, 149, 151, 157, 163, 167, 173, 179, 181, 191, 193,
   197, 199, 211, 223, 227, 229, 233, 239, 241, 251]

/-- The test that runs: trial division, a strong test to base two and a strong Lucas test. -/
def bailliePSW : PrimeTest := fun n =>
  if n < 2 then false
  else if trialPrimes.contains n then true
  else if trialPrimes.any (n % · == 0) then false
  else if n < 66049 then true
  else strongBaseTwo n && sqrt n * sqrt n != n && strongLucas n

end HiddenOrder
