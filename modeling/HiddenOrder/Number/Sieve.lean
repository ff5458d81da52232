import HiddenOrder.Number.Root

/-!
# The primes below a bound

A prime above three is one less or one more than a multiple of six, so the sieve keeps one flag
for each such number and none for the others.  Position `i` stands for `wheel i`, the sequence
`1, 5, 7, 11, 13, 17, …`; a number prime to six is found back at a third of itself.

* **`wheel`** — the number at a position.
* **`wheelSize`** — how many positions a bound needs.
* **`Sieve.run`** — the flags after every multiple of a wheel number up to the square root has
  been struck out.
* **`primesBelow`** — the primes below a bound, in ascending order.

Striking out the multiples of `k = wheel i` takes two progressions of stride `2 k`: the products
of `k` with the wheel numbers of its own residue modulo six begin at `k²`, and those with the
other residue at `k · (k + 4)` or `k · (k + 2)`.
-/

namespace HiddenOrder

/-- The number at a position: `1, 5, 7, 11, 13, …`. -/
def wheel (i : Nat) : Nat := 3 * i + 1 + i % 2

/-- The number of positions for the numbers below `n`. -/
def wheelSize (n : Nat) : Nat := n / 3 + if n % 6 = 2 then 1 else 0

namespace Sieve

/-- The flags with every `stride`-th one from `start` on cleared, at most `count` of them. -/
def strike (start stride : Nat) : Nat → Array Bool → Array Bool
  | 0, flags => flags
  | count + 1, flags =>
    if start < flags.size then
      strike (start + stride) stride count (flags.set! start false)
    else flags

/-- The flags with the multiples of the number at position `i` cleared, from its square on. -/
def strikeMultiples (i : Nat) (flags : Array Bool) : Array Bool :=
  let k := wheel i
  let flags := strike (k * k / 3) (2 * k) flags.size flags
  strike ((k * k + 4 * k - 2 * k * (i % 2)) / 3) (2 * k) flags.size flags

/-- One round of the sieve: a number still flagged is prime, and its multiples are not. -/
def round (flags : Array Bool) (i : Nat) : Array Bool :=
  if flags.getD i false then strikeMultiples i flags else flags

/-- The flags of the numbers below `n` that are prime to six, once the sieve is through. -/
def run (n : Nat) : Array Bool :=
  let flags := (Array.replicate (wheelSize n) true).set! 0 false
  (List.range (sqrt n / 3 + 1)).foldl round flags

end Sieve

/-- The primes below `n`, ascending. -/
def primesBelow (n : Int) : List Nat :=
  if n ≤ 2 then []
  else
    let n := n.toNat
    if n < 6 then [2, 3, 5].filter (· < n)
    else
      let flags := Sieve.run n
      let found := (List.range flags.size).filter (flags.getD · false)
      (2 :: 3 :: found.map wheel).filter (· < n)

end HiddenOrder
