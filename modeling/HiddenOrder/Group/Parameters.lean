import HiddenOrder.Error.Message

/-!
# Group parameters

The group is that of the units modulo `N`, a product of two primes that nobody remembers, so that
nobody knows its order.  Its public description is `N` with two elements `G` and `H`.

* **`GroupParameters`** — the public parameters; both generators are units other than one, by type.
* **`GroupParameters.of`** — parameters from three integers, with each condition checked in turn.
* `GroupParameters.of_eq_ok` — the conditions are those of the type.
-/

namespace HiddenOrder

/-- The public parameters of a group of unknown order. -/
@[ext]
structure GroupParameters where
  /-- The modulus. -/
  N : Int
  /-- The generator that carries the committed value. -/
  G : Int
  /-- The generator that carries the randomness. -/
  H : Int
  /-- The modulus is at least three. -/
  three_le_N : 3 ≤ N
  /-- The first generator is above one. -/
  one_lt_G : 1 < G
  /-- The first generator is below the modulus. -/
  G_lt_N : G < N
  /-- The first generator is a unit. -/
  gcd_G : Int.gcd G N = 1
  /-- The second generator is above one. -/
  one_lt_H : 1 < H
  /-- The second generator is below the modulus. -/
  H_lt_N : H < N
  /-- The second generator is a unit. -/
  gcd_H : Int.gcd H N = 1
deriving DecidableEq, Repr

namespace GroupParameters

/-- The parameters with modulus `N` and generators `G` and `H`.  The modulus is checked first, and
of each generator first its range. -/
def of [DigitLimit] (N G H : Int) : Except Error GroupParameters :=
  if hN : 3 ≤ N then
    if hG : 1 < G ∧ G < N then
      if gG : Int.gcd G N = 1 then
        if hH : 1 < H ∧ H < N then
          if gH : Int.gcd H N = 1 then .ok ⟨N, G, H, hN, hG.1, hG.2, gG, hH.1, hH.2, gH⟩
          else .error (refuse (.generatorFactor .H H))
        else .error (refuse (.generatorRange .H H))
      else .error (refuse (.generatorFactor .G G))
    else .error (refuse (.generatorRange .G G))
  else .error (refuse (.groupModulus N))

/-- The conditions that are checked are those of the type, so nothing else is refused. -/
theorem of_eq_ok [DigitLimit] {N G H : Int} {pp : GroupParameters} :
    of N G H = .ok pp ↔ pp.N = N ∧ pp.G = G ∧ pp.H = H := by
  constructor
  · intro h
    rw [of] at h
    repeat' split at h
    all_goals cases h
    exact ⟨rfl, rfl, rfl⟩
  · rintro ⟨rfl, rfl, rfl⟩
    rw [of, dif_pos pp.three_le_N, dif_pos ⟨pp.one_lt_G, pp.G_lt_N⟩, dif_pos pp.gcd_G,
      dif_pos ⟨pp.one_lt_H, pp.H_lt_N⟩, dif_pos pp.gcd_H]

end GroupParameters

end HiddenOrder
