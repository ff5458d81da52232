import HiddenOrder.Error

/-!
# Races

A randomized search is run by several workers, and the first to find a witness wins.  The winner
writes into a slot that takes one value only; everyone else finds the token cancelled.  Workers
run to their end in the order in which they are submitted, so a race is a function of what its
workers do: once a worker has won, no later one starts; a worker that fails does not stop the later
ones, but its failure is what the race reports.

* **`Token`** — cancelled or not, and the value of the winner.
* `Token.offer`, `Token.cancel` — the two ways to end a race.
* **`runWorkers`** — the workers in order, with the first failure kept.
* **`race`** — the witness of the winner; a failure named by the caller when there is none.
* **`withinTrials`** — one worker's loop: trial after trial until one succeeds, the allowed number
  is spent, or, if no number is set, the step budget is.
-/

namespace HiddenOrder

/-- A cancellation token with a slot for one result. -/
structure Token (α : Type) where
  /-- Whether the race is over. -/
  cancelled : Bool
  /-- What the winner offered. -/
  winner : Option α

namespace Token

variable {α : Type}

/-- The token of a race that has not begun. -/
def fresh : Token α := ⟨false, none⟩

/-- The token with the race called off; the slot stays as it is. -/
def cancel (t : Token α) : Token α := { t with cancelled := true }

/-- Whether an offer is accepted, and the token afterwards: only the first offer to a token that is
not cancelled is. -/
def offer (t : Token α) (value : α) : Bool × Token α :=
  if t.cancelled then (false, t) else (true, ⟨true, some value⟩)

end Token

/-- The numbers of the trials allowed, at most `count` of them. -/
def trials (maxTrials : Option Int) (count : Nat) : List Nat :=
  match maxTrials with
  | some most => List.range (min most.toNat count)
  | none => List.range count

section

variable {ε σ α : Type}

/-- One worker: it does not start on a cancelled token, and offers what it finds. -/
def runWorker (search : EStateM ε σ (Option α)) (token : Token α) :
    EStateM ε σ (Token α) :=
  if token.cancelled then pure token
  else do
    match ← search with
    | some value => pure (token.offer value).2
    | none => pure token

/-- The workers in the given order.  A failure does not stop the later ones; the first one is
kept. -/
def runWorkers (search : Nat → EStateM ε σ (Option α)) :
    List Nat → Token α → Option ε → σ → (Token α × Option ε) × σ
  | [], token, failure, s => ((token, failure), s)
  | worker :: rest, token, failure, s =>
    match runWorker (search worker) token s with
    | .ok token s => runWorkers search rest token failure s
    | .error e s => runWorkers search rest token (failure.or (some e)) s

/-- The witness of the first of `max 1 workers` workers to find one; `search worker workers` is
what a worker does, and `exhausted` the failure when all of them give up. -/
def race (search : Nat → Nat → EStateM ε σ (Option α)) (workers : Int) (exhausted : ε) :
    EStateM ε σ α := fun s =>
  let count := (max 1 workers).toNat
  match runWorkers (search · count) (List.range count) .fresh none s with
  | ((_, some e), s) => .error e s
  | ((⟨_, some value⟩, none), s) => .ok value s
  | ((⟨_, none⟩, none), s) => .error exhausted s

/-- Trial after trial, until one succeeds or so many are made; `spent` is what happens then. -/
def attempt (trial : EStateM ε σ (Option α)) (spent : EStateM ε σ (Option α)) :
    (trials : Nat) → EStateM ε σ (Option α)
  | 0 => spent
  | trials + 1 => do
    match ← trial with
    | some value => pure (some value)
    | none => attempt trial spent trials

/-- The loop of one worker.  With a limit it gives up when the limit is reached; without one it
fails with `unended` when the step budget is spent. -/
def withinTrials (maxTrials : Option Int) (steps : Nat) (unended : ε)
    (trial : EStateM ε σ (Option α)) : EStateM ε σ (Option α) :=
  match maxTrials with
  | some most => attempt trial (pure none) most.toNat
  | none => attempt trial (throw unended) steps

end

end HiddenOrder
