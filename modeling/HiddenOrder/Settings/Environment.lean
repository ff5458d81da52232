import HiddenOrder.Error
import HiddenOrder.Settings
import HiddenOrder.Text.Decimal

/-!
# Settings from the environment

Each setting has a variable.  A variable that is not set leaves its default; one that is set must
hold a numeral, and an empty text is none.  For the number of workers zero stands for the number of
processors, and for the number of trials it stands for no limit.

* **`Settings.ofEnvironment`** — the settings for given variables and a number of processors.
-/

namespace HiddenOrder

namespace Settings

/-- The value of a variable, if it is set. -/
def setting? (name : String) : List (Text × Text) → Option Text
  | [] => none
  | (key, value) :: rest => if key = Text.ofString name then some value else setting? name rest

variable [DigitLimit]

/-- The number that a variable holds, or a default when it is not set. -/
def number (env : List (Text × Text)) (name : String) (default : Int) : Except Error Int :=
  match setting? name env with
  | none => .ok default
  | some value =>
    match Decimal.read value with
    | some n => .ok n
    | none => .error (.fault .numeral)

/-- The first number unless it is zero or absent, and otherwise the second. -/
def orElse (n : Option Int) (other : Int) : Int :=
  match n with
  | some n => if n = 0 then other else n
  | none => other

/-- The settings for given variables and a number of processors; an unknown one counts as one. -/
def ofEnvironment (env : List (Text × Text)) (cpus : Option Int) : Except Error Settings := do
  let rsaBits ← number env "RSA_ACC_BITS" standard.rsaBits
  let securityParam ← number env "RSA_ACC_SECURITY_PARAM" standard.securityParam
  let hashToPrimeRounds ← number env "RSA_ACC_HASH_ROUNDS" standard.hashToPrimeRounds
  let challengePrimeRounds ←
    number env "RSA_ACC_CHALLENGE_ROUNDS" standard.challengePrimeRounds
  let safePrimeRounds ← number env "RSA_ACC_SAFE_PRIME_ROUNDS" standard.safePrimeRounds
  let workers ← number env "RSA_ACC_WORKERS" 0
  let maxTrials ← number env "RSA_ACC_MAX_TRIALS" 0
  let largeBits ← number env "RSA_ACC_LARGE_BITS" standard.largeBits
  let logLevel := (setting? "RSA_ACC_LOG_LEVEL" env).bind Text.toString?
  pure {
    rsaBits, securityParam, hashToPrimeRounds, challengePrimeRounds, safePrimeRounds, largeBits
    workers := orElse (some workers) (orElse cpus 1)
    maxTrials := if maxTrials = 0 then none else some maxTrials
    logLevel := logLevel.getD standard.logLevel }

end Settings

end HiddenOrder
