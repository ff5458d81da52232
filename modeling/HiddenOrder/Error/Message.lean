import HiddenOrder.Error
import HiddenOrder.Json.Display

/-!
# The wording of failures

Every failure has one text, and this is the only place where it stands.  Refused values are shown
as `Json.display` shows them.

* `Precondition.wording`, `Sought.wording`, `FailedCheck.wording` — the texts, with the integers in
  them.
* **`Error.message`** — the text of a failure.
* **`refuse`**, `unverified`, `exhausted` — how a failure with a text comes about.
-/

namespace HiddenOrder

/-- The name of a generator. -/
def Generator.name : Generator → String
  | .G => "G"
  | .H => "H"

/-- The text of a refused input. -/
def Precondition.wording : Precondition → Wording
  | .elementKind value => ["Elements must be bytes or str, got ", value.kind]
  | .decimal value => "Not a decimal integer: " :: value.display
  | .tag value => "Unsupported type " :: value.display
  | .fieldValue value => "Cannot deserialize " :: value.display
  | .fieldKind kind => ["Cannot serialize value of type ", kind]
  | .objectKind kind => ["Unsupported type ", kind]
  | .modulus N => ["Modulus must be at least 2, got ", N]
  | .baseNotInvertible base N => ["Base ", base, " is not invertible modulo ", N]
  | .notInvertible a N => [a, " is not invertible modulo ", N]
  | .jacobiModulus n => ["Jacobi symbol needs an odd positive modulus, got ", n]
  | .negativeRoot n => ["Square root of negative number ", n]
  | .samplingBound bound => ["Sampling bound must be positive, got ", bound]
  | .samplingRange low high => ["Empty sampling range [", low, ", ", high, "]"]
  | .bitCount k => ["Bit count must be positive, got ", k]
  | .negativeBytes x => ["Cannot byte-encode negative integer ", x]
  | .encoding n => ["Unknown encode type ", n]
  | .budget k => ["Parallelism budget must be non-negative, got ", k]
  | .lengths bases exponents =>
    ["bases and exponents must have same length: ", bases, " != ", exponents]
  | .squareRange m limit => [m, " is outside the square cache range [0, ", limit, "]"]
  | .gaussianDivision => ["Gaussian division by zero"]
  | .negativePower e => ["Exponent must be non-negative, got ", e]
  | .mixedParity r i j k =>
    spellOut "Doubled coordinates (" ") do not form a Hurwitz integer"
      ([r, i, j, k].map fun n => [.number n])
  | .hurwitzDivision => ["Hurwitz division by zero"]
  | .notPositive n => ["Expected a positive integer, got ", n]
  | .negative n => ["Expected a non-negative integer, got ", n]
  | .negativeSum n => ["Cannot decompose negative integer ", n]
  | .threeSquares n => ["Three-square decomposition needs n ≡ 1 mod 4, got ", n]
  | .groupModulus N => ["Modulus N must be at least 3, got ", N]
  | .generatorRange which value => [which.name, "=", value, " must lie in (1, N)"]
  | .generatorFactor which value => [which.name, "=", value, " is not coprime to N"]
  | .safePrimeBits least bits => ["Safe primes need at least ", least, " bits, got ", bits]
  | .setupBits least bits => ["N must have at least ", least, " bits, got ", bits]
  | .fourCommitments squares randomizers =>
    ["Expected 4 squares and 4 randomizers, got ", squares, " and ", randomizers]
  | .challengeBound bound => ["Challenge bound must be at least 2, got ", bound]
  | .poeExponent x => ["PoE exponent must be non-negative, got ", x]
  | .poeStatement => ["PoE statement base^x = C does not hold"]
  | .pokeStarStatement => ["PoKE* statement G^x = C does not hold"]
  | .zkpokeStatement => ["ZKPoKE statement u^x = w does not hold"]
  | .negativeValue x => ["Cannot prove non-negativity of ", x]
  | .valueBits most => ["Committed value exceeds ", most, " bits"]
  | .outsideInterval x a b => [x, " is not in [", a, ", ", b, "]"]
  | .accumulatorBase base => ["Base ", base, " must lie in (0, N)"]
  | .representative index e => ["Representative ", index, " must be positive, got ", e]
  | .elementIndex index count => ["Index ", index, " out of range for ", count, " elements"]

/-- What was looked for. -/
def Sought.wording : Sought → Wording
  | .fourSquares n => ["four-square witness for ", n]
  | .largeFourSquares n => ["large four-square witness for ", n]
  | .unconditionalFourSquares n => ["unconditional four-square witness for ", n]
  | .threeSquares n => ["three-square witness for ", n]
  | .safePrime bits => [bits, "-bit safe prime"]
  | .named what => [what]

/-- The text of a failed check. -/
def FailedCheck.wording : FailedCheck → Wording
  | .noAssociate r i j k =>
    spellOut "No integral associate found for HurwitzInt.from_doubled(" ")"
      ([r, i, j, k].map fun n => [.number n])
  | .fourSquares w n =>
    words "Four-square decomposition " :: showRoots "FourInt" w ++
      [words " does not sum to ", .number n]
  | .threeSquares w n =>
    words "Three-square decomposition " :: showRoots "ThreeInt" w ++
      [words " does not sum to ", .number n]

/-- The text of a fault. -/
def Fault.message : Fault → String
  | .entropySource => "the entropy source failed"
  | .divisionByZero => "division by zero"
  | .negativeShift => "negative shift count"
  | .numeral => "malformed numeral"
  | .longNumeral => "integer of too many digits"
  | .levelName => "not the name of a level"
  | .pieceSize => "pieces of size zero"
  | .negativeLength => "negative length"
  | .position => "position out of range"
  | .missingField name => "missing field " ++ name
  | .valueCount => "wrong number of values"
  | .wrongKind => "value of the wrong kind"
  | .notAnObject => "not an object"
  | .malformedJson => "malformed JSON"
  | .malformedBase64 => "malformed base64"
  | .foreignBase64 => "base64 must be ASCII"
  | .unencodable => "text without a byte form"

/-- The text of a failure. -/
def Error.message : Error → Text
  | .precondition cause => cause.wording.render
  | .trialFailed sought =>
    Wording.render (words "No " :: sought.wording ++ [words " found within the trial budget"])
  | .randomnessExhausted => .ofString "Entropy source failed"
  | .verificationFailed check => check.wording.render
  | .fault cause => .ofString cause.message
  | .outOfSteps => .ofString "step budget spent"

/-! ## Failing with a text

The text of a failure is written before anything fails with it.  When one of its integers is too
long, that is the failure, and nobody who waits for the other one sees it.
-/

section

variable [DigitLimit]

/-- A failure with its text, or the fault that the text cannot be written. -/
def Wording.failure (w : Wording) (e : Error) : Error :=
  match w.write with
  | .ok _ => e
  | .error fault => fault

/-- The failure that refuses an input. -/
def refuse (cause : Precondition) : Error := cause.wording.failure (.precondition cause)

/-- The failure of a check made before something is handed out. -/
def unverified (check : FailedCheck) : Error := check.wording.failure (.verificationFailed check)

/-- The failure of a search that finds nothing, named before the search begins. -/
def exhausted (sought : Sought) : Except Error Error := do
  let _ ← sought.wording.write
  pure (.trialFailed sought)

end

end HiddenOrder
