import HiddenOrder.Json

/-!
# What can go wrong

Four kinds of failure belong to the library, and a fifth gathers the faults that reach a caller
from the layer below without being recast.  Every failure is named by its cause and carries the
values it is about; the wording is the business of `HiddenOrder.Error.Message`.

* **`Precondition`** — an input of the wrong shape, rejected at once and never retried.
* **`Sought`** — what a randomized search was after when its trials were spent.
* **`FailedCheck`** — a freshly computed object that did not pass its own check.
* **`Fault`** — a fault of the layer below: an entropy source that fails in the middle of prime
  generation, a shift by a negative count, an integer too long to be written, a malformed record.
* **`Error`** — all of them, and `outOfSteps`: the step budget of a search without a bound of its
  own was spent before the search ended.  It is no outcome of the search, only of watching it
  for so long.
-/

namespace HiddenOrder

/-- Which of the two generators of a group a failure is about. -/
inductive Generator where
  /-- The generator that carries the committed value. -/
  | G
  /-- The generator that carries the randomness. -/
  | H
deriving DecidableEq, Repr

/-- The ways an input can have the wrong shape. -/
inductive Precondition where
  /-- A modulus below two. -/
  | modulus (N : Int)
  /-- A negative exponent over a base that has no inverse. -/
  | baseNotInvertible (base N : Int)
  /-- A value without an inverse. -/
  | notInvertible (a N : Int)
  /-- A Jacobi symbol over a modulus that is even or not positive. -/
  | jacobiModulus (n : Int)
  /-- A square root of a negative number. -/
  | negativeRoot (n : Int)
  /-- A sampling bound that is not positive. -/
  | samplingBound (bound : Int)
  /-- A sampling range that ends before it begins. -/
  | samplingRange (low high : Int)
  /-- A bit count that is not positive. -/
  | bitCount (k : Int)
  /-- A negative integer given to the byte encoding. -/
  | negativeBytes (x : Int)
  /-- An element that is neither a text nor bytes. -/
  | elementKind (value : Json)
  /-- An encoding that does not exist. -/
  | encoding (tag : Int)
  /-- A negative parallelism budget. -/
  | budget (budget : Int)
  /-- Bases and exponents of different lengths. -/
  | lengths (bases exponents : Nat)
  /-- A number outside the range of the square cache. -/
  | squareRange (m limit : Int)
  /-- Division by the zero Gaussian integer. -/
  | gaussianDivision
  /-- A negative power of a Gaussian integer. -/
  | negativePower (e : Int)
  /-- Doubled coordinates of mixed parity. -/
  | mixedParity (r i j k : Int)
  /-- Division by the zero quaternion. -/
  | hurwitzDivision
  /-- A number that had to be positive. -/
  | notPositive (n : Int)
  /-- A number that had to be at least zero. -/
  | negative (n : Int)
  /-- A negative number given to the four-square search. -/
  | negativeSum (n : Int)
  /-- A number outside the class one modulo four given to the three-square search. -/
  | threeSquares (n : Int)
  /-- A group modulus below three. -/
  | groupModulus (N : Int)
  /-- A generator outside the open interval from one to the modulus. -/
  | generatorRange (which : Generator) (value : Int)
  /-- A generator that shares a factor with the modulus. -/
  | generatorFactor (which : Generator) (value : Int)
  /-- Too few bits for a safe prime. -/
  | safePrimeBits (least : Nat) (bits : Int)
  /-- Too few bits for a group modulus. -/
  | setupBits (least : Nat) (bits : Int)
  /-- A number of roots or randomizers other than four. -/
  | fourCommitments (squares randomizers : Nat)
  /-- A challenge bound below two. -/
  | challengeBound (bound : Int)
  /-- A negative exponent in a proof of exponentiation. -/
  | poeExponent (x : Int)
  /-- A false statement given to the proof of exponentiation. -/
  | poeStatement
  /-- A false statement given to the proof of knowledge of an exponent. -/
  | pokeStarStatement
  /-- A false statement given to the zero-knowledge proof. -/
  | zkpokeStatement
  /-- A negative value where a proof of non-negativity was asked for. -/
  | negativeValue (x : Int)
  /-- A committed value of too many bits. -/
  | valueBits (most : Nat)
  /-- A value outside the interval to be proved. -/
  | outsideInterval (x a b : Int)
  /-- An accumulator base outside the open interval from zero to the modulus. -/
  | accumulatorBase (base : Int)
  /-- A representative that is not positive. -/
  | representative (index : Nat) (e : Int)
  /-- An element index out of range. -/
  | elementIndex (index : Int) (count : Nat)
  /-- A value that is no decimal numeral. -/
  | decimal (value : Json)
  /-- A field value of a kind that has no serialized form; the word for the kind. -/
  | fieldKind (kind : String)
  /-- An object of a kind that has no serialized form; the word for the kind. -/
  | objectKind (kind : String)
  /-- A record whose tag is not known; the tag. -/
  | tag (value : Json)
  /-- A field value that no field can hold. -/
  | fieldValue (value : Json)

/-- What a randomized search is after. -/
inductive Sought where
  /-- Four squares with this sum. -/
  | fourSquares (n : Int)
  /-- Four squares with this sum, by the variant for large numbers. -/
  | largeFourSquares (n : Int)
  /-- Four squares with this sum, by the variant without assumptions. -/
  | unconditionalFourSquares (n : Int)
  /-- Three squares with this sum. -/
  | threeSquares (n : Int)
  /-- A safe prime of this many bits. -/
  | safePrime (bits : Int)
  /-- Something its caller has a name for. -/
  | named (what : String)

/-- A computed object that failed the check made before it is handed out. -/
inductive FailedCheck where
  /-- A half-integer quaternion, by its doubled coordinates, without an integral associate. -/
  | noAssociate (r i j k : Int)
  /-- Four roots whose squares do not have the sum asked for. -/
  | fourSquares (w : List Int) (n : Int)
  /-- Three roots whose squares do not have the sum asked for. -/
  | threeSquares (w : List Int) (n : Int)

/-- A fault of the layer below. -/
inductive Fault where
  /-- The entropy source failed while a prime was generated. -/
  | entropySource
  /-- A division by zero. -/
  | divisionByZero
  /-- A shift by a negative count. -/
  | negativeShift
  /-- A numeral that cannot be read. -/
  | numeral
  /-- An integer with too many digits to be written down. -/
  | longNumeral
  /-- A name that is known, but not as the name of a level. -/
  | levelName
  /-- A list cut into pieces of size zero. -/
  | pieceSize
  /-- A range that ends before it begins was asked for its length. -/
  | negativeLength
  /-- A position outside a list. -/
  | position
  /-- A record without one of its fields; the field's name. -/
  | missingField (name : String)
  /-- A tuple record with the wrong number of values. -/
  | valueCount
  /-- A value of a kind that the operation does not accept. -/
  | wrongKind
  /-- A record that is no object, or a proof without the field asked for. -/
  | notAnObject
  /-- A malformed JSON text. -/
  | malformedJson
  /-- A base64 text of the wrong length or with misplaced padding. -/
  | malformedBase64
  /-- A base64 text that is not ASCII. -/
  | foreignBase64
  /-- A text that holds half of a surrogate pair and has no bytes. -/
  | unencodable
deriving DecidableEq, Repr

/-- A failure. -/
inductive Error where
  /-- The input has the wrong shape. -/
  | precondition (cause : Precondition)
  /-- The trials of a search were spent without a witness. -/
  | trialFailed (sought : Sought)
  /-- The entropy source failed. -/
  | randomnessExhausted
  /-- A computed object did not pass its own check. -/
  | verificationFailed (check : FailedCheck)
  /-- A fault of the layer below. -/
  | fault (cause : Fault)
  /-- The step budget was spent before the computation ended. -/
  | outOfSteps

end HiddenOrder
