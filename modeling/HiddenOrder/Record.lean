import HiddenOrder.Bytes
import HiddenOrder.Group.Parameters
import HiddenOrder.Json
import HiddenOrder.Protocol.Interval
import HiddenOrder.Protocol.PoE
import HiddenOrder.Protocol.PoKEStar
import HiddenOrder.Protocol.ZKPoKE
import HiddenOrder.Squares.Tuple

/-!
# Records

Group parameters, proofs and tuples of roots are written down as records: a tag, and a value for
each field.  A record that comes from outside is accepted whenever its tag is known and its fields
are there; what stands in a field need not be what a proof would hold there.  So the fields of a
record are values again, and only group parameters, whose conditions are checked on the way in,
hold integers for certain.

* **`Value`** — an integer, bytes, a tuple of values, or a record of one of eight kinds.
* `Value.ofPoE`, … — the proofs of the library as values.

How a value appears to a verifier is the subject of `HiddenOrder.Record.Received`.
-/

namespace HiddenOrder

/-- What a field of a record can hold, records included. -/
inductive Value where
  /-- An integer. -/
  | int (n : Int)
  /-- A byte string. -/
  | bytes (b : Bytes)
  /-- A tuple. -/
  | tuple (items : List Value)
  /-- Four roots. -/
  | four (w : FourInt)
  /-- Three roots. -/
  | three (w : ThreeInt)
  /-- Group parameters. -/
  | group (pp : GroupParameters)
  /-- A proof of exponentiation. -/
  | poe (Q : Value)
  /-- A proof of knowledge of an exponent. -/
  | pokeStar (Q r : Value)
  /-- A zero-knowledge proof of knowledge of an exponent. -/
  | zkpoke (z Ag Au Qg Qu rx rrho : Value)
  /-- A proof that a committed value is not negative. -/
  | nonNegative (commitments delta z t tt : Value)
  /-- A proof that a committed value lies in an interval. -/
  | interval (lower upper : Value)
  /-- A value that no record is made of. -/
  | foreign (value : Json)

namespace Value

/-! ## Proofs as values -/

/-- A tuple of integers. -/
def ints (ns : List Int) : Value := .tuple (ns.map .int)

/-- A proof of exponentiation as a value. -/
def ofPoE (p : PoE.Proof) : Value := .poe (.int p.Q)

/-- A proof of knowledge of an exponent as a value. -/
def ofPoKEStar (p : PoKEStar.Proof) : Value := .pokeStar (.int p.Q) (.int p.r)

/-- A zero-knowledge proof as a value. -/
def ofZKPoKE (p : ZKPoKE.Proof) : Value :=
  .zkpoke (.int p.z) (.int p.Ag) (.int p.Au) (.int p.Qg) (.int p.Qu) (.int p.rx) (.int p.rrho)

/-- A proof of non-negativity as a value. -/
def ofNonNegative (p : NonNegative.Proof) : Value :=
  .nonNegative (ints p.commitments) (.bytes p.delta) (ints p.z) (ints p.t) (.int p.tt)

/-- An interval proof as a value. -/
def ofInterval (p : Interval.Proof) : Value :=
  .interval (ofNonNegative p.lower) (ofNonNegative p.upper)

end Value

end HiddenOrder
