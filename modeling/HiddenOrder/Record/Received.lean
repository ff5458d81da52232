import HiddenOrder.Record.Display

/-!
# Decoded values as received proofs

A decoded record is handed to a verifier as it is.  Each verifier looks for the fields of its own
kind of proof; a record of another kind lacks them.

* **`Value.datum`**, **`Value.sequence`** — a value where an integer, or a row of integers, is
  expected.  Roots and byte strings are rows too.
* **`Value.receivedPoE`**, … — a value where a proof is expected.
-/

namespace HiddenOrder

namespace Value

/-- A value where an integer is expected. -/
def datum : Value → Datum
  | .int n => .int n
  | v => .other v.display

/-- A value where a row of integers is expected. -/
def sequence : Value → Sequence
  | .tuple items => .items (items.map datum)
  | .four w => .ofInts w.toList
  | .three w => .ofInts w.toList
  | .bytes b => .ofInts (b.map fun d => d.toNat)
  | _ => .unsized

/-- A value where bytes are expected. -/
def bytes? : Value → Option Bytes
  | .bytes b => some b
  | _ => none

/-- A value where a proof of exponentiation is expected; a proof of knowledge has its field too. -/
def receivedPoE : Value → PoE.Received
  | .poe Q => ⟨some Q.datum⟩
  | .pokeStar Q _ => ⟨some Q.datum⟩
  | _ => ⟨none⟩

/-- A value where a proof of knowledge of an exponent is expected. -/
def receivedPoKEStar : Value → PoKEStar.Received
  | .pokeStar Q r => ⟨some Q.datum, some r.datum⟩
  | .poe Q => ⟨some Q.datum, none⟩
  | _ => ⟨none, none⟩

/-- A value where a zero-knowledge proof is expected. -/
def receivedZKPoKE : Value → ZKPoKE.Received
  | .zkpoke z Ag Au Qg Qu rx rrho =>
    ⟨some z.datum, some Ag.datum, some Au.datum, some Qg.datum, some Qu.datum, some rx.datum,
      some rrho.datum⟩
  | _ => ⟨none, none, none, none, none, none, none⟩

/-- A value where a proof of non-negativity is expected. -/
def receivedNonNegative : Value → NonNegative.Received
  | .nonNegative commitments delta z t tt =>
    ⟨some commitments.sequence, delta.bytes?, some z.sequence, some t.sequence, some tt.datum⟩
  | _ => .blank

/-- A value where an interval proof is expected. -/
def receivedInterval : Value → Interval.Received
  | .interval lower upper => ⟨lower.receivedNonNegative, upper.receivedNonNegative⟩
  | _ => .blank

/-- A proof of exponentiation is received as what it is. -/
theorem receivedPoE_ofPoE (p : PoE.Proof) : (ofPoE p).receivedPoE = p.received := rfl

/-- A proof of knowledge of an exponent is received as what it is. -/
theorem receivedPoKEStar_ofPoKEStar (p : PoKEStar.Proof) :
    (ofPoKEStar p).receivedPoKEStar = p.received := rfl

/-- A zero-knowledge proof is received as what it is. -/
theorem receivedZKPoKE_ofZKPoKE (p : ZKPoKE.Proof) :
    (ofZKPoKE p).receivedZKPoKE = p.received := rfl

/-- A row of integers is received as such. -/
theorem sequence_ints (ns : List Int) : (ints ns).sequence = .ofInts ns := by
  simp [ints, sequence, Sequence.ofInts, Function.comp_def, datum]

/-- A proof of non-negativity is received as what it is. -/
theorem receivedNonNegative_ofNonNegative (p : NonNegative.Proof) :
    (ofNonNegative p).receivedNonNegative = p.received := by
  simp [ofNonNegative, receivedNonNegative, NonNegative.Proof.received, sequence_ints, bytes?,
    datum]

/-- An interval proof is received as what it is. -/
theorem receivedInterval_ofInterval (p : Interval.Proof) :
    (ofInterval p).receivedInterval = p.received := by
  simp [ofInterval, receivedInterval, Interval.Proof.received, receivedNonNegative_ofNonNegative]

end Value

end HiddenOrder
