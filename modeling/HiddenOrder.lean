import HiddenOrder.Accumulator.Batch
import HiddenOrder.Digest.Sha256
import HiddenOrder.Entropy.Seeded
import HiddenOrder.Error.Message
import HiddenOrder.Group.Setup
import HiddenOrder.Group.Trusted
import HiddenOrder.Log
import HiddenOrder.Proofs.Batch
import HiddenOrder.Proofs.Binding
import HiddenOrder.Proofs.Borrows
import HiddenOrder.Proofs.CacheCalls
import HiddenOrder.Proofs.Candidates
import HiddenOrder.Proofs.Canonical
import HiddenOrder.Proofs.Coherent
import HiddenOrder.Proofs.Cofactor
import HiddenOrder.Proofs.CommonDivisor
import HiddenOrder.Proofs.Extraction
import HiddenOrder.Proofs.FirstPrime
import HiddenOrder.Proofs.ForkedTasks
import HiddenOrder.Proofs.FreshParameters
import HiddenOrder.Proofs.Generators
import HiddenOrder.Proofs.History
import HiddenOrder.Proofs.Interval
import HiddenOrder.Proofs.Json
import HiddenOrder.Proofs.Malformed
import HiddenOrder.Proofs.MembershipTree
import HiddenOrder.Proofs.NearestQuotient
import HiddenOrder.Proofs.NonResidue
import HiddenOrder.Proofs.NonUnits
import HiddenOrder.Proofs.Presieve
import HiddenOrder.Proofs.PrimitiveDivisor
import HiddenOrder.Proofs.Provers
import HiddenOrder.Proofs.QuaternionStore
import HiddenOrder.Proofs.Race
import HiddenOrder.Proofs.Record
import HiddenOrder.Proofs.Representative
import HiddenOrder.Proofs.Root
import HiddenOrder.Proofs.RoundTrip
import HiddenOrder.Proofs.Schedule
import HiddenOrder.Proofs.Setup
import HiddenOrder.Proofs.Sieve
import HiddenOrder.Proofs.ShortestBytes
import HiddenOrder.Proofs.SourceFailure
import HiddenOrder.Proofs.Transcript
import HiddenOrder.Proofs.Trials
import HiddenOrder.Proofs.Unconditional
import HiddenOrder.Proofs.UniqueAnswers
import HiddenOrder.Proofs.UnitSquares
import HiddenOrder.Proofs.Verdicts
import HiddenOrder.Proofs.ZKPoKE
import HiddenOrder.Record.Decode
import HiddenOrder.Record.Encode
import HiddenOrder.Record.Received
import HiddenOrder.Settings.Environment
import HiddenOrder.Squares.Three
