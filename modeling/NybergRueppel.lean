import NybergRueppel.Main
import NybergRueppel.Proofs.Calls.History
import NybergRueppel.Proofs.Calls.Session
import NybergRueppel.Proofs.Checked.ByteCodecs
import NybergRueppel.Proofs.Checked.Modular
import NybergRueppel.Proofs.Checked.Numerals
import NybergRueppel.Proofs.Checked.Origin
import NybergRueppel.Proofs.Checked.Requests
import NybergRueppel.Proofs.Checked.Shift
import NybergRueppel.Proofs.CommandLine.RoundTrip
import NybergRueppel.Proofs.Exchange.Json
import NybergRueppel.Proofs.Exchange.PointRoundTrip
import NybergRueppel.Proofs.Exchange.Precedence
import NybergRueppel.Proofs.Field.Inversion
import NybergRueppel.Proofs.Field.Powers
import NybergRueppel.Proofs.Group.PointImport
import NybergRueppel.Proofs.Montgomery.Accumulator
import NybergRueppel.Proofs.Montgomery.Constants
import NybergRueppel.Proofs.Montgomery.ShiftAndAdd
import NybergRueppel.Proofs.Signature.BitFlips
import NybergRueppel.Proofs.Signature.Equations
import NybergRueppel.Proofs.Signature.Representative
import NybergRueppel.Proofs.SlotPool.PrivateArrays
