import PrivateLift.Bytes.Lemmas
import PrivateLift.Document.Records
import PrivateLift.Document.Results
import PrivateLift.Simulation.Session
import PrivateLift.Text.Hex
import PrivateLift.Wire.Records
import PrivateLift.Proofs.BitMatrix.Blocks
import PrivateLift.Proofs.Columns.Reveal
import PrivateLift.Proofs.Dealer.Soundness
import PrivateLift.Proofs.Party.Secrecy
import PrivateLift.Proofs.Party.Sharing
import PrivateLift.Proofs.Row.RoundTrip
import PrivateLift.Proofs.Session.Agreement
import PrivateLift.Proofs.Share.Hiding
import PrivateLift.Proofs.Share.Lossless
import PrivateLift.Proofs.Simulation.Verdict
import PrivateLift.Proofs.UnionMap.Shuffle
import PrivateLift.Proofs.UnionMap.Unbiased
import PrivateLift.Proofs.Packing.Slots
import PrivateLift.Proofs.BitMatrix.Received
import PrivateLift.Proofs.Input
import PrivateLift.Proofs.Columns.Decoded
import PrivateLift.Proofs.Columns.Outcome
import PrivateLift.Proofs.Row.Layout
import PrivateLift.Proofs.Packing.Kept
import PrivateLift.Proofs.Row.Access
import PrivateLift.Proofs.UnionMap.Validation
