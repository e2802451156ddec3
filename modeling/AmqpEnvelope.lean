import AmqpEnvelope.Copy
import AmqpEnvelope.Inspection
import AmqpEnvelope.Main
import AmqpEnvelope.Proofs.Decode.Confinement
import AmqpEnvelope.Proofs.Decode.Field
import AmqpEnvelope.Proofs.Decode.Kept
import AmqpEnvelope.Proofs.Decode.Limits
import AmqpEnvelope.Proofs.Decode.Offsets
import AmqpEnvelope.Proofs.Decode.Peeking
import AmqpEnvelope.Proofs.Decode.Policy
import AmqpEnvelope.Proofs.Decode.Progress
import AmqpEnvelope.Proofs.Decode.Reachable
import AmqpEnvelope.Proofs.Decode.Relocation
import AmqpEnvelope.Proofs.Decode.Scalar
import AmqpEnvelope.Proofs.Decode.Sealed
import AmqpEnvelope.Proofs.Decode.Skipping
import AmqpEnvelope.Proofs.Deferred.Pool
import AmqpEnvelope.Proofs.Framing.Deferred
import AmqpEnvelope.Proofs.Framing.Streams
import AmqpEnvelope.Proofs.Framing.Transparent
import AmqpEnvelope.Proofs.Outline.Lines
import AmqpEnvelope.Proofs.Outline.Streams
import AmqpEnvelope.Proofs.Registry.Alias
import AmqpEnvelope.Proofs.Registry.History
import AmqpEnvelope.Proofs.Registry.Standard
import AmqpEnvelope.Proofs.Settings.Layers
import AmqpEnvelope.Proofs.Text.ReadBack
import AmqpEnvelope.Proofs.Text.Symbol
import AmqpEnvelope.Proofs.Transaction.Report
import AmqpEnvelope.Proofs.Value.Equality
import AmqpEnvelope.Proofs.Written.Duration
import AmqpEnvelope.Proofs.Written.Shallow
import AmqpEnvelope.Proofs.Written.Signed
