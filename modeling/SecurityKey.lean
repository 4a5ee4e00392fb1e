import SecurityKey.OpenPgp.Fingerprint
import SecurityKey.OpenPgp.Session
import SecurityKey.Piv.Session
import SecurityKey.Proofs.Apdu.Command
import SecurityKey.Proofs.Attempts.Reports
import SecurityKey.Proofs.Background.Reports
import SecurityKey.Proofs.Background.Settlement
import SecurityKey.Proofs.Background.SingleFlight
import SecurityKey.Proofs.Background.Threads
import SecurityKey.Proofs.Background.Tokens
import SecurityKey.Proofs.Cbor.Reencoding
import SecurityKey.Proofs.Ctap.Answers
import SecurityKey.Proofs.Ctap.Requests
import SecurityKey.Proofs.Exchange.Losses
import SecurityKey.Proofs.Exchange.Refinement
import SecurityKey.Proofs.Exchange.Transcript
import SecurityKey.Proofs.Fido.AttemptGate
import SecurityKey.Proofs.Fido.Attribution
import SecurityKey.Proofs.Fido.Conveyance
import SecurityKey.Proofs.Fido.Exclusion
import SecurityKey.Proofs.Fido.FreshPins
import SecurityKey.Proofs.Fido.Probing
import SecurityKey.Proofs.Fido.ProtocolIndependence
import SecurityKey.Proofs.Fido.Reconnection
import SecurityKey.Proofs.Fido.RejectedTokens
import SecurityKey.Proofs.Fido.RepeatedSubmission
import SecurityKey.Proofs.Fido.StoredPins
import SecurityKey.Proofs.Fido.UserVerification
import SecurityKey.Proofs.Hid.Correlation
import SecurityKey.Proofs.Hid.Fragmentation
import SecurityKey.Proofs.Hid.Gathering
import SecurityKey.Proofs.Hid.Noise
import SecurityKey.Proofs.Hid.Ownership
import SecurityKey.Proofs.Hid.Retries
import SecurityKey.Proofs.OpenPgp.PinChanges
import SecurityKey.Proofs.OpenPgp.PinLengths
import SecurityKey.Proofs.OpenPgp.Verification
import SecurityKey.Simulated.HidDevice
import SecurityKey.Simulated.Schedule
import SecurityKey.Proofs.Fido.RegisterParsing
import SecurityKey.Proofs.Piv.Tlv
import SecurityKey.Proofs.Piv.Templates
import SecurityKey.Proofs.Cbor.Narrowing
import SecurityKey.Proofs.OpenPgp.Preimage
import SecurityKey.Proofs.Cbor.Integers
import SecurityKey.Proofs.Cbor.Extension
import SecurityKey.Proofs.Piv.PinFields
