import PqDtls.Lib.MerkleTree
import PqDtls.Lib.Deadline
import PqDtls.Lib.Ranking
import PqDtls.K2sn.U256
import PqDtls.K2sn.Cff
import PqDtls.K2sn.Ksnmss
import PqDtls.K2sn.VerifyProofs
import PqDtls.K2sn.TraversalProofs
import PqDtls.K2sn.AddressProofs
import PqDtls.K2sn.LTreeProofs
import PqDtls.K2sn.SignerBounds
import PqDtls.K2sn.OneTimeProofs
import PqDtls.K2sn.LimbProofs
import PqDtls.K2sn.RingPacking
import PqDtls.Lib.Program
import PqDtls.Lib.History
import PqDtls.Dtls.Numeric
import PqDtls.Dtls.Ccm
import PqDtls.Dtls.Crypto
import PqDtls.Dtls.Types
import PqDtls.Dtls.Record
import PqDtls.Dtls.Hello
import PqDtls.Dtls.Ntp
import PqDtls.Dtls.KeyExchange
import PqDtls.Dtls.Handshake
import PqDtls.Dtls.Engine
import PqDtls.Dtls.Frames
import PqDtls.Dtls.EngineFrames
import PqDtls.Dtls.Steps
import PqDtls.Dtls.Runs
import PqDtls.Dtls.Sending
import PqDtls.Dtls.Fragmentation
import PqDtls.Dtls.Cookies
import PqDtls.Dtls.Reassembly
import PqDtls.Dtls.SourceAuth
import PqDtls.Dtls.AppData
import PqDtls.Dtls.Tesla
import PqDtls.Dtls.TeslaSender
import PqDtls.Dtls.Codec
import PqDtls.Dtls.CookieExchange
import PqDtls.Dtls.TrustAnchor
import PqDtls.Dtls.Rejection
import PqDtls.Dtls.Stops
import PqDtls.Dtls.Peerless
import PqDtls.Dtls.Sound
import PqDtls.Dtls.Suites
import PqDtls.Dtls.Assertions
import PqDtls.Dtls.Slots
import PqDtls.Dtls.Epochs
import PqDtls.Dtls.Rekeying
import PqDtls.Dtls.Lifetime
import PqDtls.Dtls.ListWalks
import PqDtls.Dtls.Extensions
import PqDtls.Dtls.RecordBuffer
import PqDtls.Dtls.Trailer
import PqDtls.Dtls.SendErrors
import PqDtls.Dtls.Reconnect
import PqDtls.Dtls.Refusal
import PqDtls.Dtls.KeyChain
import PqDtls.Dtls.Disclosure
import PqDtls.Dtls.Nonces
import PqDtls.Dtls.IntervalEstimate
import PqDtls.Dtls.Prf
import PqDtls.Dtls.EcdsaSignature
import PqDtls.Dtls.Retransmission
import PqDtls.Dtls.RetransmitQueue
import PqDtls.Dtls.QueueMoves
import PqDtls.Dtls.QueueLinks
import PqDtls.Dtls.RetransmitRuns
import PqDtls.K2sn.Completeness
import PqDtls.Dtls.ClientSignatures
import PqDtls.Dtls.MessagePlace
import PqDtls.Dtls.MessageOrder
import PqDtls.Dtls.Completion
import PqDtls.Lib.BlockHash
import PqDtls.Lib.Sha256
import PqDtls.Sha2.Context
import PqDtls.Sha2.Transform
import PqDtls.Sha2.Streaming
import PqDtls.Dtls.Channel
import PqDtls.Dtls.RoundTrip
import PqDtls.Lib.Words
import PqDtls.Ecc.Field
import PqDtls.Ecc.FieldProofs
import PqDtls.Ecc.Inverse
import PqDtls.Ecc.Ecdsa
