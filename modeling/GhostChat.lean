import GhostChat.Lib.Effect
import GhostChat.Lib.Logged
import GhostChat.Lib.Odict
import GhostChat.Lib.Chain
import GhostChat.Lib.Run
import GhostChat.Lib.Term
import GhostChat.Lib.Window
import GhostChat.Ref.Py
import GhostChat.Ref.Kdf
import GhostChat.Ref.Ratchet
import GhostChat.Ref.Pair
import GhostChat.Ref.Steps
import GhostChat.Ref.Text
import GhostChat.Ref.Message
import GhostChat.Ref.Client
import GhostChat.Ref.SessionStore
import GhostChat.Ref.SendLoop
import GhostChat.Ref.Symbolic
import GhostChat.Ref.Sample
import GhostChat.Ref.Group
import GhostChat.Ref.GroupMessaging
import GhostChat.Ref.DoubleRatchet
import GhostChat.Ref.SessionManager
import GhostChat.Ref.SealedSender
import GhostChat.Ref.Prekey
import GhostChat.Ref.X3dh
import GhostChat.Ref.Startup
import GhostChat.Ref.Tasks
import GhostChat.Proofs.Calls
import GhostChat.Proofs.Rollback
import GhostChat.Proofs.Paths
import GhostChat.Proofs.Ledger
import GhostChat.Proofs.LedgerCalls
import GhostChat.Proofs.Uniqueness
import GhostChat.Proofs.Agreement
import GhostChat.Proofs.Honest
import GhostChat.Proofs.Mail
import GhostChat.Proofs.Conversation
import GhostChat.Proofs.Delivery
import GhostChat.Proofs.Late
import GhostChat.Proofs.Receive
import GhostChat.Proofs.Crash
import GhostChat.Proofs.Group
import GhostChat.Proofs.Secrecy
import GhostChat.Proofs.GroupNonces
import GhostChat.Proofs.Leaves
import GhostChat.Proofs.SessionCalls
import GhostChat.Proofs.Linked
import GhostChat.Proofs.Rejected
import GhostChat.Proofs.Sealed
import GhostChat.Proofs.Trail
import GhostChat.Proofs.Headers
import GhostChat.Proofs.X3dh
import GhostChat.Proofs.Prekeys
import GhostChat.Proofs.Fallback
import GhostChat.Proofs.Bundles
import GhostChat.Proofs.Established
import GhostChat.Proofs.Peers
import GhostChat.Proofs.Bounded
import GhostChat.Proofs.Once
import GhostChat.Ref.Duo
import GhostChat.Proofs.AnyOrder
import GhostChat.Proofs.Rotation
import GhostChat.Lib.Turns
import GhostChat.Proofs.Forks
import GhostChat.Ref.Lane
import GhostChat.Proofs.Hearing
import GhostChat.Proofs.Turning
import GhostChat.Proofs.Lanes
import GhostChat.Ref.ClientGroups
import GhostChat.Ref.MessageApi
import GhostChat.Proofs.Cover
import GhostChat.Proofs.Receivers
import GhostChat.Proofs.Room
import GhostChat.Proofs.GroupInbox
import GhostChat.Proofs.GroupDerived
import GhostChat.Proofs.Persistence
import GhostChat.Proofs.Copies
import GhostChat.Proofs.SessionPaths
import GhostChat.Ref.Relay
import GhostChat.Proofs.Registry
import GhostChat.Proofs.PendingInits
import GhostChat.Proofs.Routing
import GhostChat.Ref.Initiators
import GhostChat.Proofs.Initiators
import GhostChat.Proofs.Transcript
import GhostChat.Proofs.Forged
import GhostChat.Proofs.GroupAtomic
import GhostChat.Proofs.OpkAtomic
import GhostChat.Proofs.BundleFiles
import GhostChat.Proofs.InStep
import GhostChat.Proofs.Identities
import GhostChat.Proofs.Blocked
import GhostChat.Proofs.Unstored
import GhostChat.Proofs.Mixed
import GhostChat.Lib.Parse
import GhostChat.Proofs.SealedFormat
import GhostChat.Proofs.Canonical
import GhostChat.Proofs.Sendable
import GhostChat.Proofs.Corrupted
import GhostChat.Proofs.Malformed
import GhostChat.Proofs.GroupFiles
import GhostChat.Proofs.GroupLoading
import GhostChat.Proofs.Commitment
import GhostChat.Lib.HeapTree
import GhostChat.Proofs.Tree
import GhostChat.Lib.Attacker
import GhostChat.Proofs.Lasting
import GhostChat.Proofs.Eavesdropper
import GhostChat.Ref.GroupRatchet
import GhostChat.Proofs.Coalition
import GhostChat.Proofs.RatchetRoom
import GhostChat.Proofs.Severed
import GhostChat.Ref.SessionPair
import GhostChat.Proofs.SessionPair
import GhostChat.Ref.Mailbox
import GhostChat.Proofs.Mailbox
import GhostChat.Ref.Traffic
import GhostChat.Proofs.Traffic
import GhostChat.Proofs.Fifo
import GhostChat.Ref.TextChat
import GhostChat.Proofs.TextChat
import GhostChat.Ref.Dialogue
import GhostChat.Proofs.Dialogue
import GhostChat.Lib.Lossy
import GhostChat.Proofs.InLine
import GhostChat.Ref.Chat
import GhostChat.Proofs.Chat
