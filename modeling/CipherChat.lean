import CipherChat.Symbolic.Term
import CipherChat.Text.Utf
import CipherChat.Text.Number
import CipherChat.Async.Interleaving
import CipherChat.Ratchet.Secrecy
import CipherChat.Service.Outcomes
import CipherChat.Service.Atomicity
import CipherChat.Service.Reuse
import CipherChat.Service.Shredding
import CipherChat.Service.Verification
import CipherChat.Rooms.Delivery
import CipherChat.Rooms.Retries
import CipherChat.Rooms.Sync
import CipherChat.Client.Paths
import CipherChat.Client.Removals
import CipherChat.Client.Rounds
import CipherChat.Reconnect.CatchUp
import CipherChat.Reconnect.Cursor
import CipherChat.Infra.RateLimiter
import CipherChat.Auth.Retention
import CipherChat.Auth.Revocation
import CipherChat.Auth.SharedSession
import CipherChat.Auth.BackupCodes
import CipherChat.Rooms.Invitations
import CipherChat.Rooms.Ownership
import CipherChat.Rooms.Watermarks
import CipherChat.Dm.Replays
import CipherChat.Presence.Convergence
import CipherChat.Notifications.Mentions
import CipherChat.Store.WrappingKey
import CipherChat.Wire.Accepted
import CipherChat.Search.Shredding
import CipherChat.Ratchet.Work
import CipherChat.Service.Work
import CipherChat.Wire.Aad
import CipherChat.Wire.Sealing
import CipherChat.Socket.Subscriptions
import CipherChat.Socket.Listeners
import CipherChat.Socket.Acks
import CipherChat.Paging.History
import CipherChat.Auth.Totp
import CipherChat.Crypto.RecoveryCode
import CipherChat.Dm.Conversation
import CipherChat.Presence.RosterBroadcaster
import CipherChat.Dm.Strictness
import CipherChat.Auth.CodeReplay
import CipherChat.Client.DmContent
import CipherChat.Presence.Agreement
import CipherChat.Privacy.PiiGuard
import CipherChat.Text.Language
import CipherChat.Privacy.Redaction
import CipherChat.Privacy.Tokens
import CipherChat.Privacy.Passes
import CipherChat.Privacy.Rehydrate
import CipherChat.Privacy.Reversible
import CipherChat.Client.DeviceOwner
import CipherChat.Service.BackupRuns
import CipherChat.Ratchet.Interleavings
import CipherChat.Ratchet.Theft
import CipherChat.Ratchet.Quiescence
import CipherChat.Vault.Browsers
import CipherChat.Vault.Calls
import CipherChat.Vault.Chains
import CipherChat.Vault.KeyReuse
