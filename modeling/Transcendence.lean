import Transcendence.Realtime.ProjectLockRuns
import Transcendence.Realtime.LeaseFencing
import Transcendence.Realtime.MembershipFencing
import Transcendence.Realtime.Rooms
import Transcendence.Realtime.CoordinationOrder
import Transcendence.Realtime.LockEvents
import Transcendence.Realtime.SessionRegistry
import Transcendence.Relationships.Consent
import Transcendence.Relationships.Blocks
import Transcendence.Relationships.Announcements
import Transcendence.Projects.AssigneesAreMembers
import Transcendence.Discovery.BlockStatus
import Transcendence.Evaluation.Completions
import Transcendence.Evaluation.Progress
import Transcendence.Accounts.OneOwner
import Transcendence.Tasks.ListSemantics
import Transcendence.Tasks.Audit
import Transcendence.Tasks.BoardAgreement
import Transcendence.Tasks.Convergence
import Transcendence.Kanban.Density
import Transcendence.Kanban.Drags
import Transcendence.Auth.ConcurrentRefresh
import Transcendence.Auth.ApiTokenCap
import Transcendence.Auth.ApiTokenLifecycle
import Transcendence.Auth.SingleUseTickets
import Transcendence.Auth.CallbackLaws
import Transcendence.Auth.TransitSignatures
import Transcendence.Auth.Passwords
import Transcendence.Auth.ReturnPaths
import Transcendence.Auth.LogoutRuns
import Transcendence.Auth.TokenTimes
import Transcendence.Auth.LoginTokens
import Transcendence.Auth.RateLimiter
import Transcendence.Auth.WriteRateLimit
import Transcendence.Vault.TransientFailures
import Transcendence.Vault.CachedKeys
import Transcendence.Calendar.DateRanges
import Transcendence.Content.Caps
import Transcendence.Chat.ReadMarks
import Transcendence.Chat.KeptConversation
import Transcendence.Accounts.AvatarRemovals
import Transcendence.Chat.UnreadStore
import Transcendence.Projects.SavedDetails
import Transcendence.Projects.MemberRemoval
import Transcendence.Session.SignedOut
import Transcendence.Session.CurrentTokens
import Transcendence.Session.NeverStalls
import Transcendence.Search.Pagination
import Transcendence.Search.Agreement
import Transcendence.Session.BearerFetch
import Transcendence.Session.SingleFlight
import Transcendence.Tasks.OtherBoards
import Transcendence.PublicApi.Requests
import Transcendence.PublicApi.Evidence
import Transcendence.PublicApi.Isolation
import Transcendence.PublicApi.RevokedTokens
import Transcendence.Accounts.OwnerBackfill
import Transcendence.Vault.LeasedClients
import Transcendence.Realtime.SocketLifetimes
import Transcendence.PublicApi.AccountableTokens
