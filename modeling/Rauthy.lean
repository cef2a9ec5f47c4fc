import Rauthy.Account
import Rauthy.AdminApi
import Rauthy.AdminClaims
import Rauthy.AmrClaims
import Rauthy.ApiAccess
import Rauthy.ApiKeyCache
import Rauthy.Atomicity
import Rauthy.AttrCaches
import Rauthy.Attributes
import Rauthy.AuthProviders
import Rauthy.AuthorizePage
import Rauthy.Backups
import Rauthy.BasicAuth
import Rauthy.BearerTokens
import Rauthy.Bootstrap
import Rauthy.CacheTickets
import Rauthy.Ceremonies
import Rauthy.Cleanups
import Rauthy.ClientJwks
import Rauthy.ClientLogin
import Rauthy.ClientMetadata
import Rauthy.ClientUpdates
import Rauthy.CodeRedemption
import Rauthy.Columns
import Rauthy.Credentials
import Rauthy.CustomClaims
import Rauthy.DPoP
import Rauthy.Deletions
import Rauthy.DeviceCodes
import Rauthy.DeviceExpiry
import Rauthy.DeviceFlow
import Rauthy.DevicePolling
import Rauthy.DeviceRaces
import Rauthy.DeviceWarnings
import Rauthy.Devices
import Rauthy.DisabledClients
import Rauthy.DisabledProviders
import Rauthy.DisabledUsers
import Rauthy.DynamicClients
import Rauthy.Emails
import Rauthy.Encryption
import Rauthy.Endpoints
import Rauthy.EventListener
import Rauthy.EventRouter
import Rauthy.Federation
import Rauthy.Handlers
import Rauthy.IpBlacklist
import Rauthy.KeyRotation
import Rauthy.Lib.Base64
import Rauthy.Lib.FormUrl
import Rauthy.Lib.Guards
import Rauthy.Lib.Keyset
import Rauthy.Lib.Tickets
import Rauthy.LinkCookie
import Rauthy.LinkRaces
import Rauthy.Locations
import Rauthy.LoginDelay
import Rauthy.LoginRuns
import Rauthy.LoginScopes
import Rauthy.Logout
import Rauthy.Migration
import Rauthy.Nonces
import Rauthy.Notices
import Rauthy.OneTime
import Rauthy.Origins
import Rauthy.Pagination
import Rauthy.PasskeyLinks
import Rauthy.Passkeys
import Rauthy.PasswordChanges
import Rauthy.PasswordHasher
import Rauthy.PasswordHistory
import Rauthy.PasswordPolicies
import Rauthy.PasswordReset
import Rauthy.Pkce
import Rauthy.Pointwise
import Rauthy.Principal
import Rauthy.QuietSteps
import Rauthy.RateLimit
import Rauthy.RedirectUris
import Rauthy.RefreshFlow
import Rauthy.RefreshRaces
import Rauthy.RefreshRotation
import Rauthy.Renames
import Rauthy.ResetRequests
import Rauthy.Revocation
import Rauthy.RoleNames
import Rauthy.ScopeLists
import Rauthy.SelfUpdates
import Rauthy.SessionStore
import Rauthy.SessionWriters
import Rauthy.SigningKeys
import Rauthy.Thumbprints
import Rauthy.TokenLifetimes
import Rauthy.UpstreamCallbacks
import Rauthy.UserCacheKeys
import Rauthy.UserCaches
import Rauthy.UserCounter
import Rauthy.Userinfo
