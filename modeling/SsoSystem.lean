import SsoSystem.Permission.IsolationTheorems
import SsoSystem.Tenancy.ConnectionTheorems
import SsoSystem.Tenancy.TenantKeyTheorems
import SsoSystem.Http.RefreshFamily
import SsoSystem.Http.OneTime
import SsoSystem.Permission.OwnershipTheorems
import SsoSystem.Http.Challenges
import SsoSystem.Http.Revocation
import SsoSystem.Raft.ProxyTheorems
import SsoSystem.Raft.ElectionTheorems
import SsoSystem.Storage.RedisTheorems
import SsoSystem.Strategy.LocationTheorems
import SsoSystem.Permission.EffectTheorems
import SsoSystem.Permission.RuleOwnership
import SsoSystem.Strategy.AbacThreads
import SsoSystem.Permission.FieldFilter
import SsoSystem.Http.Escalation
import SsoSystem.Http.SecondFactor
import SsoSystem.Strategy.NumberTheorems
import SsoSystem.Strategy.TruncationTheorems
import SsoSystem.Permission.AuditChainTheorems
import SsoSystem.Logger
import SsoSystem.Http.Passwords
import SsoSystem.Permission.RoleGrantTheorems
import SsoSystem.Storage.BackendTheorems
import SsoSystem.Storage.LinkTheorems
import SsoSystem.Storage.UniquenessTheorems
import SsoSystem.Storage.Listing
import SsoSystem.Tenancy.RedisPool
import SsoSystem.Storage.RedisRevocation
import SsoSystem.Storage.SqliteUsers
import SsoSystem.Token.NonceTheorems
import SsoSystem.RateLimiter
import SsoSystem.ThreadPool
import SsoSystem.Intern
import SsoSystem.Http.TotpTheorems
