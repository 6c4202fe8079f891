import TabbySync.Library.AutoTable
import TabbySync.Library.Crash
import TabbySync.Library.FileSystem
import TabbySync.Library.Interleaving
import TabbySync.Library.Json
import TabbySync.Library.Replace
import TabbySync.Library.Rfc3339
import TabbySync.Library.Script
import TabbySync.Library.Text
import TabbySync.Library.TokenBucket
import TabbySync.Library.Wrapper
import TabbySync.Store.Contract
import TabbySync.Crypto.Envelope
import TabbySync.Store.Sqlite
import TabbySync.Store.Encrypted
import TabbySync.Store.VersionToken
import TabbySync.Store.IdempotentUpdate
import TabbySync.Store.PatchSerial
import TabbySync.Store.SemanticClock
import TabbySync.Store.SequentialPatch
import TabbySync.Store.BoundedRetries
import TabbySync.Store.Plaintext
import TabbySync.Store.Shutdown
import TabbySync.Store.TamperResistance
import TabbySync.Store.Transactions
import TabbySync.Store.Atomicity
import TabbySync.Store.Migrations
import TabbySync.Auth.Users
import TabbySync.Auth.Reload
import TabbySync.Cli.UserCommands
import TabbySync.Cli.Loadability
import TabbySync.Cli.UserIds
import TabbySync.Cli.ConcurrentCommands
import TabbySync.Cli.AtomicWrite
import TabbySync.Cli.Revocation
import TabbySync.Cli.Bootstrap
import TabbySync.Cli.Startup
import TabbySync.Cli.Scrub
import TabbySync.Cli.Doctor
import TabbySync.Cli.NameLookup
import TabbySync.Cli.Credentials
import TabbySync.Cli.Setup
import TabbySync.Api.Handlers
import TabbySync.Api.Isolation
import TabbySync.Api.Quota
import TabbySync.Api.ConfigNames
import TabbySync.Api.StrictBody
import TabbySync.Server.StatusRecorder
import TabbySync.Server.Handler
import TabbySync.Server.Mediation
import TabbySync.Server.RateLimit
import TabbySync.Server.BodyLimit
import TabbySync.Server.Lifecycle
import TabbySync.Server.Service
import TabbySync.Server.Responses
import TabbySync.Server.Tenants
import TabbySync.Server.Budgets
import TabbySync.Keys.FileProvider
import TabbySync.Keys.Agreement
import TabbySync.Keys.CrashAtomicity
import TabbySync.Ops.Backup
import TabbySync.Ops.Container
import TabbySync.Ops.Restore
import TabbySync.Ops.RoundTrip
