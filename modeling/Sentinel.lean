import Sentinel.Agent.Agent
import Sentinel.Agent.ApprovalQueue
import Sentinel.Agent.Cancel
import Sentinel.Agent.Decisions
import Sentinel.Agent.HandOff
import Sentinel.Agent.HelperUi
import Sentinel.Agent.Inputs
import Sentinel.Agent.Isolation
import Sentinel.Agent.Progress
import Sentinel.Agent.QueueHistory
import Sentinel.Agent.Session
import Sentinel.Agent.Task
import Sentinel.Base.Clap
import Sentinel.Base.Expiry
import Sentinel.Base.Int32
import Sentinel.Base.KeyValue
import Sentinel.Base.Logfmt
import Sentinel.Base.Logged
import Sentinel.Base.Program
import Sentinel.Base.Shell
import Sentinel.Base.Str
import Sentinel.Base.Sweep
import Sentinel.Base.Transition
import Sentinel.Base.Undo
import Sentinel.Base.Utf8
import Sentinel.Base.Window
import Sentinel.Broker.KeyStrings
import Sentinel.Broker.Postcard
import Sentinel.Broker.Proto
import Sentinel.Broker.Store
import Sentinel.Broker.Stream
import Sentinel.Broker.Threads
import Sentinel.Kde.Controller
import Sentinel.Kde.Helper
import Sentinel.Packaging.Fallback
import Sentinel.Packaging.Install
import Sentinel.Packaging.Reinstall
import Sentinel.Packaging.Rollback
import Sentinel.Packaging.Session
import Sentinel.Packaging.Stack
import Sentinel.Packaging.Wiring
import Sentinel.Pam.AgentBypass
import Sentinel.Pam.Authenticate
import Sentinel.Pam.Environment
import Sentinel.Pam.Faults
import Sentinel.Pam.Helper
import Sentinel.Pam.HelperEnv
import Sentinel.Pam.ProcInfo
import Sentinel.Pam.Truncation
import Sentinel.Shared.Argv
import Sentinel.Shared.Cli
import Sentinel.Shared.Command
import Sentinel.Shared.Config
import Sentinel.Shared.Environ
import Sentinel.Shared.Getopt
import Sentinel.Shared.LogKv
import Sentinel.Shared.Message
import Sentinel.Shared.Procfs
import Sentinel.System.Approvals
import Sentinel.System.AuditLog
import Sentinel.System.AuditTrail
import Sentinel.System.Bypass
import Sentinel.System.Checkbox
import Sentinel.System.Clicks
import Sentinel.System.Defaults
import Sentinel.System.Elevation
import Sentinel.System.Gateways
import Sentinel.System.Grants
import Sentinel.System.Language
import Sentinel.System.Policy
import Sentinel.System.SessionFragment
import Sentinel.System.SessionTrail
import Sentinel.System.Spawn
import Sentinel.System.Startup
import Sentinel.System.Stores
import Sentinel.System.Terminal
import Sentinel.System.Verdicts
