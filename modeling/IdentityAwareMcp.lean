import IdentityAwareMcp.Safety.Leader
import IdentityAwareMcp.Safety.Window
import IdentityAwareMcp.Safety.Outage
import IdentityAwareMcp.Secrecy.Truncation
import IdentityAwareMcp.Safety.Refresh
import IdentityAwareMcp.Model.Membership
import IdentityAwareMcp.Safety.Freshness
import IdentityAwareMcp.Safety.Overtake
import IdentityAwareMcp.Model.ToolCall
import IdentityAwareMcp.Safety.Attribution
import IdentityAwareMcp.Model.McpProxy
import IdentityAwareMcp.Proxy.Forward
import IdentityAwareMcp.Safety.Partial
import IdentityAwareMcp.Safety.Critical
import IdentityAwareMcp.Safety.Single
import IdentityAwareMcp.Output.Cap
import IdentityAwareMcp.Coop.Alone
import IdentityAwareMcp.Safety.Pass
import IdentityAwareMcp.Safety.Ending
import IdentityAwareMcp.Path.Resolve
import IdentityAwareMcp.Workspace.Directory
import IdentityAwareMcp.Shell.Lexer
import IdentityAwareMcp.Shell.Words
import IdentityAwareMcp.Shell.Ends
import IdentityAwareMcp.Shell.Grammar
import IdentityAwareMcp.Workspace.Wrapper
import IdentityAwareMcp.Shell.Group
import IdentityAwareMcp.Shell.Semantics
import IdentityAwareMcp.Shell.Flat
import IdentityAwareMcp.Workspace.Group
import IdentityAwareMcp.Safety.Index
import IdentityAwareMcp.Rx.Pieces
import IdentityAwareMcp.Rx.Atomic
import IdentityAwareMcp.Secrecy.Masking
import IdentityAwareMcp.Coop.Staged
import IdentityAwareMcp.Safety.Creation
import IdentityAwareMcp.Safety.Views
import IdentityAwareMcp.Safety.Rounds
import IdentityAwareMcp.Safety.Noninterference
import IdentityAwareMcp.Control.Disk
import IdentityAwareMcp.Control.Keyspace
import IdentityAwareMcp.Safety.Provenance
import IdentityAwareMcp.Safety.Builds
import IdentityAwareMcp.Control.Walk
