import IdentityAwareMcp.Model.Membership
import IdentityAwareMcp.Model.Redact
import IdentityAwareMcp.Model.Session

namespace IdentityAwareMcp

inductive StateKey where
  | userOid
  | sessionId
  | conversationId
  | userUpn
  | clientIp
  | correlationId
deriving DecidableEq

abbrev StateKey.Val : StateKey → Type
  | .userOid => Option Guid
  | _ => Option String

instance (k : StateKey) : DecidableEq k.Val := by
  cases k <;> exact inferInstanceAs (DecidableEq (Option _))

structure AuditEvent where
  correlationId : Option String
  tool : String
  group : Group
  userOid : Option Guid
  userUpn : Option String
  clientIp : Option String
  sessionId : Option String
  conversationId : Option String
  command : String
  explanation : Option String
  exitCode : Option Int
deriving DecidableEq

inductive AuditSink where
  | stdout
  | logAnalytics (endpoint ruleId stream : String)
deriving DecidableEq

-- The awaits of a tool call: those of the session resolver and of the group check, the
-- accesses to the state that the requests of one MCP session share, the executor and the sink.
inductive ToolOp where
  | session (o : Op)
  | graph (o : GroupOp)
  | setState (key : StateKey) (value : key.Val)
  | getState (key : StateKey)
  | newCorrelationId
  | exec (ctx : SessionCtx) (command : String)
  | currentSink
  | openSink (endpoint ruleId stream : String)
  | keepSink (sink : AuditSink)
  | logInfo (event : AuditEvent)
  | upload (event : AuditEvent)
deriving DecidableEq

abbrev ToolOp.Ans : ToolOp → Type
  | .session o => o.Ans
  | .graph o => o.Ans
  | .getState key => key.Val
  | .newCorrelationId => String
  | .exec _ _ => ExecResult
  | .currentSink => Option AuditSink
  | .openSink _ _ _ => AuditSink
  | _ => Unit

abbrev T (α : Type) := Coop.Task ToolOp ToolOp.Ans Exc α

def invoke (o : ToolOp) : T o.Ans := Coop.Task.perform o

def liftSession {α : Type} : M α → T α
  | .ret a => .ret a
  | .raise e => .raise e
  | .call o k => .call (.session o) (fun r => liftSession (k r))

def liftGraph {α : Type} : G α → T α
  | .ret a => .ret a
  | .raise e => .raise e
  | .call o k => .call (.graph o) (fun r => liftGraph (k r))

def swallow (p : T Unit) : T Unit := p.handle (fun e => if e.isException then .ret () else .raise e)

namespace Audit

-- AUDIT_DCR_ENDPOINT, AUDIT_DCR_RULE_ID and AUDIT_STREAM_NAME.
structure Settings where
  endpoint : Option String
  ruleId : Option String
  stream : String := "Custom-MCPAudit_CL"

def clientIp (xForwardedFor : Option String) : Option String :=
  match xForwardedFor with
  | none => none
  | some xff =>
    if xff = "" then none
    else
      let first := xff.toList.takeWhile (· ≠ ',')
      some (String.ofList (((first.dropWhile Redact.isSpace).reverse.dropWhile Redact.isSpace).reverse))

def getAuditSink (cfg : Settings) : T AuditSink := do
  match ← invoke .currentSink with
  | some sink => return sink
  | none =>
    if orElse cfg.endpoint "" ≠ "" ∧ orElse cfg.ruleId "" ≠ "" then
      let sink ← invoke (.openSink (orElse cfg.endpoint "") (orElse cfg.ruleId "") cfg.stream)
      invoke (.keepSink sink)
      return sink
    else
      invoke (.keepSink .stdout)
      return .stdout

def record (sink : AuditSink) (event : AuditEvent) : T Unit :=
  match sink with
  | .stdout => swallow (invoke (.logInfo event))
  | .logAnalytics _ _ _ => swallow (invoke (.upload event))

end Audit

structure FastmcpContext where
  sessionId : Option String
  requestId : Option String

-- The oid claim of a verified token is a GUID.
structure ToolCall where
  token : Option AccessToken
  oid : Option Guid
  claim : oidText oid = token.bind AccessToken.oid
  xForwardedFor : Option String
  fctx : FastmcpContext
  group : Group
  command : String
  explanation : Option String

structure Server where
  resolver : Option RedisBackend
  directory : Directory
  audit : Audit.Settings
  unicode : Redact.Unicode

def firstTruthy (a b : Option String) : Option String :=
  match a with
  | none => b
  | some s => if s = "" then b else some s

def ToolCall.upn (c : ToolCall) : Option String :=
  let claims := (c.token.bind AccessToken.claims).getD []
  firstTruthy (claims.lookup "preferred_username") (claims.lookup "upn")

variable (srv : Server)

def deriveIds (oid : Option Guid) (fctx : FastmcpContext) : T (Option String × Option String) :=
  match srv.resolver with
  | some b =>
    (liftSession (SessionResolver.resolve b oid fctx.sessionId fctx.requestId)).handle (fun e =>
      if e.isException then .ret (firstTruthy fctx.sessionId (oidText oid),fctx.requestId) else .raise e)
  | none => return (firstTruthy fctx.sessionId (oidText oid),fctx.requestId)

def onCallTool {α : Type} (c : ToolCall) (callNext : T α) : T α := do
  let ids ← deriveIds srv c.oid c.fctx
  invoke (.setState .userOid c.oid)
  invoke (.setState .sessionId ids.1)
  invoke (.setState .conversationId ids.2)
  invoke (.setState .userUpn c.upn)
  invoke (.setState .clientIp (Audit.clientIp c.xForwardedFor))
  let correlationId ← invoke .newCorrelationId
  invoke (.setState .correlationId (some correlationId))
  callNext

def redactFor (group : Group) (result : ExecResult) : ExecResult :=
  match group with
  | .action => Redact.redactResult srv.unicode result
  | .diagnose => result

def execTool (group : Group) (command : String) (explanation : Option String) : T ExecResult := do
  let correlationId ← invoke (.getState .correlationId)
  let userOid ← invoke (.getState .userOid)
  let sessionId ← invoke (.getState .sessionId)
  let conversationId ← invoke (.getState .conversationId)
  let sctx : SessionCtx := ⟨userOid,sessionId,conversationId,group,correlationId⟩
  let result ← invoke (.exec sctx command)
  let result := redactFor srv group result
  let sink ← Audit.getAuditSink srv.audit
  let userUpn ← invoke (.getState .userUpn)
  let clientIp ← invoke (.getState .clientIp)
  Audit.record sink ⟨correlationId,group.name ++ "_bash",group,sctx.userOid,userUpn,clientIp,sctx.sessionId,
    sctx.conversationId,command,explanation,result.exitCode⟩
  return result

-- A tool is run behind its group check, and the check behind the middleware.
def callTool (c : ToolCall) : T ExecResult :=
  onCallTool srv c (do
    let allowed ← liftGraph (match c.group with
      | .diagnose => requireDiagnose srv.directory c.token
      | .action => requireAction srv.directory c.token)
    if allowed then execTool srv c.group c.command c.explanation else .raise .other)

end IdentityAwareMcp
