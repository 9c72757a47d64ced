import IdentityAwareMcp.Model.Session
import IdentityAwareMcp.Model.SandboxManager

namespace IdentityAwareMcp

-- The tasks that may run side by side, in whatever number and on whatever replica.
inductive Job where
  | getOrCreate (ctx : SessionCtx)
  | exec (ctx : SessionCtx) (command : String)
  | endSession (oid : Option Guid) (sessionId : Option String)
  | reaperRound

-- A tool call as a user makes it: the session is resolved, then the command is run.
structure Visit where
  oid : Option Guid
  transportSessionId : Option String
  requestId : Option String
  group : Group
  correlationId : Option String
  command : String

inductive Out where
  | client (c : Client)
  | result (r : ExecResult)
  | visited (sessionId : Option String) (c : Client) (r : ExecResult)
  | done
deriving DecidableEq

def Job.task (cfg : Config) : Job → M Out
  | .getOrCreate ctx => do return .client (← SandboxManager.getOrCreate cfg ctx)
  | .exec ctx command => do return .result (← SandboxManager.exec cfg ctx command)
  | .endSession oid sessionId => do
    SandboxManager.endSession cfg oid sessionId
    return .done
  | .reaperRound => do
    SandboxManager.reaperRound cfg
    return .done

namespace Visit

def conversationId (v : Visit) : Option String :=
  SessionResolver.conversationId v.transportSessionId v.requestId

def minted (v : Visit) (oid : Guid) (now : Nat) : String :=
  orElse v.transportSessionId (SessionResolver.shortOid oid) ++ "_" ++ toString now

def ctx (v : Visit) (sessionId conversationId : Option String) : SessionCtx :=
  ⟨v.oid,sessionId,conversationId,v.group,v.correlationId⟩

-- The body is that of exec, with the sandbox it ran in kept in view.
def task (cfg : Config) (v : Visit) : M Out := do
  let ids ← SessionResolver.resolve cfg.sessions v.oid v.transportSessionId v.requestId
  let client ← SandboxManager.getOrCreate cfg (v.ctx ids.1 ids.2)
  let result ← perform (.exec client (SandboxManager.wrap cfg (v.ctx ids.1 ids.2) v.command))
  return .visited ids.1 client (SandboxManager.capped cfg result)

end Visit

abbrev System := Coop.Sys Op Op.Ans Exc Nat World Out

abbrev Step := Coop.Label Op Op.Ans Exc Nat Hint Env

def World.empty (now : Nat) : World where
  now := now
  uuids := 0
  redis := fun _ => none
  made := []
  boxes := fun _ => none
  images := []
  locks := fun _ _ => none
  builtDisks := fun _ _ => none
  volumes := fun _ _ => false

def start (cfg : Config) (jobs : Nat → Job) (now : Nat) : System :=
  ⟨World.empty now,fun t => (jobs t).task cfg⟩

-- Tasks without a visit are reaper passes.
def startVisits (cfg : Config) (visits : Nat → Option Visit) (now : Nat) : System :=
  ⟨World.empty now,fun t => match visits t with
    | some v => v.task cfg
    | none => Job.task cfg .reaperRound⟩

end IdentityAwareMcp
