import IdentityAwareMcp.Model.Cache
import IdentityAwareMcp.Model.Command
import IdentityAwareMcp.Model.Redact

namespace IdentityAwareMcp

structure Config where
  tenantId : String
  groupNames : Group → String
  spAppIds : Group → String
  sessionTtl : Nat
  defaultSubscription : String
  diskId : Option String
  diskImage : Option String
  diskPublic : String
  cpu : String
  memory : String
  autoSuspendSeconds : Nat
  autoDeleteSeconds : Nat
  blobContainerResourceId : Option String
  blobMountpoint : String
  index : Bool
  redisClient : Bool
  distributedLock : Bool
  lockTtl : Nat
  reaperLease : Nat
  maxOutputBytes : Nat
  uaIncludeOid : Bool
  unicode : Redact.Unicode

namespace Config

def sessions (cfg : Config) : RedisBackend := ⟨some cfg.sessionTtl,"mcp"⟩

def profiles (_ : Config) : RedisBackend := ⟨none,"mcp"⟩

def indexBackend (_ : Config) : RedisBackend := ⟨none,"mcp:sbxidx"⟩

def blobEnabled (cfg : Config) : Bool := cfg.blobContainerResourceId.isSome

end Config

def exceptException {α : Type} (p : M α) (h : Exc → M α) : M α :=
  p.handle (fun e => if e.isException then h e else .raise e)

def withLock {α : Type} (key : String) (p : M α) : M α := do
  perform (.acquire key)
  p.ensuring (perform (.release key))

def waitFor {α : Type} : M α → M α
  | .ret a => .ret a
  | .raise e => .raise (if e = .deadline then .timeout else e)
  | .call o k => .call ⟨o.cmd,true⟩ (fun r => waitFor (k r))

def labelSafe (u : Redact.Unicode) (value : Option String) : String :=
  match value with
  | none => "none"
  | some s =>
    if s = "" then "none"
    else String.ofList ((s.toList.map (fun c => if u.isAlnum c then c else '-')).take 63)

namespace SandboxManager

variable (cfg : Config)

def withDlock {α : Type} (key : String) (p : M α) : M α := do
  if !cfg.distributedLock || !cfg.redisClient then p
  else
    let got ← exceptException (perform (.lockRedis ("lock:" ++ key) cfg.lockTtl)) (fun _ => return false)
    p.ensuring (do
      if got then exceptException (perform (.unlockRedis ("lock:" ++ key))) (fun _ => return ()))

def redisSafe {α : Type} (p : M α) (default : α) : M α := exceptException p (fun _ => return default)

def routingKey (ctx : SessionCtx) : String :=
  fmt (oidText ctx.userOid) ++ ":" ++ fmt ctx.sessionId ++ ":" ++ ctx.group.name

def userSubscription (oid : Option Guid) : M String := do
  match oid with
  | none => return cfg.defaultSubscription
  | some g =>
    match ← UserProfileCache.get cfg.profiles g.text with
    | some (.profile (some s)) => if s = "" then return cfg.defaultSubscription else return s
    | _ => return cfg.defaultSubscription

def usable (img : DiskImage) : Bool := img.state = some "Ready" || img.state = some "Succeeded"

def reuseDiskImage (groupName : String) : M (Option String) := do
  let images ← perform (.listDiskImages groupName)
  match List.find? usable images with
  | some img =>
    perform (.builtDiskPut groupName img.id)
    return some img.id
  | none => return none

def ensureDiskImage (group : Group) (image : String) : M String :=
  withLock ("diskimage:" ++ cfg.groupNames group) (do
    let built ← perform (.builtDiskGet (cfg.groupNames group))
    match orElse built "" with
    | "" =>
      match ← exceptException (reuseDiskImage (cfg.groupNames group)) (fun _ => return none) with
      | some id => return id
      | none =>
        let id ← perform (.beginCreateDiskImage (cfg.groupNames group) image)
        perform (.pollDiskImage (cfg.groupNames group) id)
        perform (.builtDiskPut (cfg.groupNames group) id)
        return id
    | cached => return cached)

def resolveDisk (group : Group) : M Disk := do
  if orElse cfg.diskId "" ≠ "" then return .diskId (orElse cfg.diskId "")
  else if orElse cfg.diskImage "" ≠ "" then
    let id ← ensureDiskImage cfg group (orElse cfg.diskImage "")
    return .diskId id
  else return .disk cfg.diskPublic

def ensureVolume (group : Group) (container : String) : M Unit := do
  let seen ← perform (.volumeSeen (cfg.groupNames group))
  if seen then return ()
  else withLock ("volume:" ++ cfg.groupNames group) (do
    let seen ← perform (.volumeSeen (cfg.groupNames group))
    if seen then return ()
    else
      (perform (.createVolume (cfg.groupNames group) container)).handle (fun e =>
        if e.isHttp && e.statusCode = some 409 then .ret () else .raise e)
      perform (.volumeAdd (cfg.groupNames group)))

def workspaceVolumes (group : Group) : M (Option String) := do
  match cfg.blobContainerResourceId with
  | none => return none
  | some container =>
    ensureVolume cfg group container
    return some cfg.blobMountpoint

def applyIdleAutodelete (client : Client) : M Unit :=
  exceptException (perform (.setLifecyclePolicy client cfg.autoDeleteSeconds)) (fun _ => return ())

def createSandbox (ctx : SessionCtx) (group : Group) : M Client := do
  let disk ← resolveDisk cfg group
  let labels : Labels := ⟨labelSafe cfg.unicode (oidText ctx.userOid),labelSafe cfg.unicode ctx.sessionId,group.name⟩
  let subscription ← userSubscription cfg ctx.userOid
  let environment : Environment := ⟨cfg.spAppIds group,cfg.tenantId,subscription⟩
  let volumes ← workspaceVolumes cfg group
  let client ← perform (.beginCreate (cfg.groupNames group)
    ⟨labels,environment,cfg.cpu,cfg.memory,cfg.autoSuspendSeconds,volumes,disk⟩)
  perform (.pollCreate client)
  applyIdleAutodelete cfg client
  return client

def bootstrap (client : Client) : M Unit := do
  let result ← perform (.exec client bootstrapCommand)
  if RawResult.exitCode result ≠ 0 then
    -- the log line slices stderr, and below strips stdout
    match RawResult.stderr result with
    | some _ => .raise (.bootstrapFailed (RawResult.exitCode result))
    | none => .raise .other
  else
    match RawResult.stdout result with
    | some _ => return ()
    | none => .raise .other

-- The hit path: none when there is no binding, or the bound sandbox is gone.
def reuse (ctx : SessionCtx) : M (Option Client) := do
  let sandboxId ← redisSafe
    (SessionSandboxCache.get cfg.sessions (oidText ctx.userOid) ctx.sessionId ctx.group.name) none
  match sandboxId with
  | none => return none
  | some id =>
    let client : Client := ⟨cfg.groupNames ctx.group,id⟩
    Coop.Task.handle (do
      perform (.ensureRunning client)
      return some client) (fun e =>
        if e = .notFound then do
          redisSafe (SessionSandboxCache.delete cfg.sessions (oidText ctx.userOid) ctx.sessionId
            ctx.group.name) ()
          return none
        else .raise e)

def setUp (ctx : SessionCtx) (client : Client) : M Client := do
  redisSafe (SessionSandboxCache.set cfg.sessions (oidText ctx.userOid) ctx.sessionId ctx.group.name
    client.sandboxId) ()
  if cfg.index then
    redisSafe (cfg.indexBackend.set client.sandboxId
      (.binding (oidText ctx.userOid) ctx.sessionId ctx.group.name)) ()
  let already ← redisSafe (SessionSandboxCache.isBootstrapped cfg.sessions client.sandboxId) false
  if already then return client
  else
    bootstrap client
    redisSafe (SessionSandboxCache.markBootstrapped cfg.sessions client.sandboxId) ()
    return client

def getOrCreate (ctx : SessionCtx) : M Client :=
  withLock (routingKey ctx) (withDlock cfg (routingKey ctx) (do
    match ← reuse cfg ctx with
    | some client => return client
    | none =>
      let client ← waitFor (createSandbox cfg ctx ctx.group)
      exceptException (setUp cfg ctx client) (fun e => do
        redisSafe (SessionSandboxCache.delete cfg.sessions (oidText ctx.userOid) ctx.sessionId
          ctx.group.name) ()
        .raise e)))

-- The identifiers of a call as strings, whatever they hold.
structure CallIds where
  userOid : Option String
  sessionId : Option String
  conversationId : Option String
  correlationId : Option String

def callIds (ctx : SessionCtx) : CallIds := ⟨oidText ctx.userOid,ctx.sessionId,ctx.conversationId,ctx.correlationId⟩

def workspaceDir (ids : CallIds) : String :=
  cfg.blobMountpoint ++ "/" ++ WorkspaceLayout.conversationPrefix ids.userOid ids.sessionId ids.conversationId

def scopeToWorkspace (ids : CallIds) (command : String) : String :=
  if !cfg.blobEnabled then command
  else
    let q := Shlex.quote (workspaceDir cfg ids)
    "mkdir -p " ++ q ++ " && cd " ++ q ++ " && \x7b " ++ command ++ "\n\x7d"

def wrapText (ids : CallIds) (command : String) : String :=
  let inWorkspace := scopeToWorkspace cfg ids command
  match ids.correlationId with
  | none => inWorkspace
  | some cid =>
    if cid = "" then inWorkspace
    else "export AZURE_HTTP_USER_AGENT=" ++ Shlex.quote (buildUserAgent cfg.uaIncludeOid cid ids.userOid) ++
      "\n" ++ inWorkspace

def wrap (ctx : SessionCtx) (command : String) : String := wrapText cfg (callIds ctx) command

def capped (result : RawResult) : ExecResult :=
  let out := cap cfg.maxOutputBytes (result.stdout.getD [])
  let err := cap cfg.maxOutputBytes (result.stderr.getD [])
  ⟨some result.exitCode,if out.2 || err.2 then out.1 ++ truncateHint cfg.maxOutputBytes else out.1,err.1,
    out.2 || err.2⟩

def exec (ctx : SessionCtx) (command : String) : M ExecResult := do
  let client ← getOrCreate cfg ctx
  let result ← perform (.exec client (wrap cfg ctx command))
  return capped cfg result

def endGroups (oid : Option Guid) (sessionId : Option String) : List Group → M Unit
  | [] => return ()
  | group :: rest => do
    match ← SessionSandboxCache.peek cfg.sessions (oidText oid) sessionId group.name with
    | none => endGroups oid sessionId rest
    | some id =>
      Coop.Task.ensuring
        ((perform (.beginDelete ⟨cfg.groupNames group,id⟩)).handle (fun e =>
          if e = .notFound then .ret () else .raise e))
        (do
          SessionSandboxCache.delete cfg.sessions (oidText oid) sessionId group.name
          if cfg.index then cfg.indexBackend.delete id)
      endGroups oid sessionId rest

def endSession (oid : Option Guid) (sessionId : Option String) : M Unit :=
  endGroups cfg oid sessionId Group.all

inductive Lease where
  | noLease
  | token (n : Nat)
deriving DecidableEq

def leaderKey : String := "mcp:reaper:leader"

def tryBecomeReaper : M (Option Lease) := do
  if !cfg.distributedLock || !cfg.redisClient then return some .noLease
  else
    let n ← perform .uuid
    exceptException (do
      let got ← perform (.setNx leaderKey (.token n) cfg.reaperLease)
      return if got then some (.token n) else none) (fun _ => return some .noLease)

def resignReaper (lease : Lease) : M Unit :=
  match lease with
  | .noLease => return ()
  | .token n =>
    if cfg.redisClient then
      exceptException (perform (.evalRelease leaderKey (.token n))) (fun _ => return ())
    else return ()

def reapOne (groupName id : String) : M Unit := do
  match ← cfg.indexBackend.get id with
  | none => return ()
  | some (.binding oid session group) =>
    let live ← SessionSandboxCache.peek cfg.sessions oid session group
    if live = some id then return ()
    else
      (perform (.beginDelete ⟨groupName,id⟩)).handle (fun e =>
        if e = .notFound then .ret () else .raise e)
      cfg.indexBackend.delete id
  | some _ => .raise .other

def reapListed (groupName : String) : List String → M Unit
  | [] => return ()
  | id :: rest => do
    reapOne cfg groupName id
    reapListed groupName rest

def reapGroup (group : Group) : M Unit :=
  exceptException (do
    let ids ← perform (.listSandboxes (cfg.groupNames group))
    reapListed cfg (cfg.groupNames group) ids) (fun _ => return ())

def reapGroups : List Group → M Unit
  | [] => return ()
  | group :: rest => do
    reapGroup cfg group
    reapGroups rest

def reapOrphans : M Unit :=
  if !cfg.index then return () else reapGroups cfg Group.all

-- One turn of the reaper loop, after its sleep.
def reaperRound : M Unit :=
  exceptException (do
    match ← tryBecomeReaper cfg with
    | none => return ()
    | some lease => (reapOrphans cfg).ensuring (resignReaper cfg lease)) (fun _ => return ())

end SandboxManager

end IdentityAwareMcp
