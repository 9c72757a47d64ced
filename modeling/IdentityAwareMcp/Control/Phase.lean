import IdentityAwareMcp.Model.Job

namespace IdentityAwareMcp

open SandboxManager

variable (cfg : Config)

def sessionKey (oid sessionId : Option String) (group : String) : String :=
  cfg.sessions.k (SessionSandboxCache.key oid sessionId group)

def indexKey (id : String) : String := cfg.indexBackend.k id

def flagKey (id : String) : String := cfg.sessions.k (SessionSandboxCache.bootstrappedKey id)

def ctxKey (ctx : SessionCtx) : String := sessionKey cfg (oidText ctx.userOid) ctx.sessionId ctx.group.name

def lockKey (ctx : SessionCtx) : String := "lock:" ++ routingKey ctx

-- The awaits of one call, each named after the command that comes next.
inductive Stage where
  | start
  | wait
  | look
  | refresh (c : Client)
  | wake (c : Client)
  | unbind
  | prep
  | poll (c : Client)
  | policy (c : Client)
  | publish (c : Client)
  | record (c : Client)
  | flag (c : Client)
  | boot (c : Client)
  | mark (c : Client)
  | rollback
  | unlock (res : Option Client)
  | leave (res : Option Client)
  | left (res : Option Client)
  | done (c : Client)

def Leaving (res : Option Client) (st : Stage) : Prop := st = .unlock res ∨ st = .leave res

def Preparing (ctx : SessionCtx) : Cmd → Prop
  | .acquire k => k = "diskimage:" ++ cfg.groupNames ctx.group ∨ k = "volume:" ++ cfg.groupNames ctx.group
  | .release k => k = "diskimage:" ++ cfg.groupNames ctx.group ∨ k = "volume:" ++ cfg.groupNames ctx.group
  | .get k => ∃ oid, k = cfg.profiles.k (UserProfileCache.key oid)
  | .builtDiskGet _ => True
  | .builtDiskPut _ _ => True
  | .volumeSeen _ => True
  | .volumeAdd _ => True
  | .createVolume _ _ => True
  | .listDiskImages _ => True
  | .beginCreateDiskImage _ _ => True
  | .pollDiskImage _ _ => True
  | _ => False

inductive CallMove (ctx : SessionCtx) (command : Option String) :
    Stage → (o : Op) → Except Exc o.Ans → Stage → Prop
  | acquired (u : Unit) : CallMove ctx command .start ⟨.acquire (routingKey ctx),false⟩ (.ok u) .wait
  | acquiredAlone (u : Unit) : CallMove ctx command .start ⟨.acquire (routingKey ctx),false⟩ (.ok u) .look
  | gaveUp (e : Exc) : CallMove ctx command .start ⟨.acquire (routingKey ctx),false⟩ (.error e) (.left none)
  | locked (got : Bool) : CallMove ctx command .wait ⟨.lockRedis (lockKey ctx) cfg.lockTtl,false⟩ (.ok got) .look
  | lockFailed (e : Exc) : e.isException = true →
      CallMove ctx command .wait ⟨.lockRedis (lockKey ctx) cfg.lockTtl,false⟩ (.error e) .look
  | lockCut (e : Exc) : e.isException = false →
      CallMove ctx command .wait ⟨.lockRedis (lockKey ctx) cfg.lockTtl,false⟩ (.error e) (.leave none)
  | hit (v : Option Value) (id : String) : v.bind Value.asText = some id →
      CallMove ctx command .look ⟨.get (ctxKey cfg ctx),false⟩ (.ok v) (.refresh ⟨cfg.groupNames ctx.group,id⟩)
  | miss (v : Option Value) : v.bind Value.asText = none →
      CallMove ctx command .look ⟨.get (ctxKey cfg ctx),false⟩ (.ok v) .prep
  | lookFailed (e : Exc) : e.isException = true →
      CallMove ctx command .look ⟨.get (ctxKey cfg ctx),false⟩ (.error e) .prep
  | lookCut (e : Exc) (st : Stage) : e.isException = false → Leaving none st →
      CallMove ctx command .look ⟨.get (ctxKey cfg ctx),false⟩ (.error e) st
  | refreshed (c : Client) (u : Unit) : CallMove ctx command (.refresh c)
      ⟨.set (ctxKey cfg ctx) (.text c.sandboxId) cfg.sessions.ttl,false⟩ (.ok u) (.wake c)
  | refreshFailed (c : Client) (e : Exc) : e.isException = true → CallMove ctx command (.refresh c)
      ⟨.set (ctxKey cfg ctx) (.text c.sandboxId) cfg.sessions.ttl,false⟩ (.error e) .prep
  | refreshCut (c : Client) (e : Exc) (st : Stage) : e.isException = false → Leaving none st →
      CallMove ctx command (.refresh c)
        ⟨.set (ctxKey cfg ctx) (.text c.sandboxId) cfg.sessions.ttl,false⟩ (.error e) st
  | woken (c : Client) (u : Unit) (st : Stage) : Leaving (some c) st →
      CallMove ctx command (.wake c) ⟨.ensureRunning c,false⟩ (.ok u) st
  | stale (c : Client) : CallMove ctx command (.wake c) ⟨.ensureRunning c,false⟩ (.error .notFound) .unbind
  | wakeFailed (c : Client) (e : Exc) (st : Stage) : e ≠ .notFound → Leaving none st →
      CallMove ctx command (.wake c) ⟨.ensureRunning c,false⟩ (.error e) st
  | unbound (u : Unit) : CallMove ctx command .unbind ⟨.del (ctxKey cfg ctx),false⟩ (.ok u) .prep
  | unbindFailed (e : Exc) : e.isException = true →
      CallMove ctx command .unbind ⟨.del (ctxKey cfg ctx),false⟩ (.error e) .prep
  | unbindCut (e : Exc) (st : Stage) : e.isException = false → Leaving none st →
      CallMove ctx command .unbind ⟨.del (ctxKey cfg ctx),false⟩ (.error e) st
  | prepared (c : Cmd) (r : Except Exc c.Ans) : Preparing cfg ctx c →
      CallMove ctx command .prep ⟨c,true⟩ r .prep
  | prepFailed (c : Cmd) (r : Except Exc c.Ans) (st : Stage) : Preparing cfg ctx c → Leaving none st →
      CallMove ctx command .prep ⟨c,true⟩ r st
  | began (spec : Spec) (c : Client) : spec.environment.spAppId = cfg.spAppIds ctx.group →
      CallMove ctx command .prep ⟨.beginCreate (cfg.groupNames ctx.group) spec,true⟩ (.ok c) (.poll c)
  | beginFailed (spec : Spec) (e : Exc) (st : Stage) : spec.environment.spAppId = cfg.spAppIds ctx.group →
      Leaving none st →
      CallMove ctx command .prep ⟨.beginCreate (cfg.groupNames ctx.group) spec,true⟩ (.error e) st
  | created (c : Client) (u : Unit) : CallMove ctx command (.poll c) ⟨.pollCreate c,true⟩ (.ok u) (.policy c)
  | createFailed (c : Client) (e : Exc) (st : Stage) : Leaving none st →
      CallMove ctx command (.poll c) ⟨.pollCreate c,true⟩ (.error e) st
  | policySet (c : Client) (u : Unit) : CallMove ctx command (.policy c)
      ⟨.setLifecyclePolicy c cfg.autoDeleteSeconds,true⟩ (.ok u) (.publish c)
  | policyFailed (c : Client) (e : Exc) : e.isException = true → CallMove ctx command (.policy c)
      ⟨.setLifecyclePolicy c cfg.autoDeleteSeconds,true⟩ (.error e) (.publish c)
  | policyCut (c : Client) (e : Exc) (st : Stage) : e.isException = false → Leaving none st →
      CallMove ctx command (.policy c) ⟨.setLifecyclePolicy c cfg.autoDeleteSeconds,true⟩ (.error e) st
  | published (c : Client) (r : Except Exc Unit) (st : Stage) : (∀ e, r = .error e → e.isException = true) →
      st = (if cfg.index then .record c else .flag c) → CallMove ctx command (.publish c)
        ⟨.set (ctxKey cfg ctx) (.text c.sandboxId) cfg.sessions.ttl,false⟩ r st
  | publishCut (c : Client) (e : Exc) (st : Stage) : e.isException = false → Leaving none st →
      CallMove ctx command (.publish c)
        ⟨.set (ctxKey cfg ctx) (.text c.sandboxId) cfg.sessions.ttl,false⟩ (.error e) st
  | recorded (c : Client) (r : Except Exc Unit) : (∀ e, r = .error e → e.isException = true) →
      CallMove ctx command (.record c) ⟨.set (indexKey cfg c.sandboxId)
        (.binding (oidText ctx.userOid) ctx.sessionId ctx.group.name) none,false⟩ r (.flag c)
  | recordCut (c : Client) (e : Exc) (st : Stage) : e.isException = false → Leaving none st →
      CallMove ctx command (.record c) ⟨.set (indexKey cfg c.sandboxId)
        (.binding (oidText ctx.userOid) ctx.sessionId ctx.group.name) none,false⟩ (.error e) st
  | flagged (c : Client) (st : Stage) : Leaving (some c) st →
      CallMove ctx command (.flag c) ⟨.get (flagKey cfg c.sandboxId),false⟩ (.ok (some (.flag true))) st
  | unflagged (c : Client) (v : Option Value) : v ≠ some (.flag true) →
      CallMove ctx command (.flag c) ⟨.get (flagKey cfg c.sandboxId),false⟩ (.ok v) (.boot c)
  | flagFailed (c : Client) (e : Exc) : e.isException = true →
      CallMove ctx command (.flag c) ⟨.get (flagKey cfg c.sandboxId),false⟩ (.error e) (.boot c)
  | flagCut (c : Client) (e : Exc) (st : Stage) : e.isException = false → Leaving none st →
      CallMove ctx command (.flag c) ⟨.get (flagKey cfg c.sandboxId),false⟩ (.error e) st
  | booted (c : Client) (res : RawResult) : res.boots = true →
      CallMove ctx command (.boot c) ⟨.exec c bootstrapCommand,false⟩ (.ok res) (.mark c)
  | bootRefused (c : Client) (res : RawResult) : res.boots = false →
      CallMove ctx command (.boot c) ⟨.exec c bootstrapCommand,false⟩ (.ok res) .rollback
  | bootFailed (c : Client) (e : Exc) : e.isException = true →
      CallMove ctx command (.boot c) ⟨.exec c bootstrapCommand,false⟩ (.error e) .rollback
  | bootCut (c : Client) (e : Exc) (st : Stage) : e.isException = false → Leaving none st →
      CallMove ctx command (.boot c) ⟨.exec c bootstrapCommand,false⟩ (.error e) st
  | marked (c : Client) (r : Except Exc Unit) (st : Stage) : (∀ e, r = .error e → e.isException = true) →
      Leaving (some c) st → CallMove ctx command (.mark c)
        ⟨.set (flagKey cfg c.sandboxId) (.flag true) cfg.sessions.ttl,false⟩ r st
  | markCut (c : Client) (e : Exc) (st : Stage) : e.isException = false → Leaving none st →
      CallMove ctx command (.mark c)
        ⟨.set (flagKey cfg c.sandboxId) (.flag true) cfg.sessions.ttl,false⟩ (.error e) st
  | rolledBack (r : Except Exc Unit) (st : Stage) : Leaving none st →
      CallMove ctx command .rollback ⟨.del (ctxKey cfg ctx),false⟩ r st
  | unlocked (res : Option Client) (r : Except Exc Unit) : (∀ e, r = .error e → e.isException = true) →
      CallMove ctx command (.unlock res) ⟨.unlockRedis (lockKey ctx),false⟩ r (.leave res)
  | unlockCut (res : Option Client) (e : Exc) : e.isException = false →
      CallMove ctx command (.unlock res) ⟨.unlockRedis (lockKey ctx),false⟩ (.error e) (.leave none)
  | released (res : Option Client) (u : Unit) :
      CallMove ctx command (.leave res) ⟨.release (routingKey ctx),false⟩ (.ok u) (.left res)
  | releaseFailed (res : Option Client) (e : Exc) :
      CallMove ctx command (.leave res) ⟨.release (routingKey ctx),false⟩ (.error e) (.left none)
  | ran (c : Client) (cmd : String) (res : RawResult) : command = some cmd →
      CallMove ctx command (.left (some c)) ⟨.exec c cmd,false⟩ (.ok res) (.done c)
  | runFailed (c : Client) (cmd : String) (e : Exc) : command = some cmd →
      CallMove ctx command (.left (some c)) ⟨.exec c cmd,false⟩ (.error e) (.left none)

inductive Ending where
  | peek (gs : List Group)
  | delete (g : Group) (id : String) (gs : List Group)
  | unbind (g : Group) (id : String) (gs : List Group)
  | unindex (g : Group) (id : String) (gs : List Group)
  | ended

inductive EndMove (oid : Option Guid) (sessionId : Option String) :
    Ending → (o : Op) → Except Exc o.Ans → Ending → Prop
  | found (g : Group) (gs : List Group) (v : Option Value) (id : String) : v.bind Value.asText = some id →
      EndMove oid sessionId (.peek (g :: gs)) ⟨.get (sessionKey cfg (oidText oid) sessionId g.name),false⟩
        (.ok v) (.delete g id gs)
  | absent (g : Group) (gs : List Group) (v : Option Value) : v.bind Value.asText = none →
      EndMove oid sessionId (.peek (g :: gs)) ⟨.get (sessionKey cfg (oidText oid) sessionId g.name),false⟩
        (.ok v) (.peek gs)
  | peekFailed (g : Group) (gs : List Group) (e : Exc) :
      EndMove oid sessionId (.peek (g :: gs)) ⟨.get (sessionKey cfg (oidText oid) sessionId g.name),false⟩
        (.error e) .ended
  | deleted (g : Group) (id : String) (gs : List Group) (r : Except Exc Unit) :
      EndMove oid sessionId (.delete g id gs) ⟨.beginDelete ⟨cfg.groupNames g,id⟩,false⟩ r (.unbind g id gs)
  | unbound (g : Group) (id : String) (gs : List Group) (r : Except Exc Unit) (st : Ending) :
      st = .unindex g id gs ∨ st = .peek gs ∨ st = .ended →
      (∀ u, r = .ok u → cfg.index = true → st = .unindex g id gs) →
      EndMove oid sessionId (.unbind g id gs) ⟨.del (sessionKey cfg (oidText oid) sessionId g.name),false⟩ r st
  | unindexed (g : Group) (id : String) (gs : List Group) (r : Except Exc Unit) (st : Ending) :
      st = .peek gs ∨ st = .ended →
      EndMove oid sessionId (.unindex g id gs) ⟨.del (indexKey cfg id),false⟩ r st

inductive Reaping where
  | elect
  | claim (n : Nat)
  | list (gs : List Group)
  | binding (g : Group) (id : String) (ids : List String) (gs : List Group)
  | peek (g : Group) (id key : String) (ids : List String) (gs : List Group)
  | kill (g : Group) (id : String) (ids : List String) (gs : List Group)
  | unindex (g : Group) (id : String) (ids : List String) (gs : List Group)
  | ended

def Reaping.next (g : Group) (ids : List String) (gs : List Group) : Reaping :=
  match ids with
  | [] => .list gs
  | id :: ids => .binding g id ids gs

def reapStart : Reaping := .list (if cfg.index then Group.all else [])

def Dropping (gs : List Group) (st : Reaping) : Prop := st = .list gs ∨ st = .list []

inductive ReapMove : Reaping → (o : Op) → Except Exc o.Ans → Reaping → Prop
  | drew (n : Nat) : ReapMove .elect ⟨.uuid,false⟩ (.ok n) (.claim n)
  | drawFailed (e : Exc) : ReapMove .elect ⟨.uuid,false⟩ (.error e) .ended
  | claimed (n : Nat) (r : Except Exc Bool) (st : Reaping) : st = reapStart cfg ∨ st = .ended →
      ReapMove (.claim n) ⟨.setNx leaderKey (.token n) cfg.reaperLease,false⟩ r st
  | listed (g : Group) (gs : List Group) (ids : List String) :
      ReapMove (.list (g :: gs)) ⟨.listSandboxes (cfg.groupNames g),false⟩ (.ok ids) (Reaping.next g ids gs)
  | listFailed (g : Group) (gs : List Group) (e : Exc) (st : Reaping) : Dropping gs st →
      ReapMove (.list (g :: gs)) ⟨.listSandboxes (cfg.groupNames g),false⟩ (.error e) st
  | managed (g : Group) (id : String) (ids : List String) (gs : List Group) (oid s : Option String)
      (gr : String) : ReapMove (.binding g id ids gs) ⟨.get (indexKey cfg id),false⟩
        (.ok (some (.binding oid s gr))) (.peek g id (sessionKey cfg oid s gr) ids gs)
  | unmanaged (g : Group) (id : String) (ids : List String) (gs : List Group) :
      ReapMove (.binding g id ids gs) ⟨.get (indexKey cfg id),false⟩ (.ok none) (Reaping.next g ids gs)
  | bindingFailed (g : Group) (id : String) (ids : List String) (gs : List Group)
      (r : Except Exc (Option Value)) (st : Reaping) : Dropping gs st →
      (∀ v, r = .ok v → ∃ x, v = some x ∧ ∀ oid s gr, x ≠ .binding oid s gr) →
      ReapMove (.binding g id ids gs) ⟨.get (indexKey cfg id),false⟩ r st
  | alive (g : Group) (id key : String) (ids : List String) (gs : List Group) (v : Option Value) :
      v.bind Value.asText = some id →
      ReapMove (.peek g id key ids gs) ⟨.get key,false⟩ (.ok v) (Reaping.next g ids gs)
  | orphan (g : Group) (id key : String) (ids : List String) (gs : List Group) (v : Option Value) :
      v.bind Value.asText ≠ some id →
      ReapMove (.peek g id key ids gs) ⟨.get key,false⟩ (.ok v) (.kill g id ids gs)
  | peekFailed (g : Group) (id key : String) (ids : List String) (gs : List Group) (e : Exc) (st : Reaping) :
      Dropping gs st → ReapMove (.peek g id key ids gs) ⟨.get key,false⟩ (.error e) st
  | killed (g : Group) (id : String) (ids : List String) (gs : List Group) (r : Except Exc Unit) :
      (∀ e, r = .error e → e = .notFound) →
      ReapMove (.kill g id ids gs) ⟨.beginDelete ⟨cfg.groupNames g,id⟩,false⟩ r (.unindex g id ids gs)
  | killFailed (g : Group) (id : String) (ids : List String) (gs : List Group) (e : Exc) (st : Reaping) :
      e ≠ .notFound → Dropping gs st →
      ReapMove (.kill g id ids gs) ⟨.beginDelete ⟨cfg.groupNames g,id⟩,false⟩ (.error e) st
  | unindexed (g : Group) (id : String) (ids : List String) (gs : List Group) (u : Unit) :
      ReapMove (.unindex g id ids gs) ⟨.del (indexKey cfg id),false⟩ (.ok u) (Reaping.next g ids gs)
  | unindexFailed (g : Group) (id : String) (ids : List String) (gs : List Group) (e : Exc) (st : Reaping) :
      Dropping gs st → ReapMove (.unindex g id ids gs) ⟨.del (indexKey cfg id),false⟩ (.error e) st
  | resigned (n : Nat) (r : Except Exc Unit) :
      ReapMove (.list []) ⟨.evalRelease leaderKey (.token n),false⟩ r .ended

inductive Resolving where
  | look
  | slide (sessionId : String)
  | clock
  | mint (sessionId : String)

def userKey (oid : Guid) : String := cfg.sessions.k (UserSessionCache.key oid.text)

def Resolving.awaits (oid : Guid) : Resolving → Cmd
  | .look => .get (userKey cfg oid)
  | .slide s => .set (userKey cfg oid) (.text s) cfg.sessions.ttl
  | .clock => .clock
  | .mint s => .set (userKey cfg oid) (.text s) cfg.sessions.ttl

inductive Phase where
  | resolve (v : Visit) (st : Resolving)
  | call (ctx : SessionCtx) (command : Option String) (st : Stage)
  | ending (oid : Option Guid) (sessionId : Option String) (st : Ending)
  | reap (st : Reaping)
  | ended

def Visit.calling (v : Visit) (s : String) : Phase :=
  .call (v.ctx (some s) v.conversationId)
    (some (wrap cfg (v.ctx (some s) v.conversationId) v.command)) .start

inductive PhaseMove : Phase → (o : Op) → Except Exc o.Ans → Phase → Prop
  | call (ctx : SessionCtx) (command : Option String) (st st' : Stage) (o : Op) (r : Except Exc o.Ans) :
      CallMove cfg ctx command st o r st' → PhaseMove (.call ctx command st) o r (.call ctx command st')
  | ending (oid : Option Guid) (sessionId : Option String) (st st' : Ending) (o : Op) (r : Except Exc o.Ans) :
      EndMove cfg oid sessionId st o r st' → PhaseMove (.ending oid sessionId st) o r (.ending oid sessionId st')
  | reap (st st' : Reaping) (o : Op) (r : Except Exc o.Ans) :
      ReapMove cfg st o r st' → PhaseMove (.reap st) o r (.reap st')
  | known (v : Visit) (oid : Guid) (x : Option Value) (s : String) : v.oid = some oid →
      x.bind Value.asText = some s →
      PhaseMove (.resolve v .look) ⟨.get (userKey cfg oid),false⟩ (.ok x) (.resolve v (.slide s))
  | unknown (v : Visit) (oid : Guid) (x : Option Value) : v.oid = some oid → x.bind Value.asText = none →
      PhaseMove (.resolve v .look) ⟨.get (userKey cfg oid),false⟩ (.ok x) (.resolve v .clock)
  | slid (v : Visit) (oid : Guid) (s : String) (u : Unit) : v.oid = some oid → s ≠ "" →
      PhaseMove (.resolve v (.slide s)) ⟨.set (userKey cfg oid) (.text s) cfg.sessions.ttl,false⟩ (.ok u)
        (v.calling cfg s)
  | slidEmpty (v : Visit) (oid : Guid) (u : Unit) : v.oid = some oid →
      PhaseMove (.resolve v (.slide "")) ⟨.set (userKey cfg oid) (.text "") cfg.sessions.ttl,false⟩ (.ok u)
        (.resolve v .clock)
  | read (v : Visit) (oid : Guid) (n : Nat) : v.oid = some oid →
      PhaseMove (.resolve v .clock) ⟨.clock,false⟩ (.ok n) (.resolve v (.mint (v.minted oid n)))
  | mintedKey (v : Visit) (oid : Guid) (s : String) (u : Unit) : v.oid = some oid →
      PhaseMove (.resolve v (.mint s)) ⟨.set (userKey cfg oid) (.text s) cfg.sessions.ttl,false⟩ (.ok u)
        (v.calling cfg s)
  | resolveFailed (v : Visit) (oid : Guid) (st : Resolving) (e : Exc) : v.oid = some oid →
      PhaseMove (.resolve v st) ⟨st.awaits cfg oid,false⟩ (.error e) .ended

end IdentityAwareMcp
