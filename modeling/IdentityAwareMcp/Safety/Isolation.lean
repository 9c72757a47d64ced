import IdentityAwareMcp.Control.Moves

namespace IdentityAwareMcp

open Coop SandboxManager

section Invariant

variable (cfg : Config)

-- A sandbox made by a call with this routing key, for the group of that call.
def Made (w : World) (ph : Nat → Phase) (key id : String) : Prop :=
  ∃ b ctx command st, w.boxes id = some b ∧ ph b.creator = .call ctx command st ∧ routingKey ctx = key ∧
    b.groupName = cfg.groupNames ctx.group ∧ b.spec.environment.spAppId = cfg.spAppIds ctx.group

structure Isolated (w : World) (ph : Nat → Phase) : Prop where
  bound : ∀ ctx e id, w.redis (ctxKey cfg ctx) = some e → e.val = .text id → Made cfg w ph (routingKey ctx) id
  held : ∀ t ctx command st c, ph t = .call ctx command st → st.client = some c →
    c.groupName = cfg.groupNames ctx.group ∧ Made cfg w ph (routingKey ctx) c.sandboxId

def Stays (ph ph' : Nat → Phase) : Prop :=
  ∀ t ctx command st, ph t = .call ctx command st → ∃ st', ph' t = .call ctx command st'

variable {cfg} {rep : Nat → Nat} {t : Nat} {o : Op} {r : Except Exc o.Ans} {h : Hint} {w w' : World}
variable {ph ph' : Nat → Phase} {p : Phase} {key id : String}

theorem stays_upd (hm : PhaseMove cfg (ph t) o r p) : Stays ph (upd ph t p) := by
  intro i ctx command st hi
  by_cases hit : i = t
  · subst hit
    obtain ⟨st',hp,_⟩ := move_call hm hi
    exact ⟨st',by simp [hp]⟩
  · exact ⟨st,by simpa [hit] using hi⟩

theorem Made.mono (hg : w.Grows w') (hs : Stays ph ph') (hm : Made cfg w ph key id) :
    Made cfg w' ph' key id := by
  obtain ⟨b,ctx,command,st,hb,hp,hk,hn,hsp⟩ := hm
  obtain ⟨b',hb',hbb⟩ := hg id b hb
  obtain ⟨st',hp'⟩ := hs _ _ _ _ hp
  exact ⟨b',ctx,command,st',hb',by rw [hbb.creator]; exact hp',hk,by rw [hbb.groupName]; exact hn,
    by rw [hbb.spec]; exact hsp⟩

-- A sandbox belongs to one routing key.
theorem Made.unique {key' : String} (hm : Made cfg w ph key id) (hm' : Made cfg w ph key' id) : key = key' := by
  obtain ⟨b,ctx,command,st,hb,hp,hk,_⟩ := hm
  obtain ⟨b',ctx',command',st',hb',hp',hk',_⟩ := hm'
  rw [hb] at hb'
  cases hb'
  rw [hp] at hp'
  cases hp'
  exact hk.symm.trans hk'

theorem act_get {k : String} {b : Bool} {v : Option Value}
    (ha : act rep t ⟨.get k,b⟩ w (.ok v) h = some w') : v = w.lookup k ∧ w' = w := by
  simp only [act] at ha
  split at ha
  · rename_i hv
    cases ha
    exact ⟨hv,rfl⟩
  · cases ha

theorem asText_some {v : Option Value} (hv : v.bind Value.asText = some id) : v = some (.text id) := by
  match v with
  | some (.text s) =>
    cases hv
    rfl
  | some (.flag _) => cases hv
  | some (.binding _ _ _) => cases hv
  | some (.profile _) => cases hv
  | some (.names _) => cases hv
  | some (.token _) => cases hv
  | none => cases hv

theorem act_beginCreate {g : String} {spec : Spec} {b : Bool} {c : Client}
    (ha : act rep t ⟨.beginCreate g spec,b⟩ w (.ok c) h = some w') :
    c.groupName = g ∧ w.boxes c.sandboxId = none ∧ w' = w.create c.sandboxId g spec t := by
  simp only [act] at ha
  split at ha
  · rename_i hc
    cases ha
    simp only [Bool.and_eq_true,decide_eq_true_eq,Option.isNone_iff_eq_none] at hc
    exact ⟨hc.1,hc.2,rfl⟩
  · cases ha

theorem picks_made {ctx : SessionCtx} {command : Option String} {st' : Stage} {c : Client}
    (hi : Isolated cfg w ph) (hp : Picks cfg ctx o r c) (ha : act rep t o w r h = some w')
    (hs : Stays ph ph') (ht : ph' t = .call ctx command st') :
    c.groupName = cfg.groupNames ctx.group ∧ Made cfg w' ph' (routingKey ctx) c.sandboxId := by
  have hg := act_grows ha
  cases hp with
  | hit v id hv =>
    obtain ⟨hl,_⟩ := act_get ha
    rw [asText_some hv] at hl
    obtain ⟨e,he,hval,_⟩ := lookup_some hl.symm
    exact ⟨rfl,(hi.bound ctx e id he hval).mono hg hs⟩
  | create spec c hsp =>
    obtain ⟨hgn,hn,rfl⟩ := act_beginCreate ha
    refine ⟨hgn,⟨_,spec,t,false,false,false,false,false⟩,ctx,command,st',?_,ht,rfl,rfl,hsp⟩
    rw [create_boxes,if_pos rfl]

theorem Isolated.step (hi : Isolated cfg w ph) (hm : PhaseMove cfg (ph t) o r p)
    (ha : act rep t o w r h = some w') : Isolated cfg w' (upd ph t p) := by
  have hg := act_grows ha
  have hs := stays_upd hm
  constructor
  · intro ctx e id he hv
    rcases act_entry ha he with he | hw
    · exact (hi.bound ctx e id he hv).mono hg hs
    · obtain ⟨_,ctx',command,st,c,hp,hk,rfl,hst⟩ := writes_text hm hw hv
      have hc : st.client = some c := by rcases hst with rfl | rfl <;> rfl
      have hh := (hi.held t ctx' command st c hp hc).2
      rw [hk] at hh
      exact hh.mono hg hs
  · intro i ctx command st c hp hc
    by_cases hit : i = t
    · subst hit
      have hp' : p = .call ctx command st := by simpa using hp
      rcases move_into hm hp' with ⟨st₀,hst₀,hcm⟩ | ⟨rfl,_⟩
      · rcases call_client hcm hc with hc₀ | hpick
        · have hh := hi.held i ctx command st₀ c hst₀ hc₀
          exact ⟨hh.1,hh.2.mono hg hs⟩
        · exact picks_made hi hpick ha hs hp
      · cases hc
    · have hh := hi.held i ctx command st c (by simpa [hit] using hp) hc
      exact ⟨hh.1,hh.2.mono hg hs⟩

theorem Isolated.env {e : Env} (hi : Isolated cfg w ph) (he : env e w = some w') : Isolated cfg w' ph := by
  have hg := env_grows he
  have hs : Stays ph ph := fun t ctx command st h => ⟨st,h⟩
  constructor
  · intro ctx x id hx hv
    rw [env_redis he] at hx
    exact (hi.bound ctx x id hx hv).mono hg hs
  · intro i ctx command st c hp hc
    have hh := hi.held i ctx command st c hp hc
    exact ⟨hh.1,hh.2.mono hg hs⟩

end Invariant

section Runs

def Job.ctx : Job → Option SessionCtx
  | .getOrCreate ctx => some ctx
  | .exec ctx _ => some ctx
  | _ => none

-- A task that is in a call is in the call of its job.
def Job.At (j : Job) (ph : Phase) : Prop :=
  (∀ v st, ph ≠ .resolve v st) ∧ ∀ ctx command st, ph = .call ctx command st → j.ctx = some ctx

variable {cfg : Config} {jobs : Nat → Job} {rep : Nat → Nat} {now : Nat}

theorem job_at_phase (j : Job) : j.At (j.phase cfg) := by
  constructor
  · intro v st hp
    cases j <;> cases hp
  · intro ctx command st hp
    cases j <;> cases hp <;> rfl

theorem job_at_move {j : Job} {ph ph' : Phase} {o : Op} {r : Except Exc o.Ans} (hj : j.At ph)
    (hm : PhaseMove cfg ph o r ph') : j.At ph' := by
  constructor
  · intro v st hp
    subst hp
    cases hm <;> exact hj.1 _ _ rfl
  · intro ctx command st hp
    rcases move_into hm hp with ⟨st₀,hst₀,_⟩ | ⟨_,v,st₀,hv⟩
    · exact hj.2 _ _ _ hst₀
    · exact absurd hv (hj.1 v st₀)

def Bound (s : System) (k id : String) : Prop := ∃ e, s.world.redis k = some e ∧ e.val = .text id

-- The history of the forward table: every id that was ever stored under a key.
def remember (s : System) (_ : Step) (ever : String → String → Prop) : String → String → Prop :=
  fun k id => ever k id ∨ Bound s k id

structure Attributed (cfg : Config) (jobs : Nat → Job) (w : World) (ever : String → String → Prop)
    (ph : Nat → Phase) : Prop where
  isolated : Isolated cfg w ph
  past : ∀ ctx id, ever (ctxKey cfg ctx) id → Made cfg w ph (routingKey ctx) id
  posts : ∀ t, (jobs t).At (ph t)

theorem start_call {j : Job} {ctx : SessionCtx} {command : Option String} {st : Stage}
    (hp : j.phase cfg = .call ctx command st) : st = .start := by
  cases j <;> cases hp <;> rfl

theorem isolated_start {ph : Nat → Phase} (hs : ∀ t ctx command st, ph t = .call ctx command st → st = .start) :
    Isolated cfg (World.empty now) ph := by
  constructor
  · intro ctx e id he
    cases he
  · intro t ctx command st c hp hc
    cases hs t ctx command st hp
    cases hc

theorem attributed_run {s : System} {ever : String → String → Prop}
    (hr : (machine rep).Run (fun _ _ _ => True) remember (start cfg jobs now) (fun _ _ => False) s ever) :
    ∃ ph, Attributed cfg jobs s.world ever ph ∧ ∀ t, Follows (PhaseMove cfg) (ph t) (s.pool t) Finished := by
  refine hr.tracked (fun t => (jobs t).phase cfg) (fun t => job_follows cfg (jobs t)) ?_ ?_ ?_
  · refine ⟨isolated_start (fun _ _ _ _ => start_call),?_,fun t => job_at_phase (jobs t)⟩
    intro ctx id h
    cases h
  · intro s ever ph t o r h w p hi hph _ hm ha
    have hs := stays_upd hm
    refine ⟨hi.isolated.step hm ha,?_,forall_upd (job_at_move (hi.posts t) hm) hi.posts⟩
    intro ctx id hid
    rcases hid with hid | ⟨e,he,hv⟩
    · exact (hi.past ctx id hid).mono (act_grows ha) hs
    · exact (hi.isolated.bound ctx e id he hv).mono (act_grows ha) hs
  · intro s ever ph e w hi _ he
    have hs : Stays ph ph := fun t ctx command st h => ⟨st,h⟩
    refine ⟨hi.isolated.env he,?_,hi.posts⟩
    intro ctx id hid
    rcases hid with hid | ⟨x,hx,hv⟩
    · exact (hi.past ctx id hid).mono (env_grows he) hs
    · exact (hi.isolated.bound ctx x id hx hv).mono (env_grows he) hs

-- The sandbox was made by a call of the same user, session and group, in the sandbox
-- group and with the service principal of that group.
def CreatedFor (cfg : Config) (jobs : Nat → Job) (w : World) (ctx : SessionCtx) (c : Client) : Prop :=
  c.groupName = cfg.groupNames ctx.group ∧ ∃ b ctx', w.boxes c.sandboxId = some b ∧
    (jobs b.creator).ctx = some ctx' ∧ ctx'.userOid = ctx.userOid ∧ ctx'.sessionId = ctx.sessionId ∧
    ctx'.group = ctx.group ∧ b.groupName = cfg.groupNames ctx.group ∧
    b.spec.environment.spAppId = cfg.spAppIds ctx.group

theorem made_created {w : World} {ph : Nat → Phase} {ctx : SessionCtx} {c : Client}
    (hj : ∀ t ctx, (jobs t).ctx = some ctx → ∃ s, ctx.sessionId = some s) (hat : ∀ t, (jobs t).At (ph t))
    (hs : ∃ s, ctx.sessionId = some s) (hg : c.groupName = cfg.groupNames ctx.group)
    (hm : Made cfg w ph (routingKey ctx) c.sandboxId) : CreatedFor cfg jobs w ctx c := by
  obtain ⟨b,ctx',command,st,hb,hp,hk,hn,hsp⟩ := hm
  obtain ⟨ho,hf,hgr⟩ := routingKey_parts hk
  have hctx := (hat b.creator).2 _ _ _ hp
  obtain ⟨x,hx⟩ := hj _ _ hctx
  obtain ⟨y,hy⟩ := hs
  have hxy : x = y := by simpa [hx,hy,fmt] using hf
  exact ⟨hg,b,ctx',hb,hctx,ho,by rw [hx,hy,hxy],hgr,by rw [hn,hgr],by rw [hsp,hgr]⟩

theorem exec_isolated {s : System} {ever : String → String → Prop}
    (hj : ∀ t ctx, (jobs t).ctx = some ctx → ∃ s, ctx.sessionId = some s)
    (hr : (machine rep).Run (fun _ _ _ => True) remember (start cfg jobs now) (fun _ _ => False) s ever) :
    (∀ t ctx command c cmd timed, jobs t = .exec ctx command → (s.pool t).next = some ⟨.exec c cmd,timed⟩ →
      CreatedFor cfg jobs s.world ctx c) ∧
    ∀ (oid oid' : Option Guid) (sid sid' : Option String) (g g' : Group) (id : String),
      (ever (sessionKey cfg (oidText oid) sid g.name) id ∨
        Bound s (sessionKey cfg (oidText oid) sid g.name) id) →
      (ever (sessionKey cfg (oidText oid') sid' g'.name) id ∨
        Bound s (sessionKey cfg (oidText oid') sid' g'.name) id) →
      sessionKey cfg (oidText oid) sid g.name = sessionKey cfg (oidText oid') sid' g'.name := by
  obtain ⟨ph,hi,hph⟩ := attributed_run hr
  constructor
  · intro t ctx command c cmd timed ht hn
    obtain ⟨p,hm⟩ := (hph t).next hn (.error .other)
    obtain ⟨ctx',command',st,hp,hc⟩ := move_runs hm rfl
    have hctx : ctx' = ctx := by
      have := (hi.posts t).2 _ _ _ hp
      rw [ht] at this
      cases this
      rfl
    subst hctx
    obtain ⟨hg,hmade⟩ := hi.isolated.held t ctx' command' st c hp hc
    exact made_created hj hi.posts (hj t ctx' (by rw [ht]; rfl)) hg hmade
  · have hever : ∀ oid sid g id, (ever (sessionKey cfg (oidText oid) sid g.name) id ∨
        Bound s (sessionKey cfg (oidText oid) sid g.name) id) →
        Made cfg s.world ph (routingKey (routed oid sid g)) id := by
      intro oid sid g id h
      rcases h with h | ⟨e,he,hv⟩
      · exact hi.past (routed oid sid g) id h
      · exact hi.isolated.bound (routed oid sid g) e id he hv
    intro oid oid' sid sid' g g' id h h'
    have hk := (hever oid sid g id h).unique (hever oid' sid' g' id h')
    rw [sessionKey_eq,sessionKey_eq,hk]

end Runs

section Schedules

def sampleConfig : Config where
  tenantId := "tenant"
  groupNames := fun g => "sg-" ++ g.name
  spAppIds := fun g => "app-" ++ g.name
  sessionTtl := 1800
  defaultSubscription := "sub"
  diskId := some "disk"
  diskImage := none
  diskPublic := "ubuntu"
  cpu := "1000m"
  memory := "2048Mi"
  autoSuspendSeconds := 300
  autoDeleteSeconds := 3600
  blobContainerResourceId := none
  blobMountpoint := "/workspace"
  index := true
  redisClient := true
  distributedLock := false
  lockTtl := 180
  reaperLease := 60
  maxOutputBytes := 65536
  uaIncludeOid := true
  unicode := .basic

def sampleCtx (sessionId : String) (group : Group) : SessionCtx := ⟨none,some sessionId,some "c1",group,none⟩

def sampleSpec (cfg : Config) (ctx : SessionCtx) : Spec :=
  ⟨⟨labelSafe cfg.unicode (oidText ctx.userOid),labelSafe cfg.unicode ctx.sessionId,ctx.group.name⟩,
    ⟨cfg.spAppIds ctx.group,cfg.tenantId,cfg.defaultSubscription⟩,cfg.cpu,cfg.memory,cfg.autoSuspendSeconds,
    none,.diskId "disk"⟩

def answers (t : Nat) (c : Cmd) (a : c.Ans) (timed : Bool := false) : Step := .task t ⟨c,timed⟩ (.ok a) ⟨true,""⟩

-- A call on a cold session, up to the moment it would publish the sandbox.
def creation (cfg : Config) (t : Nat) (ctx : SessionCtx) (id : String) : List Step :=
  let c : Client := ⟨cfg.groupNames ctx.group,id⟩
  [answers t (.beginCreate (cfg.groupNames ctx.group) (sampleSpec cfg ctx)) c true,
    answers t (.pollCreate c) () true,answers t (.setLifecyclePolicy c cfg.autoDeleteSeconds) () true]

def publication (cfg : Config) (t : Nat) (ctx : SessionCtx) (id : String) : List Step :=
  let c : Client := ⟨cfg.groupNames ctx.group,id⟩
  [answers t (.set (ctxKey cfg ctx) (.text id) cfg.sessions.ttl) (),
    answers t (.set (indexKey cfg id) (.binding (oidText ctx.userOid) ctx.sessionId ctx.group.name) none) (),
    answers t (.get (flagKey cfg id)) none,answers t (.exec c bootstrapCommand) ⟨0,some [],none⟩,
    answers t (.set (flagKey cfg id) (.flag true) cfg.sessions.ttl) ()]

def coldCall (cfg : Config) (t : Nat) (ctx : SessionCtx) (id : String) : List Step :=
  [answers t (.acquire (routingKey ctx)) (),answers t (.get (ctxKey cfg ctx)) none] ++ creation cfg t ctx id ++
    publication cfg t ctx id ++ [answers t (.release (routingKey ctx)) ()]

def sampleExec : Nat → Job := fun _ => .exec (sampleCtx "s1" .action) "az account show"

theorem exec_isolated_cold : ∃ s ever,
    (machine id).Run (fun _ _ _ => True) remember (start sampleConfig sampleExec 0) (fun _ _ => False) s ever ∧
    (s.pool 0).next = some ⟨.exec ⟨"sg-action","b1"⟩ "az account show",false⟩ ∧
    CreatedFor sampleConfig sampleExec s.world (sampleCtx "s1" .action) ⟨"sg-action","b1"⟩ := by
  obtain ⟨s,ever,hr,hn⟩ : ∃ s ever, (machine id).Run (fun _ _ _ => True) remember
      (start sampleConfig sampleExec 0) (fun _ _ => False) s ever ∧ (s.pool 0).next =
        some ⟨.exec ⟨"sg-action","b1"⟩ "az account show",false⟩ :=
    Machine.replay_reaches (fun _ _ _ => true) (coldCall sampleConfig 0 (sampleCtx "s1" .action) "b1")
      (fun _ _ _ _ => trivial) (by decide +kernel)
  have hj : ∀ t ctx, (sampleExec t).ctx = some ctx → ∃ s, ctx.sessionId = some s := by
    intro t ctx h
    cases h
    exact ⟨"s1",rfl⟩
  exact ⟨s,ever,hr,hn,(exec_isolated hj hr).1 0 _ _ _ _ _ rfl hn⟩

end Schedules

end IdentityAwareMcp
