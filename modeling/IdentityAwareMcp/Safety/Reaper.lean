import IdentityAwareMcp.Safety.Guard

namespace IdentityAwareMcp

open Coop SandboxManager

section Steps

variable {cfg : Config} {w w' : World} {ph : Nat → Phase} {g : Nat → Use}

theorem Guarded.reap {rep : Nat → Nat} {t : Nat} {o : Op} {r : Except Exc o.Ans} {h : Hint} {st st' : Reaping}
    (hi : Guarded cfg w g ph) (hp : ph t = .reap st) (hrm : ReapMove cfg st o r st')
    (ha : act rep t o w r h = some w') : Guarded cfg w' g (upd ph t (.reap st')) := by
  have hnow := act_now ha
  have hg := act_grows ha
  have hlookup : ∀ x, w'.lookup (ctxKey cfg x) = w.lookup (ctxKey cfg x) :=
    fun x => lookup_congr (reap_keys hrm ha x) hnow
  have hholds : ∀ {i x}, Holds w' i x → Holds w i x := by
    intro i x hh
    rcases token_back (reap_move hp hrm) ha hh with hh | ⟨_,_,_,hc⟩
    · exact hh
    · rw [hp] at hc
      cases hc
  constructor
  case isolated => exact hi.isolated.step (reap_move hp hrm) ha
  case made => exact hi.made.step (reap_move hp hrm) ha
  case unset =>
    intro i id hid he
    exact (hi.unset i id hid he).mono hg
  case fits =>
    intro i x command s hpi
    exact hi.fits i x command s (reap_call hpi)
  case used =>
    intro i id hid
    obtain ⟨x,command,s,hpi,hm⟩ := hi.used i id hid
    refine ⟨x,command,s,?_,reap_made hp hrm ha hm⟩
    have hit : i ≠ t := by
      rintro rfl
      rw [hp] at hpi
      cases hpi
    rw [upd_other _ _ hit,hpi]
  case timed =>
    intro x e id he hv
    rw [reap_keys hrm ha] at he
    rw [hnow]
    exact hi.timed x e id he hv
  case building =>
    intro i x command s c hpi hs
    obtain ⟨b,hb,hdel,hgone⟩ := hi.building i x command s c (reap_call hpi) hs
    obtain ⟨b',hb',hgone',hdel' | ⟨gr,ids,gs,hst⟩⟩ := reap_boxes hrm ha hb
    · exact ⟨b',hb',hdel'.trans hdel,fun h => hgone'.trans (hgone h)⟩
    · have hf := hi.fits i x command s (reap_call hpi)
      have hun : (g i).id = some c.sandboxId ∧ (g i).expiry = none := by
        cases s <;> first | cases hs; exact ⟨hf.1,hf.2.1⟩ | cases hs
      exact absurd hun.2 ((hi.hunts.doomed t gr c.sandboxId ids gs (hst ▸ hp)).1 i hun.1)
  case kept =>
    intro i x command s id d hpi hid hx
    rw [reap_keys hrm ha,hnow]
    exact hi.kept i x command s id d (reap_call hpi) hid hx
  case clear =>
    intro i x command s id hpi hs hh
    rw [hlookup]
    exact hi.clear i x command s id (reap_call hpi) hs (hholds hh)
  case own =>
    intro i x command s id hpi hs hh hl
    rw [hlookup] at hl
    exact hi.own i x command s id (reap_call hpi) hs (hholds hh) hl
  case sole =>
    intro i j x command s id hpi hs hh hij
    exact hi.sole i j x command s id (reap_call hpi) hs (hholds hh) hij
  case bound =>
    intro x e id he
    rw [reap_keys hrm ha] at he
    exact hi.bound x e id he
  case sound => exact hi.sound.reap hrm ha hi.hunts hi.isolated hp
  case hunts => exact hi.hunts.reap hrm ha hp

theorem Guarded.env {e : Env} (hi : Guarded cfg w g ph) (he : env e w = some w') (hs : e.spares w) : Guarded cfg w' g ph := by
  have hg := env_grows he
  have hnow := env_now he
  have hst : Stays ph ph := fun t ctx command st h => ⟨st,h⟩
  have hm : ∀ {key id : String}, Made cfg w ph key id → Made cfg w' ph key id := fun h => h.mono hg hst
  constructor
  case isolated => exact hi.isolated.env he
  case made =>
    intro i ctx command st c hp hc
    exact (hi.made i ctx command st c hp hc).mono hg
  case unset =>
    intro i id hid hx
    exact (hi.unset i id hid hx).mono hg
  case fits => exact hi.fits
  case used =>
    intro i id hid
    obtain ⟨x,command,s,hp,h⟩ := hi.used i id hid
    exact ⟨x,command,s,hp,hm h⟩
  case timed =>
    intro x y id hy hv
    rw [env_redis he] at hy
    obtain ⟨d,hd,hle⟩ := hi.timed x y id hy hv
    exact ⟨d,hd,by omega⟩
  case building =>
    intro i x command s c hp hc
    obtain ⟨b,hb,hdel,hgone⟩ := hi.building i x command s c hp hc
    obtain ⟨b',hb',hdel',hgone'⟩ := env_boxes he hs hb hdel
    exact ⟨b',hb',hdel',fun h => hgone'.trans (hgone h)⟩
  case kept =>
    intro i x command s id d hp hid hx
    rw [env_redis he]
    rcases hi.kept i x command s id d hp hid hx with h | h
    · exact .inl (Nat.le_trans h hnow)
    · exact .inr h
  case clear =>
    intro i x command s id hp hc hh hl
    exact hi.clear i x command s id hp hc (env_lookup he hh) (env_lookup he hl)
  case own =>
    intro i x command s id hp hc hh hl
    exact hi.own i x command s id hp hc (env_lookup he hh) (env_lookup he hl)
  case sole =>
    intro i j x command s id hp hc hh
    exact hi.sole i j x command s id hp hc (env_lookup he hh)
  case bound =>
    intro x y id hy
    rw [env_redis he] at hy
    exact hi.bound x y id hy
  case sound => exact hi.sound.env he hs
  case hunts => exact hi.hunts.env he

end Steps

section Runs

variable {cfg : Config} {jobs : Nat → Job} {rep : Nat → Nat} {now : Nat}

-- Tool calls and reaper passes; no session is ended.
def Job.Serves (j : Job) : Phase → Prop
  | .call ctx _ _ => j.ctx = some ctx
  | .reap _ => j.ctx = none
  | .ended => True
  | .ending _ _ _ => False
  | .resolve _ _ => False

theorem serves_phase {j : Job} (hj : ∀ oid sid, j ≠ .endSession oid sid) : j.Serves (j.phase cfg) := by
  cases j with
  | endSession oid sid => exact absurd rfl (hj oid sid)
  | _ => rfl

theorem serves_move {j : Job} {p p' : Phase} {o : Op} {r : Except Exc o.Ans} (hm : PhaseMove cfg p o r p')
    (hs : j.Serves p) : j.Serves p' := by
  cases hm with
  | call ctx command st st' o r hc => exact hs
  | reap st st' o r hr => exact hs
  | _ => exact hs.elim

def observe (cfg : Config) (jobs : Nat → Job) (s : System) (l : Step) (g : Nat → Use) : Nat → Use :=
  match l with
  | .task t o r _ =>
    match (jobs t).ctx with
    | some ctx => upd g t ((g t).after cfg ctx s.world o r)
    | none => g
  | .env _ => g

def Orderly (cfg : Config) (jobs : Nat → Job) (s : System) (g : Nat → Use) : Step → Prop
  | .task t o r _ => ∀ ctx, (jobs t).ctx = some ctx → Disciplined cfg s.world g t ctx o r
  | .env e => e.spares s.world

theorem reap_deletes {st st' : Reaping} {o : Op} {r : Except Exc o.Ans} (hrm : ReapMove cfg st o r st')
    {c : Client} (ho : o.cmd = .beginDelete c) : ∃ gr ids gs, st = .kill gr c.sandboxId ids gs := by
  cases hrm with
  | killed g id ids gs r he => cases ho; exact ⟨g,ids,gs,rfl⟩
  | killFailed g id ids gs e st' he hd => cases ho; exact ⟨g,ids,gs,rfl⟩
  | _ => cases ho

theorem serving_deletes {j : Job} {p p' : Phase} {o : Op} {r : Except Exc o.Ans} (hs : j.Serves p)
    (hm : PhaseMove cfg p o r p') {c : Client} (ho : o.cmd = .beginDelete c) :
    ∃ gr ids gs, p = .reap (.kill gr c.sandboxId ids gs) := by
  cases hm with
  | call ctx command st st' o r hcm =>
    cases hcm with
    | prepared c r hp => cases ho; cases hp
    | prepFailed c r st hp hl => cases ho; cases hp
    | _ => cases ho
  | reap st st' o r hrm =>
    obtain ⟨gr,ids,gs,rfl⟩ := reap_deletes hrm ho
    exact ⟨gr,ids,gs,rfl⟩
  | _ => exact hs.elim

theorem guarded_start : Guarded cfg (World.empty now) (fun _ => Use.idle) (fun t => (jobs t).phase cfg) := by
  have hstart : ∀ {t ctx command st}, (jobs t).phase cfg = .call ctx command st → st = .start := start_call
  constructor
  case isolated => exact isolated_start (fun _ _ _ _ => start_call)
  case fits =>
    intro i x command st hp
    cases hstart hp
    trivial
  case made =>
    intro i x command st c hp hc
    cases hstart hp
    cases hc
  case building =>
    intro i x command st c hp hc
    cases hstart hp
    cases hc
  case clear =>
    intro i x command st id hp hc
    cases hstart hp
    cases hc
  case own =>
    intro i x command st id hp hc
    cases hstart hp
    cases hc
  case sole =>
    intro i j x command st id hp hc
    cases hstart hp
    cases hc
  case unset =>
    intro i id hid
    cases hid
  case used =>
    intro i id hid
    cases hid
  case kept =>
    intro i x command st id d hp hid
    cases hid
  case timed =>
    intro x e id he
    cases he
  case bound =>
    intro x e id he
    cases he
  case sound =>
    intro x id hl
    cases hl
  case hunts => exact hunts_start (fun _ _ => job_judges)

theorem guarded_run (hj : ∀ t oid sid, jobs t ≠ .endSession oid sid) {s : System} {g : Nat → Use}
    (hr : (machine rep).Run (Orderly cfg jobs) (observe cfg jobs) (start cfg jobs now) (fun _ => .idle) s g) :
    ∃ ph, (Guarded cfg s.world g ph ∧ ∀ t, (jobs t).Serves (ph t)) ∧
      ∀ t, Follows (PhaseMove cfg) (ph t) (s.pool t) Finished := by
  refine hr.tracked (I := fun w g ph => Guarded cfg w g ph ∧ ∀ t, (jobs t).Serves (ph t))
    (fun t => (jobs t).phase cfg) (fun t => job_follows cfg (jobs t)) ?_ ?_ ?_
  · exact ⟨guarded_start,fun t => serves_phase (hj t)⟩
  · intro s g ph t o r h w p hi _ hadm hm ha
    refine ⟨?_,forall_upd (serves_move hm (hi.2 t)) hi.2⟩
    have hs := hi.2 t
    generalize hp : ph t = q at hm hs
    cases hm with
    | call ctx command st st' o r hcm =>
      have hctx : (jobs t).ctx = some ctx := hs
      simp only [observe,hctx]
      exact hi.1.call hp hcm ha (hadm ctx hctx)
    | reap st st' o r hrm =>
      have hctx : (jobs t).ctx = none := hs
      simp only [observe,hctx]
      exact hi.1.reap hp hrm ha
    | _ => exact hs.elim
  · intro s g ph e w hi hadm he
    exact ⟨hi.1.env he hadm,hi.2⟩

-- What a pass is about to delete no call has chosen, or its hold on the routing key has expired.
theorem reaper_spares (hj : ∀ t oid sid, jobs t ≠ .endSession oid sid) {s : System} {g : Nat → Use}
    (hr : (machine rep).Run (Orderly cfg jobs) (observe cfg jobs) (start cfg jobs now) (fun _ => .idle) s g)
    (t : Nat) (c : Client) (timed : Bool) (hn : (s.pool t).next = some ⟨.beginDelete c,timed⟩) (i : Nat)
    (hc : (g i).id = some c.sandboxId) : ∃ d, (g i).expiry = some d ∧ d ≤ s.world.now := by
  obtain ⟨ph,⟨hi,hs⟩,hph⟩ := guarded_run hj hr
  obtain ⟨p,hm⟩ := (hph t).next hn (.error .other)
  obtain ⟨gr,ids,gs,hp⟩ := serving_deletes (hs t) hm rfl
  obtain ⟨hk,x,hmade,hl⟩ := hi.hunts.doomed t gr _ ids gs hp
  obtain ⟨y,command,st,hpi,hmi⟩ := hi.used i _ hc
  cases hx : (g i).expiry with
  | none => exact absurd hx (hk i hc)
  | some d =>
    refine ⟨d,rfl,?_⟩
    rcases hi.kept i y command st _ d hpi hc hx with h | ⟨e,d',he,hv,hdl,hle⟩
    · exact h
    · refine Nat.le_trans hle (dead_entry he hv hdl ?_)
      rw [ctxKey_congr (hmi.unique hmade)]
      exact hl

end Runs

section Schedules

def lockingConfig : Config := { sampleConfig with distributedLock := true }

def sampleCommand : String := "az account show"

-- Two calls of one session and a reaper, each on a replica of its own.
def sampleParty : Nat → Job := fun t => if t = 2 then .reaperRound else .exec (sampleCtx "s1" .action) sampleCommand

def opening (cfg : Config) (t : Nat) (ctx : SessionCtx) (got : Bool) (v : Option Value) : List Step :=
  [answers t (.acquire (routingKey ctx)) (),answers t (.lockRedis (lockKey ctx) cfg.lockTtl) got,
    answers t (.get (ctxKey cfg ctx)) v]

def closing (t : Nat) (ctx : SessionCtx) : List Step :=
  [answers t (.unlockRedis (lockKey ctx)) (),answers t (.release (routingKey ctx)) ()]

def lockedCall (cfg : Config) (t : Nat) (ctx : SessionCtx) (id : String) : List Step :=
  opening cfg t ctx true none ++ creation cfg t ctx id ++ publication cfg t ctx id ++ closing t ctx

-- A pass up to its decision on the one sandbox of the action group that it looks at.
def judging (cfg : Config) (t : Nat) (ctx : SessionCtx) (ids : List String) (id : String) (v : Option Value) :
    List Step :=
  [answers t .uuid 0,answers t (.setNx leaderKey (.token 0) cfg.reaperLease) true,
    answers t (.listSandboxes (cfg.groupNames .diagnose)) [],answers t (.listSandboxes (cfg.groupNames .action)) ids,
    answers t (.get (indexKey cfg id)) (some (.binding (oidText ctx.userOid) ctx.sessionId ctx.group.name)),
    answers t (.get (ctxKey cfg ctx)) v]

def orderly (cfg : Config) (jobs : Nat → Job) (s : System) (g : Nat → Use) : Step → Bool
  | .task _ _ (.error _) _ => false
  | .task t o (.ok _) _ =>
    match (jobs t).ctx with
    | none => true
    | some ctx =>
      let held := decide (s.world.lookup (lockKey ctx) = some (.token t))
      match o.cmd with
      | .get k => k != ctxKey cfg ctx || held
      | .del k => k != ctxKey cfg ctx || held
      | .set k v _ => k != ctxKey cfg ctx || held && (!(g t).hit || decide (s.world.lookup k = some v))
      | _ => true
  | .env (.vanish _) => false
  | .env _ => true

theorem orderly_sound (cfg : Config) (jobs : Nat → Job) (s : System) (g : Nat → Use) (l : Step)
    (hl : orderly cfg jobs s g l = true) : Orderly cfg jobs s g l := by
  cases l with
  | env e => cases e <;> trivial
  | task t o r h =>
    cases r with
    | error e => cases hl
    | ok a =>
      intro ctx hctx
      obtain ⟨c,timed⟩ := o
      simp only [orderly,hctx] at hl
      refine ⟨by simp,?_,?_⟩
      · rintro (rfl | ⟨v,ex,rfl⟩ | rfl) <;> simp_all [Holds]
      · rintro id ex rfl hhit
        simp_all

theorem reaper_spares_idle : ∃ s g, (machine id).Run (Orderly lockingConfig sampleParty)
      (observe lockingConfig sampleParty) (start lockingConfig sampleParty 0) (fun _ => .idle) s g ∧
    (s.pool 0).next = some ⟨.exec ⟨"sg-action","b1"⟩ sampleCommand,false⟩ ∧
    (s.pool 2).next = some ⟨.beginDelete ⟨"sg-action","b1"⟩,false⟩ ∧ (g 0).id = some "b1" ∧
    ∃ d, (g 0).expiry = some d ∧ d ≤ s.world.now := by
  obtain ⟨s,g,hr,hn⟩ : ∃ s g, (machine id).Run (Orderly lockingConfig sampleParty)
      (observe lockingConfig sampleParty) (start lockingConfig sampleParty 0) (fun _ => .idle) s g ∧
      ((s.pool 0).next,(s.pool 2).next,(g 0).id) = (some ⟨.exec ⟨"sg-action","b1"⟩ sampleCommand,false⟩,
        some ⟨.beginDelete ⟨"sg-action","b1"⟩,false⟩,some "b1") :=
    Machine.replay_reaches (orderly lockingConfig sampleParty)
      (lockedCall lockingConfig 0 (sampleCtx "s1" .action) "b1" ++ [.env (.tick 1800000)] ++
        judging lockingConfig 2 (sampleCtx "s1" .action) ["b1"] "b1" none)
      (orderly_sound _ _) (by decide +kernel)
  simp only [Prod.mk.injEq] at hn
  obtain ⟨hexec,hdelete,hid⟩ := hn
  refine ⟨s,g,hr,hexec,hdelete,hid,reaper_spares ?_ hr 2 _ false hdelete 0 hid⟩
  intro t oid sid
  simp only [sampleParty]
  split <;> simp

-- When each call last read or wrote its routing key.
def touch (cfg : Config) (jobs : Nat → Job) (s : System) (l : Step) (g : Nat → Option Nat) : Nat → Option Nat :=
  match l with
  | .task t ⟨.get k,_⟩ (.ok _) _ =>
    if ((jobs t).ctx.map (ctxKey cfg)) = some k then upd g t (some s.world.now) else g
  | .task t ⟨.set k _ _,_⟩ (.ok _) _ =>
    if ((jobs t).ctx.map (ctxKey cfg)) = some k then upd g t (some s.world.now) else g
  | _ => g

-- The second call waits for the lock in vain, goes on and rebinds the session.
def rebound (cfg : Config) (ctx : SessionCtx) : List Step :=
  opening cfg 0 ctx true none ++ creation cfg 0 ctx "b1" ++ [.env (.tick 45000)] ++ opening cfg 1 ctx false none ++
    creation cfg 1 ctx "b2" ++ publication cfg 0 ctx "b1" ++ closing 0 ctx ++ (publication cfg 1 ctx "b2").take 1 ++
    judging cfg 2 ctx ["b1","b2"] "b1" (some (.text "b2"))

-- The routing key expires between the read of a hit and its refresh.
def lapsed (cfg : Config) (ctx : SessionCtx) : List Step :=
  lockedCall cfg 0 ctx "b1" ++ [answers 0 (.exec ⟨cfg.groupNames ctx.group,"b1"⟩ sampleCommand) ⟨0,none,none⟩,
    .env (.tick 1799999)] ++ opening cfg 1 ctx true (some (.text "b1")) ++ [.env (.tick 2)] ++
    judging cfg 2 ctx ["b1"] "b1" none ++
    [answers 1 (.set (ctxKey cfg ctx) (.text "b1") cfg.sessions.ttl) (),
      answers 1 (.ensureRunning ⟨cfg.groupNames ctx.group,"b1"⟩) ()] ++ closing 1 ctx

-- Task i waits for its command in a sandbox that a pass is about to delete, and has read
-- or written its routing key less than the session TTL ago.
def DeletesInUse (i : Nat) : Prop := ∃ s g,
  (machine id).Run (fun s u l => smooth s u l = true) (touch lockingConfig sampleParty)
    (start lockingConfig sampleParty 0) (fun _ => none) s g ∧
  (s.pool i).next = some ⟨.exec ⟨"sg-action","b1"⟩ sampleCommand,false⟩ ∧
  (s.pool 2).next = some ⟨.beginDelete ⟨"sg-action","b1"⟩,false⟩ ∧
  ∃ last, g i = some last ∧ s.world.now < last + lockingConfig.sessionTtl * 1000

theorem deletes_in_use {i : Nat} (last now : Nat) (ls : List Step)
    (hnow : now < last + lockingConfig.sessionTtl * 1000)
    (hp : ((machine id).replay smooth (touch lockingConfig sampleParty) ls (start lockingConfig sampleParty 0)
      (fun _ => none)).map (fun x => ((x.1.pool i).next,(x.1.pool 2).next,x.2 i,x.1.world.now)) =
        some (some ⟨.exec ⟨"sg-action","b1"⟩ sampleCommand,false⟩,
          some ⟨.beginDelete ⟨"sg-action","b1"⟩,false⟩,some last,now)) : DeletesInUse i := by
  obtain ⟨s,g,hr,hx⟩ : ∃ s g, (machine id).Run (fun s u l => smooth s u l = true)
      (touch lockingConfig sampleParty) (start lockingConfig sampleParty 0) (fun _ => none) s g ∧
      ((s.pool i).next,(s.pool 2).next,g i,s.world.now) = (some ⟨.exec ⟨"sg-action","b1"⟩ sampleCommand,false⟩,
        some ⟨.beginDelete ⟨"sg-action","b1"⟩,false⟩,some last,now) :=
    Machine.replay_reaches smooth ls (fun _ _ _ hl => hl) hp
  simp only [Prod.mk.injEq] at hx
  obtain ⟨hexec,hdelete,hlast,rfl⟩ := hx
  exact ⟨s,g,hr,hexec,hdelete,last,hlast,hnow⟩

theorem reaper_deletes_in_use : DeletesInUse 0 ∧ DeletesInUse 1 := by
  constructor
  · exact deletes_in_use 45000 45000 (rebound lockingConfig (sampleCtx "s1" .action)) (by decide) (by decide +kernel)
  · exact deletes_in_use 1800001 1800001 (lapsed lockingConfig (sampleCtx "s1" .action)) (by decide)
      (by decide +kernel)

end Schedules

end IdentityAwareMcp
