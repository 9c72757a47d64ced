import IdentityAwareMcp.Safety.Index
import IdentityAwareMcp.Safety.Rounds

namespace IdentityAwareMcp

open Coop SandboxManager

section Owners

-- Commands about what belongs to one user, and about sandboxes of a kind.
def Concerns (cfg : Config) (oid : Option Guid) (P : String → Prop) : Cmd → Prop
  | .clock => True
  | .acquire k => ∃ x : SessionCtx, x.userOid = oid ∧ k = routingKey x
  | .release k => ∃ x : SessionCtx, x.userOid = oid ∧ k = routingKey x
  | .lockRedis k _ => ∃ x : SessionCtx, x.userOid = oid ∧ k = lockKey x
  | .unlockRedis k => ∃ x : SessionCtx, x.userOid = oid ∧ k = lockKey x
  | .get k => (∃ g, oid = some g ∧ k = userKey cfg g) ∨ (∃ x : SessionCtx, x.userOid = oid ∧ k = ctxKey cfg x) ∨
      ∃ id, P id ∧ (k = indexKey cfg id ∨ k = flagKey cfg id)
  | .set k _ _ => (∃ g, oid = some g ∧ k = userKey cfg g) ∨ (∃ x : SessionCtx, x.userOid = oid ∧ k = ctxKey cfg x) ∨
      ∃ id, P id ∧ (k = indexKey cfg id ∨ k = flagKey cfg id)
  | .del k => (∃ g, oid = some g ∧ k = userKey cfg g) ∨ (∃ x : SessionCtx, x.userOid = oid ∧ k = ctxKey cfg x) ∨
      ∃ id, P id ∧ (k = indexKey cfg id ∨ k = flagKey cfg id)
  | .pollCreate c => P c.sandboxId
  | .setLifecyclePolicy c _ => P c.sandboxId
  | .ensureRunning c => P c.sandboxId
  | .exec c _ => P c.sandboxId
  | _ => False

variable {cfg : Config} {u : Guid} {mine : Nat → Bool} {rep : Nat → Nat} {t : Nat} {o : Op} {r : Except Exc o.Ans}
variable {w : World} {ctx : SessionCtx} {command : Option String} {st st' : Stage} {p p' : Phase} {P : String → Prop}
variable {oid : Option Guid} {c : Cmd}

theorem call_concerns (hm : CallMove cfg ctx command st o r st') (hj : Joint o)
    (hheld : ∀ c, st.client = some c → P c.sandboxId) : Concerns cfg ctx.userOid P o.cmd := by
  cases hm with
  | prepared c r hp => exact absurd hj.1 (by simp [Op.setsUp,preparing_prepares hp])
  | prepFailed c r st hp hl => exact absurd hj.1 (by simp [Op.setsUp,preparing_prepares hp])
  | began spec c hs => exact absurd rfl (hj.2 _ _)
  | beginFailed spec e st hs hl => exact absurd rfl (hj.2 _ _)
  | _ =>
    first
      | exact ⟨ctx,rfl,rfl⟩
      | exact .inr (.inl ⟨ctx,rfl,rfl⟩)
      | exact .inr (.inr ⟨_,hheld _ rfl,.inl rfl⟩)
      | exact .inr (.inr ⟨_,hheld _ rfl,.inr rfl⟩)
      | exact hheld _ rfl

theorem visit_concerns {v : Visit} (hm : PhaseMove cfg p o r p') (hs : Serves (some v) p) (hj : Joint o)
    (hheld : ∀ ctx command st c, p = .call ctx command st → st.client = some c → P c.sandboxId) :
    Concerns cfg v.oid P o.cmd := by
  cases hm with
  | call ctx command st st' o r hc => exact hs.1 ▸ call_concerns hc hj (fun c => hheld ctx command st c rfl)
  | known v' oid x s hv hx =>
    cases hs
    exact .inl ⟨oid,hv,rfl⟩
  | unknown v' oid x hv hx =>
    cases hs
    exact .inl ⟨oid,hv,rfl⟩
  | slid v' oid s a hv hne =>
    cases hs
    exact .inl ⟨oid,hv,rfl⟩
  | slidEmpty v' oid a hv =>
    cases hs
    exact .inl ⟨oid,hv,rfl⟩
  | read v' oid n hv => trivial
  | mintedKey v' oid s a hv =>
    cases hs
    exact .inl ⟨oid,hv,rfl⟩
  | resolveFailed v' oid st e hv =>
    cases hs
    cases st with
    | clock => trivial
    | _ => exact .inl ⟨oid,hv,rfl⟩
  | _ => exact hs.elim

theorem concerns_seen (hc : Concerns cfg (some u) (fun id => ¬ Strange mine w id) c) : Seen cfg u mine w c := by
  have hkey : ∀ {k : String}, ((∃ g, some u = some g ∧ k = userKey cfg g) ∨
      (∃ x : SessionCtx, x.userOid = some u ∧ k = ctxKey cfg x) ∨
        ∃ id, ¬ Strange mine w id ∧ (k = indexKey cfg id ∨ k = flagKey cfg id)) → Visible cfg u mine w k := by
    rintro k (⟨g,hg,rfl⟩ | ⟨x,hx,rfl⟩ | h)
    · cases hg
      exact .inr (.inl rfl)
    · exact .inr (.inr (.inl ⟨x,hx,.inl rfl⟩))
    · exact .inr (.inr (.inr h))
  cases c with
  | clock => trivial
  | lockRedis k ttl =>
    obtain ⟨x,hx,rfl⟩ := hc
    exact .inr (.inr (.inl ⟨x,hx,.inr rfl⟩))
  | unlockRedis k =>
    obtain ⟨x,hx,rfl⟩ := hc
    exact .inr (.inr (.inl ⟨x,hx,.inr rfl⟩))
  | get k => exact hkey hc
  | set k v ex => exact hkey hc
  | del k => exact hkey hc
  | acquire k => exact hc
  | release k => exact hc
  | pollCreate c => exact hc
  | setLifecyclePolicy c n => exact hc
  | ensureRunning c => exact hc
  | exec c command => exact hc
  | _ => exact hc.elim

theorem concerns_unseen (ho : oid ≠ some u) (hc : Concerns cfg oid (Strange mine w) c) : Unseen cfg u mine t w c := by
  have hkey : ∀ {k : String}, ((∃ g, oid = some g ∧ k = userKey cfg g) ∨
      (∃ x : SessionCtx, x.userOid = oid ∧ k = ctxKey cfg x) ∨
        ∃ id, Strange mine w id ∧ (k = indexKey cfg id ∨ k = flagKey cfg id)) → ¬ Visible cfg u mine w k := by
    rintro k (⟨g,hg,rfl⟩ | ⟨x,hx,rfl⟩ | ⟨id,hs,rfl | rfl⟩)
    · exact user_unseen (fun h => ho (hg.trans (congrArg some h)))
    · exact ctx_unseen (hx ▸ ho)
    · exact index_unseen hs
    · exact flag_unseen hs
  have hroute : ∀ {k : String}, (∃ x : SessionCtx, x.userOid = oid ∧ k = routingKey x) →
      ∀ y : SessionCtx, y.userOid = some u → k ≠ routingKey y := by
    rintro k ⟨x,hx,rfl⟩ y hy he
    exact ho (hx.symm.trans ((routingKey_parts he).1.trans hy))
  cases c with
  | acquire k => exact hroute hc
  | release k => exact hroute hc
  | lockRedis k ttl =>
    obtain ⟨x,hx,rfl⟩ := hc
    exact lock_unseen (hx ▸ ho)
  | unlockRedis k =>
    obtain ⟨x,hx,rfl⟩ := hc
    exact lock_unseen (hx ▸ ho)
  | set k v ex => exact hkey hc
  | del k => exact hkey hc
  | pollCreate c => exact hc
  | setLifecyclePolicy c n => exact hc
  | exec c command => exact hc
  | clock => trivial
  | get k => trivial
  | ensureRunning c => trivial
  | _ => exact hc.elim

theorem visit_prepares {v : Visit} (hm : PhaseMove cfg p o r p') (hs : Serves (some v) p) (hj : ¬ Joint o) :
    (∃ ctx, Preparing cfg ctx o.cmd) ∨ ∃ g spec, o.cmd = .beginCreate g spec := by
  cases hm with
  | call ctx command st st' o r hc =>
    cases hc with
    | prepared c r hp => exact .inl ⟨ctx,hp⟩
    | prepFailed c r st hp hl => exact .inl ⟨ctx,hp⟩
    | began spec c hs => exact .inr ⟨_,spec,rfl⟩
    | beginFailed spec e st hs hl => exact .inr ⟨_,spec,rfl⟩
    | _ => exact absurd ⟨rfl,by simp⟩ hj
  | ending oid sid st st' o r he => exact hs.elim
  | reap st st' o r hr => exact hs.elim
  | resolveFailed v' oid st e hv => cases st <;> exact absurd ⟨rfl,by simp [Resolving.awaits]⟩ hj
  | _ => exact absurd ⟨rfl,by simp⟩ hj

theorem preparing_unseen (hp : Preparing cfg ctx c) : Unseen cfg u mine t w c := by
  have hroute : ∀ {k : String}, k = "diskimage:" ++ cfg.groupNames ctx.group ∨ k = "volume:" ++ cfg.groupNames ctx.group →
      ∀ y : SessionCtx, y.userOid = some u → k ≠ routingKey y := fun hk y _ he => setUpKey_ne ⟨_,hk⟩ y he.symm
  cases c with
  | acquire k => exact hroute hp
  | release k => exact hroute hp
  | _ => trivial

end Owners

section Attesting

-- Which sandbox is whose, in a run of calls and passes.
structure Attested (cfg : Config) (visits : Nat → Option Visit) (w : World) (ph : Nat → Phase) : Prop where
  isolated : Isolated cfg w ph
  posts : ∀ i, Serves (visits i) (ph i)
  filed : ∀ id e, w.redis (indexKey cfg id) = some e → ∃ x : SessionCtx,
    e.val = .binding (oidText x.userOid) x.sessionId x.group.name ∧ Made cfg w ph (routingKey x) id

variable {cfg : Config} {visits : Nat → Option Visit} {rep : Nat → Nat} {now t : Nat} {o : Op} {r : Except Exc o.Ans}
variable {h : Hint} {w w' : World} {ph : Nat → Phase} {p : Phase}

theorem Attested.step (hi : Attested cfg visits w ph) (hm : PhaseMove cfg (ph t) o r p) (ha : act rep t o w r h = some w') :
    Attested cfg visits w' (upd ph t p) where
  isolated := hi.isolated.step hm ha
  posts := forall_upd (serving_move hm (hi.posts t)) hi.posts
  filed := by
    intro id e he
    rcases act_entry ha he with he | hw
    · obtain ⟨x,hx,hmade⟩ := hi.filed id e he
      exact ⟨x,hx,hmade.mono (act_grows ha) (stays_upd hm)⟩
    · obtain ⟨ctx,command,c,v,ex,rfl,ho,hp,rfl⟩ := writes_index hm hw
      exact ⟨ctx,rfl,((hi.isolated.held t ctx command _ c hp rfl).2).mono (act_grows ha) (stays_upd hm)⟩

theorem Attested.env {e : Env} (hi : Attested cfg visits w ph) (he : env e w = some w') : Attested cfg visits w' ph where
  isolated := hi.isolated.env he
  posts := hi.posts
  filed := by
    intro id x hx
    rw [env_redis he] at hx
    obtain ⟨y,hy,hmade⟩ := hi.filed id x hx
    exact ⟨y,hy,hmade.mono (env_grows he) (fun t ctx command st h => ⟨st,h⟩)⟩

theorem attested_start : Attested cfg visits (World.empty now) (fun t => visitPhase cfg (visits t)) where
  isolated := isolated_start (fun _ _ _ _ => visit_start)
  posts := fun i => serving_start _
  filed := by
    intro id e he
    cases he

theorem Attested.owner (hi : Attested cfg visits w ph) {x : SessionCtx} {id : String}
    (hm : Made cfg w ph (routingKey x) id) : ∃ b v, w.boxes id = some b ∧ visits b.creator = some v ∧ v.oid = x.userOid := by
  obtain ⟨b,ctx,command,st,hb,hp,hk,-⟩ := hm
  have hserve := hi.posts b.creator
  rw [hp] at hserve
  cases hv : visits b.creator with
  | none =>
    rw [hv] at hserve
    exact hserve.elim
  | some v =>
    rw [hv] at hserve
    exact ⟨b,v,hb,hv,hserve.1.symm.trans (routingKey_parts hk).1⟩

-- The tasks that are calls of this user.
def ours (visits : Nat → Option Visit) (u : Guid) (t : Nat) : Bool := (visits t).any (fun v => v.oid = some u)

variable {u : Guid} {x : SessionCtx} {id : String}

theorem ours_eq {v : Visit} (hv : visits t = some v) : ours visits u t = decide (v.oid = some u) := by
  simp [ours,hv]

theorem Attested.mine (hi : Attested cfg visits w ph) (hm : Made cfg w ph (routingKey x) id) (hx : x.userOid = some u) :
    ¬ Strange (ours visits u) w id := by
  obtain ⟨b,v,hb,hv,ho⟩ := hi.owner hm
  rintro ⟨b',hb',hs⟩
  cases hb.symm.trans hb'
  rw [ours_eq hv,ho] at hs
  exact of_decide_eq_false hs hx

theorem Attested.strange (hi : Attested cfg visits w ph) (hm : Made cfg w ph (routingKey x) id) (hx : x.userOid ≠ some u) :
    Strange (ours visits u) w id := by
  obtain ⟨b,v,hb,hv,ho⟩ := hi.owner hm
  exact ⟨b,hb,by rw [ours_eq hv,ho]; exact decide_eq_false hx⟩

theorem Attested.catalog (hi : Attested cfg visits w ph) : Catalog cfg u (ours visits u) w := by
  intro id v hl
  obtain ⟨e,he,rfl,-⟩ := lookup_some hl
  obtain ⟨x,hx,hm⟩ := hi.filed id e he
  refine ⟨x,hx,fun ho => ?_⟩
  by_contra hne
  exact own_known ho (hi.strange hm hne)

theorem visit_seen {v : Visit} (hi : Attested cfg visits w ph) (hm : PhaseMove cfg (ph t) o r p) (hv : visits t = some v)
    (hu : v.oid = some u) (hj : Joint o) : Seen cfg u (ours visits u) w o.cmd := by
  have hserve := hi.posts t
  rw [hv] at hserve
  refine concerns_seen (hu ▸ visit_concerns hm hserve hj (fun ctx command st c hp hc => ?_))
  rw [hp] at hserve
  exact hi.mine (hi.isolated.held t ctx command st c hp hc).2 (hserve.1.trans hu)

theorem visit_unseen {v : Visit} (hi : Attested cfg visits w ph) (hm : PhaseMove cfg (ph t) o r p) (hv : visits t = some v)
    (hu : v.oid ≠ some u) : Unseen cfg u (ours visits u) t w o.cmd := by
  have hserve := hi.posts t
  rw [hv] at hserve
  by_cases hj : Joint o
  · refine concerns_unseen hu (visit_concerns hm hserve hj (fun ctx command st c hp hc => ?_))
    rw [hp] at hserve
    exact hi.strange (hi.isolated.held t ctx command st c hp hc).2 (hserve.1 ▸ hu)
  · rcases visit_prepares hm hserve hj with ⟨ctx,hp⟩ | ⟨g,spec,ho⟩
    · exact preparing_unseen hp
    · rw [ho]
      exact (ours_eq hv).trans (decide_eq_false hu)

end Attesting

section Twins

-- A call on its way to a sandbox, and the same call where it has not begun to set up yet.
def Constructs (cfg : Config) (q q' : M Client) : Prop := ∃ ctx, Begins cfg ctx q ∧ q' = waitFor (beginSandbox cfg ctx)

structure Note where
  time : Nat
  task : Nat
  event : Event

-- What a call does, but for what it finds set up already and what its sandbox is made from.
def visitEvent : (o : Op) → Except Exc o.Ans → Option Event
  | ⟨.beginCreate g _,_⟩, .ok c => some (.created g c)
  | o, r => if o.setsUp then none else some (.answered o r)

variable (visits : Nat → Option Visit) (u : Guid)

def event (s : System) (t : Nat) (o : Op) (r : Except Exc o.Ans) : Option Event :=
  if ours visits u t then visitEvent o r
  else if (visits t).isNone then passEvent (ours visits u) s.world o r
  else none

def jot (s : System) (l : Step) (g : List Note) : List Note :=
  match l with
  | .task t o r _ => g ++ ((event visits u s t o r).map (fun e => ⟨s.world.now,t,e⟩)).toList
  | .env _ => g

def FaultFree : Step → Prop
  | .task _ o r _ => healthy o r = true
  | .env _ => True

-- No call of another user makes a step.
def Only : Step → Prop
  | .task t _ _ _ => ours visits u t = true ∨ visits t = none
  | .env _ => True

variable (cfg : Config)

structure Twin (s s' : System) : Prop where
  world : Mirrors cfg u (ours visits u) s.world s'.world
  calls : ∀ t, ours visits u t = true → Beside Joint (Builds cfg) (Constructs cfg) (s.pool t) (s'.pool t)
  passes : ∀ t, visits t = none →
    Beside Electing (Passes cfg) (Sweeps cfg u (ours visits u) s.world) (s.pool t) (s'.pool t)

-- A run of the user's calls and the passes alone, with what there is to note of it.
def Goes (rep : Nat → Nat) (s : System) (g : List Note) (s' : System) (g' : List Note) : Prop :=
  (machine rep).Run (fun _ _ l => FaultFree l ∧ Only visits u l) (jot visits u) s g s' g'

variable {visits u cfg} {rep : Nat → Nat} {now t : Nat} {o : Op} {r : Except Exc o.Ans} {h : Hint} {s s' : System}
variable {g : List Note} {w w' : World} {ph : Nat → Phase} {p : Phase} {k : Except Exc o.Ans → M Out}

theorem builds_constructs {q : M Client} (hq : Builds cfg q) : Constructs cfg q q ∧ ∀ e, q ≠ .raise e := by
  obtain ⟨ctx,rfl⟩ := hq
  refine ⟨⟨ctx,builds_begins rfl,rfl⟩,fun e he => ?_⟩
  have hb : Begins cfg ctx _ := builds_begins rfl
  rw [he] at hb
  cases hb

theorem beside_begins {ctx : SessionCtx} {F : M Client → M Out} {q : M Client} (hF : Frame F)
    (hret : ∀ c, Staged Joint (Builds cfg) (F (.ret c))) (hq : Begins cfg ctx q) :
    Beside Joint (Builds cfg) (Constructs cfg) (F q) (F (waitFor (beginSandbox cfg ctx))) := by
  have hd : Constructs cfg q (waitFor (beginSandbox cfg ctx)) := ⟨ctx,hq,rfl⟩
  cases hq with
  | request spec k hk => exact .inside F _ _ _ hF hret hd
  | prepare c k hc hk => exact .inside F _ _ _ hF hret hd

theorem beside_sweeps {mine : Nat → Bool} {F : M Unit → M Out} {q q' : M Unit} (hF : Frame F)
    (hret : ∀ a, Staged Electing (Passes cfg) (F (.ret a))) (hs : Sweeps cfg u mine w q q') :
    Beside Electing (Passes cfg) (Sweeps cfg u mine w) (F q) (F q') := by
  cases q with
  | call o k => exact .inside F o k q' hF hret hs
  | ret a =>
    obtain ⟨st,hq,rfl,-⟩ := hs
    rw [rest_ret hq.symm,← hq]
    exact .same _ (hret a)
  | raise e =>
    obtain ⟨st,hq,-⟩ := hs
    exact absurd hq.symm rest_raises

theorem Twin.move (hT : Twin visits u cfg s s') (hm : Mirrors cfg u (ours visits u) w w') (hg : s.world.Grows w)
    {p : M Out} {pool' : Nat → M Out} (hrest : ∀ i, i ≠ t → pool' i = s'.pool i)
    (hcall : ours visits u t = true → Beside Joint (Builds cfg) (Constructs cfg) p (pool' t))
    (hpass : visits t = none → Beside Electing (Passes cfg) (Sweeps cfg u (ours visits u) w) p (pool' t)) :
    Twin visits u cfg ⟨w,upd s.pool t p⟩ ⟨w',pool'⟩ where
  world := hm
  calls i hi := by
    by_cases hit : i = t
    · subst hit
      simpa using hcall hi
    · simpa [hit,hrest i hit] using hT.calls i hi
  passes i hi := by
    by_cases hit : i = t
    · subst hit
      simpa using hpass hi
    · simpa [hit,hrest i hit] using (hT.passes i hi).mono (fun _ _ hs => hs.mono hg)

theorem not_ours (hv : visits t = none) : ours visits u t = false := by simp [ours,hv]

theorem ours_visit (ht : ours visits u t = true) : ∃ v, visits t = some v ∧ v.oid = some u := by
  cases hv : visits t with
  | none => simp [ours,hv] at ht
  | some v => exact ⟨v,rfl,of_decide_eq_true ((ours_eq hv).symm.trans ht)⟩

theorem visitEvent_prepares {c : Cmd} {r : Except Exc c.Ans} (hc : c.prepares = true) : visitEvent ⟨c,true⟩ r = none := by
  cases c <;> first | rfl | cases hc

theorem jot_ours (ht : ours visits u t = true) : jot visits u s (.task t o r h) g =
    g ++ ((visitEvent o r).map (fun e => ⟨s.world.now,t,e⟩)).toList := by
  simp only [jot,event,ht,if_true]

theorem jot_pass (hv : visits t = none) : jot visits u s (.task t o r h) g =
    g ++ ((passEvent (ours visits u) s.world o r).map (fun e => ⟨s.world.now,t,e⟩)).toList := by
  simp only [jot,event,not_ours hv,hv]
  rfl

theorem jot_other (ht : ours visits u t = false) (hv : visits t ≠ none) : jot visits u s (.task t o r h) g = g := by
  cases hx : visits t with
  | none => exact absurd hx hv
  | some v => simp [jot,event,ht,hx]

theorem hushed_healthy {x : Σ o : Op, Except Exc o.Ans} (hx : Hushed x) : healthy x.1 x.2 = true := by
  obtain ⟨⟨c,b⟩,r⟩ := x
  obtain ⟨hc,hr⟩ := hx
  cases r with
  | error e => exact absurd rfl (hr e)
  | ok a => cases c <;> first | rfl | cases hc

theorem goes_env {e : Env} {pool : Nat → M Out} (he : env e w = some w') : Goes visits u rep ⟨w,pool⟩ g ⟨w',pool⟩ g :=
  Machine.Run.start.step (l := .env e) ⟨trivial,trivial⟩ ((machine rep).fire_change he)

theorem goes_call (s' : System) {h : Hint} (ho : Only visits u (.task t o r h)) (hh : healthy o r = true) (hp : s'.pool t = .call o k)
    (ha : act rep t o s'.world r h = some w) :
    Goes visits u rep s' g ⟨w,upd s'.pool t (k r)⟩ (jot visits u s' (.task t o r h) g) :=
  Machine.Run.start.step ⟨hh,ho⟩ ((machine rep).fire_call hp ha)

-- Alone, a call sets up what it needs without a pause.
theorem sets_up (rep : Nat → Nat) {ctx : SessionCtx} {F : M Client → M Out} (hm : Mirrors cfg u (ours visits u) w s'.world)
    (ht : ours visits u t = true) (hF : Frame F) (hq : s'.pool t = F (waitFor (beginSandbox cfg ctx))) :
    ∃ (s₁ : System) (spec : Spec) (k : Except Exc Client → M Out), Unmoved s'.world s₁.world ∧ Goes visits u rep s' g s₁ g ∧
      s₁.pool t = .call ⟨.beginCreate (cfg.groupNames ctx.group) spec,true⟩ k ∧ (∀ c, k (.ok c) = F (.ret c)) ∧
        ∀ i, i ≠ t → s₁.pool i = s'.pool i := by
  obtain ⟨w₁,spec,hspec,hw₁⟩ : Manages rep t s'.world (specify cfg ctx) := specify_manages (fun k hk => hm.vacant _ k hk)
  obtain ⟨tr,halone,htr⟩ := quietly_waitFor hspec
  have hbegin : waitFor (beginSandbox cfg ctx) = (waitFor (specify cfg ctx)).bind (fun spec =>
      waitFor (perform (.beginCreate (cfg.groupNames ctx.group) spec))) := waitFor_bind _ _
  refine ⟨⟨w₁,upd s'.pool t (F (waitFor (perform (.beginCreate (cfg.groupNames ctx.group) spec))))⟩,spec,_,hw₁,?_,
    (upd_same _ _ _).trans (hF _ _),fun c => rfl,fun i hit => upd_other _ _ hit⟩
  have hframe := hF.comp (frame_bind (fun spec => waitFor (perform (.beginCreate (cfg.groupNames ctx.group) spec))))
  refine halone.within hframe (hq.trans (congrArg F hbegin)) (fun w w₁ pool hd => ?_) (fun x hx s h => ?_)
  · rcases hd with rfl | ⟨id,state,he⟩
    · exact .start
    · exact goes_env he
  · obtain ⟨hhush,htimed⟩ := htr x hx
    refine ⟨⟨hushed_healthy hhush,.inl ht⟩,?_⟩
    obtain ⟨⟨c,b⟩,r⟩ := x
    cases htimed
    rw [jot_ours ht,visitEvent_prepares hhush.1]
    exact List.append_nil g

theorem Twin.env {e : Env} (hT : Twin visits u cfg s s') (he : env e s.world = some w) :
    ∃ s₂', Goes visits u rep s' g s₂' g ∧ Twin visits u cfg ⟨w,s.pool⟩ s₂' := by
  have hpass : ∀ t, visits t = none → Beside Electing (Passes cfg) (Sweeps cfg u (ours visits u) w) (s.pool t) (s'.pool t) :=
    fun t ht => (hT.passes t ht).mono (fun _ _ hs => hs.mono (env_grows he))
  rcases hT.world.env he with hm | ⟨w',he',hm⟩
  · exact ⟨s',.start,hm,hT.calls,hpass⟩
  · exact ⟨⟨w',s'.pool⟩,goes_env he',hm,hT.calls,hpass⟩

theorem Twin.stranger {v : Visit} (hT : Twin visits u cfg s s') (hi : Attested cfg visits s.world ph)
    (hm : PhaseMove cfg (ph t) o r p) (hv : visits t = some v) (hu : v.oid ≠ some u)
    (ha : act rep t o s.world r h = some w) : Twin visits u cfg ⟨w,upd s.pool t (k r)⟩ s' := by
  refine hT.move (hT.world.unseen (visit_unseen hi hm hv hu) ha) (act_grows ha) (fun _ _ => rfl) (fun ht => ?_) (fun hn => ?_)
  · rw [ours_eq hv] at ht
    exact absurd (of_decide_eq_true ht) hu
  · rw [hv] at hn
    cases hn

theorem Twin.call (hT : Twin visits u cfg s s') (hi : Attested cfg visits s.world ph)
    (hm : PhaseMove cfg (ph t) o r p) (ht : ours visits u t = true) (hp : s.pool t = .call o k) (hh : healthy o r = true)
    (ha : act rep t o s.world r h = some w) :
    ∃ s₂', Goes visits u rep s' g s₂' (jot visits u s (.task t o r h) g) ∧ Twin visits u cfg ⟨w,upd s.pool t (k r)⟩ s₂' := by
  obtain ⟨v,hv,hu⟩ := ours_visit ht
  have hsome : visits t ≠ none := by simp [hv]
  have hmove : ∀ {w' : World} {pool' : Nat → M Out}, Mirrors cfg u (ours visits u) w w' →
      (∀ i, i ≠ t → pool' i = s'.pool i) → Beside Joint (Builds cfg) (Constructs cfg) (k r) (pool' t) →
      Twin visits u cfg ⟨w,upd s.pool t (k r)⟩ ⟨w',pool'⟩ := fun hw hrest hb =>
    hT.move hw (act_grows ha) hrest (fun _ => hb) (fun hn => absurd hn hsome)
  rcases (hT.calls t ht).ahead hp (fun q => builds_constructs) with ⟨hj,hsame,hk⟩ | ⟨F,k',q,hF,hret,rfl,hq,hd⟩
  · obtain ⟨w₂',ha',hm'⟩ := hT.world.act (visit_seen hi hm hv hu hj) hh ha
    have hgo := goes_call (g := g) s' (.inl ht) hh (hsame.trans hp) ha'
    rw [jot_ours ht,hT.world.now,← jot_ours ht] at hgo
    exact ⟨_,hgo,hmove hm' (fun i hit => upd_other _ _ hit) (by rw [upd_same]; exact .same _ (hk r))⟩
  · obtain ⟨ctx,hb,rfl⟩ := hd
    cases hb with
    | prepare c k' hc hnext =>
      refine ⟨s',?_,hmove (hT.world.unseen (preparing_unseen hc) ha) (fun _ _ => rfl) ?_⟩
      · rw [jot_ours ht,visitEvent_prepares (preparing_prepares hc)]
        exact (List.append_nil g).symm ▸ .start
      · rw [hq]
        exact beside_begins hF hret (hnext r hh)
    | request spec k' hok =>
      cases r with
      | error e => cases hh
      | ok c =>
        obtain ⟨hgroup,hn,rfl⟩ := act_beginCreate ha
        obtain ⟨s₁,spec',k₁,hw₁,hgo,hp₁,hk₁,hrest⟩ := sets_up (g := g) rep hT.world ht hF hq
        have hm₁ := hT.world.unmoved hw₁
        have hact : act rep t ⟨.beginCreate (cfg.groupNames ctx.group) spec',true⟩ s₁.world (.ok c) h =
            some (s₁.world.create c.sandboxId (cfg.groupNames ctx.group) spec' t) := by
          simp [act,hgroup,hm₁.absent hn]
        have hcall := goes_call (g := g) s₁ (.inl ht) rfl hp₁ hact
        rw [jot_ours ht,hm₁.now] at hcall
        rw [jot_ours ht]
        refine ⟨_,hgo.trans hcall,hmove (hm₁.create hn ht _ _ _) (fun i hit => (upd_other _ _ hit).trans (hrest i hit)) ?_⟩
        rw [upd_same,hk₁]
        simp only [hok]
        exact .same _ (hret c)

theorem electing_seen {mine : Nat → Bool} (ho : Electing o) : Seen cfg u mine w o.cmd := by
  rcases ho with ho | ⟨v,ex,ho⟩ | ⟨v,ho⟩ <;> rw [ho]
  · trivial
  · exact .inl rfl
  · exact .inl rfl

theorem electing_event {mine : Nat → Bool} (ho : Electing o) : passEvent mine w o r = some (.answered o r) := by
  obtain ⟨c,b⟩ := o
  rcases ho with ho | ⟨v,ex,ho⟩ | ⟨v,ho⟩ <;> cases ho <;> rfl

theorem Twin.pass (hT : Twin visits u cfg s s') (hi : Attested cfg visits s.world ph) (hv : visits t = none)
    (hp : s.pool t = .call o k) (hh : healthy o r = true) (ha : act rep t o s.world r h = some w) :
    ∃ s₂', Goes visits u rep s' g s₂' (jot visits u s (.task t o r h) g) ∧ Twin visits u cfg ⟨w,upd s.pool t (k r)⟩ s₂' := by
  have hmove : ∀ {w' : World} {pool' : Nat → M Out}, Mirrors cfg u (ours visits u) w w' →
      (∀ i, i ≠ t → pool' i = s'.pool i) →
      Beside Electing (Passes cfg) (Sweeps cfg u (ours visits u) w) (k r) (pool' t) →
      Twin visits u cfg ⟨w,upd s.pool t (k r)⟩ ⟨w',pool'⟩ := fun hw hrest hb =>
    hT.move hw (act_grows ha) hrest (fun ht => absurd ht (by simp [not_ours hv])) (fun _ => hb)
  rcases (hT.passes t hv).ahead hp (fun q => passes_sweep) with ⟨hj,hsame,hk⟩ | ⟨F,k',q,hF,hret,rfl,hq,hd⟩
  · obtain ⟨w₂',ha',hm'⟩ := hT.world.act (electing_seen hj) hh ha
    have hgo := goes_call (u := u) (g := g) s' (.inr hv) hh (hsame.trans hp) ha'
    rw [jot_pass hv,electing_event hj,hT.world.now] at hgo
    rw [jot_pass hv,electing_event hj]
    exact ⟨_,hgo,hmove hm' (fun i hit => upd_other _ _ hit) (by rw [upd_same]; exact .same _ (hk r))⟩
  · rcases sweeps_step hT.world hi.catalog hd hh ha with ⟨hm,hs,he⟩ | ⟨k₁,r',w₂',hq',hh',ha',hm,hs,he⟩
    · refine ⟨s',?_,hmove hm (fun _ _ => rfl) ?_⟩
      · rw [jot_pass hv,he]
        exact (List.append_nil g).symm ▸ .start
      · rw [hq]
        exact beside_sweeps hF hret hs
    · subst hq'
      have hgo := goes_call (u := u) (g := g) s' (.inr hv) hh' (hq.trans (hF o k₁)) ha'
      rw [jot_pass hv,he,hT.world.now] at hgo
      rw [jot_pass hv]
      exact ⟨_,hgo,hmove hm (fun i hit => upd_other _ _ hit) (by rw [upd_same]; exact beside_sweeps hF hret hs)⟩

theorem mirrors_start {mine : Nat → Bool} : Mirrors cfg u mine (World.empty now) (World.empty now) where
  now := rfl
  uuids := rfl
  redis := fun _ _ => rfl
  boxes := fun _ => trivial
  named := by simp [World.empty]
  made := rfl
  locks := fun _ _ _ => rfl
  vacant := fun _ _ _ => rfl

theorem twin_start : Twin visits u cfg (startVisits cfg visits now) (startVisits cfg visits now) where
  world := mirrors_start
  calls t ht := by
    obtain ⟨v,hv,-⟩ := ours_visit ht
    simp only [startVisits,hv]
    exact .same _ (visit_staged v)
  passes t hv := by
    simp only [startVisits,hv]
    exact .same _ round_staged

theorem twin_run (hr : (machine rep).Run (fun _ _ l => FaultFree l) (jot visits u) (startVisits cfg visits now) [] s g) :
    ∃ ph, (Attested cfg visits s.world ph ∧
      ∃ s', Goes visits u rep (startVisits cfg visits now) [] s' g ∧ Twin visits u cfg s s') ∧
        ∀ t, Follows (PhaseMove cfg) (ph t) (s.pool t) Finished := by
  refine hr.followed (I := fun s g ph => Attested cfg visits s.world ph ∧
      ∃ s', Goes visits u rep (startVisits cfg visits now) [] s' g ∧ Twin visits u cfg s s')
    (fun t => visitPhase cfg (visits t)) (fun t => ?_) ⟨attested_start,_,.start,twin_start⟩ ?_ ?_
  · simp only [startVisits]
    cases visits t with
    | none => exact job_follows cfg .reaperRound
    | some v => exact visit_follows cfg v
  · rintro s g ph t o k r h w p ⟨hi,s',hgo,hT⟩ hph hh hp hm _ ha
    refine ⟨hi.step hm ha,?_⟩
    cases hv : visits t with
    | none =>
      obtain ⟨s₂',hgo',hT'⟩ := hT.pass (g := g) hi hv hp hh ha
      exact ⟨s₂',hgo.trans hgo',hT'⟩
    | some v =>
      by_cases hu : v.oid = some u
      · have ht : ours visits u t = true := (ours_eq hv).trans (decide_eq_true hu)
        obtain ⟨s₂',hgo',hT'⟩ := hT.call (g := g) hi hm ht hp hh ha
        exact ⟨s₂',hgo.trans hgo',hT'⟩
      · have ht : ours visits u t = false := (ours_eq hv).trans (decide_eq_false hu)
        rw [jot_other ht (by simp [hv])]
        exact ⟨s',hgo,hT.stranger hi hm hv hu ha⟩
  · rintro s g ph e w ⟨hi,s',hgo,hT⟩ _ he
    obtain ⟨s₂',hgo',hT'⟩ := hT.env (g := g) he
    exact ⟨hi.env he,s₂',hgo.trans hgo',hT'⟩

theorem begins_next {ctx : SessionCtx} {q : M Client} (hq : Begins cfg ctx q) : q.next ≠ none := by
  cases hq <;> simp [Task.next]

theorem Mirrors.madeBy {mine : Nat → Bool} (hm : Mirrors cfg u mine w w') (ht : mine t = true) (id : String) :
    MadeBy w' t id ↔ MadeBy w t id := by
  constructor
  · rintro ⟨b',hb',hc⟩
    have hs : ¬ Strange mine w id := by
      rintro ⟨b,hb,hs⟩
      have hx := hm.boxes id
      rw [hb,hb'] at hx
      exact absurd (hs.symm.trans hx.1) (by simp)
    rcases hm.known hs with ⟨-,hn⟩ | ⟨b,spec,hb,hb₁⟩
    · rw [hb'] at hn
      cases hn
    · cases hb'.symm.trans hb₁
      exact ⟨b,hb,hc⟩
  · rintro ⟨b,hb,hc⟩
    have hs : ¬ Strange mine w id := by
      rintro ⟨b₁,hb₁,hs⟩
      cases hb.symm.trans hb₁
      rw [hc,ht] at hs
      cases hs
    rcases hm.known hs with ⟨hn,-⟩ | ⟨b₁,spec,hb₁,hb'⟩
    · rw [hb] at hn
      cases hn
    · cases hb.symm.trans hb₁
      exact ⟨_,hb',hc⟩

-- Without the calls of all other users the user's calls go on as before, at the same times and with the
-- same answers, and so do the passes; no call of the user ends otherwise or gets another sandbox.
theorem noninterference (visits : Nat → Option Visit) (u : Guid)
    (hr : (machine rep).Run (fun _ _ l => FaultFree l) (jot visits u) (startVisits cfg visits now) [] s g) :
    ∃ s', (machine rep).Run (fun _ _ l => FaultFree l ∧ Only visits u l) (jot visits u) (startVisits cfg visits now) [] s' g ∧
      s'.world.now = s.world.now ∧ ∀ t v, visits t = some v → v.oid = some u →
        (s'.pool t).outcome = (s.pool t).outcome ∧ ∀ id, MadeBy s'.world t id ↔ MadeBy s.world t id := by
  obtain ⟨ph,⟨-,s',hgo,hT⟩,-⟩ := twin_run hr
  refine ⟨s',hgo,hT.world.now,fun t v hv hu => ?_⟩
  have ht : ours visits u t = true := (ours_eq hv).trans (decide_eq_true hu)
  refine ⟨(hT.calls t ht).outcome ?_,hT.world.madeBy ht⟩
  rintro q q' ⟨ctx,-,rfl⟩ hn
  exact absurd hn (begins_next (builds_begins rfl))

end Twins

section Mixed

def strangerOid : Guid := ⟨"33333333-3333-3333-3333-333333333333",by decide,List.all_iff_forall_prop.mp (by decide)⟩

def strangerVisit : Visit := ⟨some strangerOid,some "t2",none,.action,none,sampleCommand⟩

def strangerSession : SessionCtx := strangerVisit.ctx (some "t2_0") (some "t2")

-- A call of one user and a call of another; every other task is a reaper pass.
def mixedVisits : Nat → Option Visit
  | 0 => some (sampleVisit .action)
  | 1 => some strangerVisit
  | _ => none

def faultless : Step → Bool
  | .task _ o r _ => healthy o r
  | .env _ => true

theorem faultless_sound (l : Step) (hl : faultless l = true) : FaultFree l := by
  cases l with
  | env e => trivial
  | task t o r h => exact hl

def strangerCall (cfg : Config) : List Step :=
  [answers 1 (.get (userKey cfg strangerOid)) none,answers 1 .clock 0,
    answers 1 (.set (userKey cfg strangerOid) (.text "t2_0") cfg.sessions.ttl) (),
    answers 1 (.acquire (routingKey strangerSession)) (),answers 1 (.get (ctxKey cfg strangerSession)) none,
    answers 1 (.get (cfg.profiles.k (UserProfileCache.key strangerOid.text))) none true] ++
    creation cfg 1 strangerSession "b1"

theorem noninterference_mixed : ∃ s g s', (machine id).Run (fun _ _ l => FaultFree l) (jot mixedVisits sampleOid)
      (startVisits sampleConfig mixedVisits 0) [] s g ∧
    (machine id).Run (fun _ _ l => FaultFree l ∧ Only mixedVisits sampleOid l) (jot mixedVisits sampleOid)
      (startVisits sampleConfig mixedVisits 0) [] s' g ∧
    (s.pool 0).outcome = some (.ok (.visited (some "t1_0") ⟨"sg-action","b2"⟩ (capped sampleConfig ⟨0,none,none⟩))) ∧
    (s'.pool 0).outcome = (s.pool 0).outcome := by
  obtain ⟨s,g,hr,hn⟩ : ∃ s g, (machine id).Run (fun _ _ l => FaultFree l) (jot mixedVisits sampleOid)
      (startVisits sampleConfig mixedVisits 0) [] s g ∧ (s.pool 0).outcome =
        some (.ok (.visited (some "t1_0") ⟨"sg-action","b2"⟩ (capped sampleConfig ⟨0,none,none⟩))) :=
    Machine.replay_reaches (fun _ _ l => faultless l)
      (strangerCall sampleConfig ++ newSession sampleConfig 0 ++
        firstCall sampleConfig 0 (sampleSession .action) "b2")
      (fun _ _ l hl => faultless_sound l hl) (by decide +kernel)
  obtain ⟨s',hr',-,h⟩ := noninterference mixedVisits sampleOid hr
  exact ⟨s,g,s',hr,hr',hn,(h 0 (sampleVisit .action) rfl rfl).1⟩

end Mixed

end IdentityAwareMcp
