import IdentityAwareMcp.Safety.Leaks

namespace IdentityAwareMcp

open Coop SandboxManager

section Stages

def Cmd.redis : Cmd → Bool
  | .lockRedis _ _ => true
  | .unlockRedis _ => true
  | .get _ => true
  | .set _ _ _ => true
  | .del _ => true
  | .setNx _ _ _ => true
  | .evalRelease _ _ => true
  | _ => false

-- No sandbox is bound when the call acts on what it has read.
@[simp] def Stage.clear : Stage → Bool
  | .prep => true
  | .poll _ => true
  | .policy _ => true
  | .publish _ => true
  | .unbind => true
  | _ => false

-- The routing key holds what the call has written.
@[simp] def Stage.own : Stage → Bool
  | .wake _ => true
  | .record _ => true
  | .flag _ => true
  | .boot _ => true
  | .rollback => true
  | _ => false

-- The sandbox is the call's own creation.
@[simp] def Stage.sole : Stage → Bool
  | .poll _ => true
  | .policy _ => true
  | .publish _ => true
  | .record _ => true
  | .flag _ => true
  | .boot _ => true
  | .rollback => true
  | _ => false

@[simp] def Stage.building : Stage → Option Client
  | .poll c => some c
  | .policy c => some c
  | .publish c => some c
  | _ => none

@[simp] def Stage.built : Stage → Option Client
  | .policy c => some c
  | .publish c => some c
  | _ => none

-- The sandbox that the routing key is bound to while the call is at this await.
@[simp] def Stage.settled : Stage → Option Client
  | .refresh c => some c
  | .wake c => some c
  | .record c => some c
  | .flag c => some c
  | .boot c => some c
  | .mark c => some c
  | .done c => some c
  | .unlock res => res
  | .leave res => res
  | .left res => res
  | _ => none

-- What the history knows of a call: the sandbox it has chosen, until when the routing
-- key keeps it (never set before the publication), and whether it was read.
structure Use where
  id : Option String
  expiry : Option Nat
  hit : Bool

def Use.idle : Use := ⟨none,none,false⟩

@[simp] def Fits (u : Use) : Stage → Prop
  | .refresh c => u.id = some c.sandboxId ∧ u.expiry ≠ none ∧ u.hit = true
  | .wake c => u.id = some c.sandboxId ∧ u.expiry ≠ none
  | .poll c => u.id = some c.sandboxId ∧ u.expiry = none ∧ u.hit = false
  | .policy c => u.id = some c.sandboxId ∧ u.expiry = none ∧ u.hit = false
  | .publish c => u.id = some c.sandboxId ∧ u.expiry = none ∧ u.hit = false
  | .record c => u.id = some c.sandboxId ∧ u.expiry ≠ none
  | .flag c => u.id = some c.sandboxId ∧ u.expiry ≠ none
  | .boot c => u.id = some c.sandboxId ∧ u.expiry ≠ none
  | .rollback => u.expiry ≠ none
  | _ => True

structure Steady (st st' : Stage) : Prop where
  clear : st'.clear = true → st.clear = true
  own : st'.own = true → st.own = true
  sole : st'.sole = true → st.sole = true
  building : ∀ c, st'.building = some c → st.building = some c
  built : ∀ c, st'.built = some c → st.built = some c
  settled : ∀ c, st'.settled = some c → st.settled = some c
  fits : ∀ u, Fits u st → Fits u st'

theorem steady_leaving {st st' : Stage} {res : Option Client} (hl : Leaving res st')
    (hr : ∀ c, res = some c → st.settled = some c) : Steady st st' := by
  rcases hl with rfl | rfl <;> constructor <;> first | exact hr | simp

end Stages

section Effects

variable (cfg : Config) (t : Nat) (ctx : SessionCtx) (w : World)

-- The step leaves alone what routing keys and index hold, and which sandboxes there are.
structure Calm (w' : World) : Prop where
  now : w'.now = w.now
  keys : ∀ x, w'.redis (ctxKey cfg x) = w.redis (ctxKey cfg x)
  index : ∀ id, w'.redis (indexKey cfg id) = w.redis (indexKey cfg id)
  boxes : ∀ id b, w.boxes id = some b → ∃ b', w'.boxes id = some b' ∧ b'.deleting = b.deleting ∧ b'.gone = b.gone

structure Tame (c : Cmd) : Prop where
  keys : ∀ t w x, ¬ Touches t w c (ctxKey cfg x)
  index : ∀ t w id, ¬ Touches t w c (indexKey cfg id)
  delete : ∀ x, c ≠ .beginDelete x
  poll : ∀ x, c ≠ .pollCreate x
  get : ∀ k, c = .get k → k ≠ ctxKey cfg ctx

inductive CallEffect : Stage → (o : Op) → Except Exc o.Ans → World → Stage → Prop
  | hit (id : String) (e : Entry) : w.redis (ctxKey cfg ctx) = some e → e.val = .text id → e.live w.now = true →
      CallEffect .look ⟨.get (ctxKey cfg ctx),false⟩ (.ok (some (.text id))) w
        (.refresh ⟨cfg.groupNames ctx.group,id⟩)
  | miss (v : Option Value) : v = w.lookup (ctxKey cfg ctx) → v.bind Value.asText = none →
      CallEffect .look ⟨.get (ctxKey cfg ctx),false⟩ (.ok v) w .prep
  | refreshed (c : Client) (u : Unit) : CallEffect (.refresh c)
      ⟨.set (ctxKey cfg ctx) (.text c.sandboxId) cfg.sessions.ttl,false⟩ (.ok u)
      (w.store (ctxKey cfg ctx) (.text c.sandboxId) cfg.sessions.ttl) (.wake c)
  | published (c : Client) (u : Unit) : CallEffect (.publish c)
      ⟨.set (ctxKey cfg ctx) (.text c.sandboxId) cfg.sessions.ttl,false⟩ (.ok u)
      (w.store (ctxKey cfg ctx) (.text c.sandboxId) cfg.sessions.ttl) (if cfg.index then .record c else .flag c)
  | unbound (u : Unit) : CallEffect .unbind ⟨.del (ctxKey cfg ctx),false⟩ (.ok u) (w.erase (ctxKey cfg ctx)) .prep
  | rolledBack (u : Unit) (st' : Stage) : Leaving none st' →
      CallEffect .rollback ⟨.del (ctxKey cfg ctx),false⟩ (.ok u) (w.erase (ctxKey cfg ctx)) st'
  | began (spec : Spec) (c : Client) : w.boxes c.sandboxId = none →
      CallEffect .prep ⟨.beginCreate (cfg.groupNames ctx.group) spec,true⟩ (.ok c)
        (w.create c.sandboxId (cfg.groupNames ctx.group) spec t) (.poll c)
  | built (c : Client) (u : Unit) : w.present c = true → CallEffect (.poll c) ⟨.pollCreate c,true⟩ (.ok u)
      (w.modifyBox c.sandboxId (fun b => { b with ready := true })) (.policy c)
  | failed (c : Client) (e : Exc) (w' : World) (st' : Stage) : Leaving none st' →
      w' = w ∨ w' = w.modifyBox c.sandboxId (fun b => { b with gone := true }) →
      CallEffect (.poll c) ⟨.pollCreate c,true⟩ (.error e) w' st'
  | recorded (c : Client) (u : Unit) : CallEffect (.record c) ⟨.set (indexKey cfg c.sandboxId)
      (.binding (oidText ctx.userOid) ctx.sessionId ctx.group.name) none,false⟩ (.ok u)
      (w.store (indexKey cfg c.sandboxId) (.binding (oidText ctx.userOid) ctx.sessionId ctx.group.name) none)
      (.flag c)
  | stale (c : Client) : (∀ b, w.boxes c.sandboxId = some b → b.groupName = c.groupName → b.deleting = false →
      b.gone = true) → CallEffect (.wake c) ⟨.ensureRunning c,false⟩ (.error .notFound) w .unbind
  | calm (st st' : Stage) (o : Op) (r : Except Exc o.Ans) (w' : World) : Calm cfg w w' → Steady st st' →
      Tame cfg ctx o.cmd → (∀ g spec, o.cmd = .beginCreate g spec → ∃ e, r = .error e) → CallEffect st o r w' st'

variable {cfg t ctx w} {command : Option String} {rep : Nat → Nat} {o : Op} {r : Except Exc o.Ans} {h : Hint}
variable {w' : World} {st st' : Stage}

theorem calm_act (ha : act rep t o w r h = some w') (hc : Tame cfg ctx o.cmd) : Calm cfg w w' :=
  ⟨act_now ha,fun x => act_untouched ha (hc.keys t w x),fun id => act_untouched ha (hc.index t w id),
    fun _ _ hb => act_steady ha hc.delete hc.poll hb⟩

def Cmd.plain : Cmd → Bool
  | .beginDelete _ => false
  | .pollCreate _ => false
  | c => !c.redis

theorem tame_plain {c : Cmd} (hc : c.plain = true) : Tame cfg ctx c := by
  cases c <;> first | cases hc; done | exact ⟨fun _ _ _ h => h,fun _ _ _ h => h,by simp,by simp,by simp⟩

theorem tame_lock (ttl : Nat) : Tame cfg ctx (.lockRedis (lockKey ctx) ttl) :=
  ⟨fun _ _ x h => lockKey_ne (head_ctxKey cfg x) h.1,fun _ _ id h => lockKey_ne (head_indexKey cfg id) h.1,
    by simp,by simp,by simp⟩

theorem tame_unlock : Tame cfg ctx (.unlockRedis (lockKey ctx)) :=
  ⟨fun _ _ x h => lockKey_ne (head_ctxKey cfg x) h.1,fun _ _ id h => lockKey_ne (head_indexKey cfg id) h.1,
    by simp,by simp,by simp⟩

theorem tame_flag (id : String) : Tame cfg ctx (.get (flagKey cfg id)) :=
  ⟨fun _ _ _ h => h,fun _ _ _ h => h,by simp,by simp,by rintro k ⟨⟩; exact key_ne (by simp)⟩

theorem tame_mark (id : String) (v : Value) (ex : Option Nat) : Tame cfg ctx (.set (flagKey cfg id) v ex) :=
  ⟨fun _ _ _ h => absurd h (key_ne (by simp)),fun _ _ _ h => absurd h (key_ne (by simp)),by simp,by simp,by simp⟩

theorem preparing_plain {c : Cmd} (hp : Preparing cfg ctx c) (hg : ∀ k, c ≠ .get k) : c.plain = true := by
  cases c <;> first | rfl | exact absurd rfl (hg _) | exact hp.elim

theorem tame_preparing {c : Cmd} (hp : Preparing cfg ctx c) : Tame cfg ctx c := by
  by_cases hg : ∃ k, c = .get k
  · obtain ⟨k,rfl⟩ := hg
    obtain ⟨oid,rfl⟩ := hp
    refine ⟨fun _ _ _ h => h,fun _ _ _ h => h,by simp,by simp,?_⟩
    rintro k ⟨⟩
    exact key_ne (by simp)
  · exact tame_plain (preparing_plain hp (fun k hk => hg ⟨k,hk⟩))

theorem act_pollCreate {c : Client} {timed : Bool} {u : Unit}
    (ha : act rep t ⟨.pollCreate c,timed⟩ w (.ok u) h = some w') :
    w.present c = true ∧ w' = w.modifyBox c.sandboxId (fun b => { b with ready := true }) := by
  simp only [act] at ha
  split at ha
  · rename_i hp
    cases ha
    exact ⟨hp,rfl⟩
  · cases ha

theorem act_pollCreate_failed {c : Client} {timed : Bool} {e : Exc}
    (ha : act rep t ⟨.pollCreate c,timed⟩ w (.error e) h = some w') :
    w' = w ∨ w' = w.modifyBox c.sandboxId (fun b => { b with gone := true }) := by
  simp only [act] at ha
  split at ha
  · split at ha <;> cases ha
    · exact .inr rfl
    · exact .inl rfl
  · cases ha

theorem act_stale {c : Client} {timed : Bool} (ha : act rep t ⟨.ensureRunning c,timed⟩ w (.error .notFound) h = some w') :
    w' = w ∧ ∀ b, w.boxes c.sandboxId = some b → b.groupName = c.groupName → b.deleting = false → b.gone = true := by
  simp only [act,if_true] at ha
  split at ha
  · cases ha
  · rename_i hp
    cases ha
    refine ⟨rfl,?_⟩
    intro b hb hg hdel
    simpa [World.present,hb,hg,hdel] using hp

theorem calm_effect (ha : act rep t o w r h = some w') (hc : Tame cfg ctx o.cmd) (hs : Steady st st')
    (hb : ∀ g spec, o.cmd = .beginCreate g spec → ∃ e, r = .error e) : CallEffect cfg t ctx w st o r w' st' :=
  .calm st st' o r w' (calm_act ha hc) hs hc hb

-- Of the Redis commands only the release of the lock is refused.
theorem redis_refuses (ha : act rep t o w r h = some w')
    (hr : ∀ e, r = .error e → o.cmd.redis = true → o.timed = false → e = .notOwned) {e : Exc} (he : r = .error e)
    (hc : o.cmd.redis = true) (ht : o.timed = false) : ∃ k, o.cmd = .unlockRedis k := by
  obtain ⟨c,timed⟩ := o
  subst he
  cases hr e rfl hc ht
  cases c <;> first | cases hc; done | exact ⟨_,rfl⟩ | simp [act,redisFails,Op.interrupts] at ha

theorem call_answered (hcm : CallMove cfg ctx command st o r st') (ha : act rep t o w r h = some w')
    (hr : ∀ e, r = .error e → o.cmd.redis = true → o.timed = false → e = .notOwned) :
    CallEffect cfg t ctx w st o r w' st' := by
  have hno : ∀ {e : Exc}, r = .error e → o.cmd.redis = true → o.timed = false → (∀ k, o.cmd ≠ .unlockRedis k) →
      CallEffect cfg t ctx w st o r w' st' := by
    intro e he hc ht hu
    obtain ⟨k,hk⟩ := redis_refuses ha hr he hc ht
    exact absurd hk (hu k)
  have hplain : o.cmd.plain = true → Steady st st' → (∀ g spec, o.cmd = .beginCreate g spec → ∃ e, r = .error e) →
      CallEffect cfg t ctx w st o r w' st' := fun hc hs hb => calm_effect ha (tame_plain hc) hs hb
  cases hcm with
  | acquired u => exact hplain rfl (by constructor <;> simp) (by simp)
  | acquiredAlone u => exact hplain rfl (by constructor <;> simp) (by simp)
  | gaveUp e => exact hplain rfl (by constructor <;> simp) (by simp)
  | locked got => exact calm_effect ha (tame_lock _) (by constructor <;> simp) (by simp)
  | hit v id hv =>
    obtain ⟨hl,rfl⟩ := act_get ha
    rw [asText_some hv] at hl ⊢
    obtain ⟨e,he,hval,hlive⟩ := lookup_some hl.symm
    exact .hit id e he hval hlive
  | miss v hv =>
    obtain ⟨hl,rfl⟩ := act_get ha
    exact .miss v hl hv
  | refreshed c u =>
    rw [act_set ha]
    exact .refreshed c u
  | woken c u st hl => exact hplain rfl (steady_leaving hl (by simp)) (by simp)
  | stale c =>
    obtain ⟨rfl,hs⟩ := act_stale ha
    exact .stale c hs
  | wakeFailed c e st he hl => exact hplain rfl (steady_leaving hl (by simp)) (by simp)
  | unbound u =>
    rw [act_del ha]
    exact .unbound u
  | prepared c r hp =>
    refine calm_effect ha (tame_preparing hp) (by constructor <;> simp) ?_
    rintro g spec rfl
    exact hp.elim
  | prepFailed c r st hp hl =>
    refine calm_effect ha (tame_preparing hp) (steady_leaving hl (by simp)) ?_
    rintro g spec rfl
    exact hp.elim
  | began spec c hsp =>
    obtain ⟨_,hn,rfl⟩ := act_beginCreate ha
    exact .began spec c hn
  | beginFailed spec e st hsp hl => exact hplain rfl (steady_leaving hl (by simp)) (fun _ _ _ => ⟨e,rfl⟩)
  | created c u =>
    obtain ⟨hp,rfl⟩ := act_pollCreate ha
    exact .built c u hp
  | createFailed c e st hl => exact .failed c e w' st' hl (act_pollCreate_failed ha)
  | policySet c u => exact hplain rfl (by constructor <;> simp) (by simp)
  | policyFailed c e he => exact hplain rfl (by constructor <;> simp) (by simp)
  | policyCut c e st he hl => exact hplain rfl (steady_leaving hl (by simp)) (by simp)
  | published c r st hx hst =>
    cases r with
    | ok u =>
      rw [act_set ha,hst]
      exact .published c u
    | error e => exact hno rfl rfl rfl (by simp)
  | recorded c r hx =>
    cases r with
    | ok u =>
      rw [act_set ha]
      exact .recorded c u
    | error e => exact hno rfl rfl rfl (by simp)
  | flagged c st hl => exact calm_effect ha (tame_flag _) (steady_leaving hl (by simp)) (by simp)
  | unflagged c v hv => exact calm_effect ha (tame_flag _) (by constructor <;> simp) (by simp)
  | booted c res h0 => exact hplain rfl (by constructor <;> simp) (by simp)
  | bootRefused c res h0 => exact hplain rfl ⟨by simp,by simp,by simp,by simp,by simp,by simp,fun u hf => hf.2⟩ (by simp)
  | bootFailed c e he => exact hplain rfl ⟨by simp,by simp,by simp,by simp,by simp,by simp,fun u hf => hf.2⟩ (by simp)
  | bootCut c e st he hl => exact hplain rfl (steady_leaving hl (by simp)) (by simp)
  | marked c r st hx hl => exact calm_effect ha (tame_mark _ _ _) (steady_leaving hl (by simp)) (by simp)
  | rolledBack r st hl =>
    cases r with
    | ok u =>
      rw [act_del ha]
      exact .rolledBack u st' hl
    | error e => exact hno rfl rfl rfl (by simp)
  | unlocked res r hx => exact calm_effect ha tame_unlock (by constructor <;> simp) (by simp)
  | unlockCut res e he => exact calm_effect ha tame_unlock (by constructor <;> simp) (by simp)
  | released res u => exact hplain rfl (by constructor <;> simp) (by simp)
  | releaseFailed res e => exact hplain rfl (by constructor <;> simp) (by simp)
  | ran c cmd res hc => exact hplain rfl (by constructor <;> simp) (by simp)
  | runFailed c cmd e hc => exact hplain rfl (by constructor <;> simp) (by simp)
  | _ => exact hno rfl rfl rfl (by simp)

theorem call_effect (hcm : CallMove cfg ctx command st o r st') (ha : act rep t o w r h = some w')
    (hr : ∀ e, r = .error e → o.cmd.redis = true → e = .notOwned) : CallEffect cfg t ctx w st o r w' st' :=
  call_answered hcm ha (fun e he hc _ => hr e he hc)

end Effects

section Frames

variable {cfg : Config} {rep : Nat → Nat} {t : Nat} {o : Op} {r : Except Exc o.Ans} {h : Hint} {w w' : World}
variable {ctx : SessionCtx} {st st' : Stage}

def Accesses (cfg : Config) (ctx : SessionCtx) (c : Cmd) : Prop :=
  c = .get (ctxKey cfg ctx) ∨ (∃ v ex, c = .set (ctxKey cfg ctx) v ex) ∨ c = .del (ctxKey cfg ctx)

-- A call changes what its own routing key holds, and no other.
theorem effect_keys (he : CallEffect cfg t ctx w st o r w' st') (x : SessionCtx) :
    w'.redis (ctxKey cfg x) = w.redis (ctxKey cfg x) ∨ Accesses cfg ctx o.cmd ∧ ctxKey cfg x = ctxKey cfg ctx ∧
      ((∃ c, (st = .refresh c ∨ st = .publish c) ∧ o.cmd = .set (ctxKey cfg ctx) (.text c.sandboxId) cfg.sessions.ttl ∧
        w'.redis (ctxKey cfg x) = some ⟨.text c.sandboxId,some (w.now + cfg.sessionTtl * 1000)⟩) ∨
      (st = .unbind ∨ st = .rollback) ∧ w'.redis (ctxKey cfg x) = none) := by
  by_cases hk : ctxKey cfg x = ctxKey cfg ctx
  · rw [hk]
    cases he with
    | hit id e he hv hlive => exact .inl rfl
    | miss v hl hv => exact .inl rfl
    | refreshed c u => exact .inr ⟨.inr (.inl ⟨_,_,rfl⟩),rfl,.inl ⟨c,.inl rfl,rfl,upd_same _ _ _⟩⟩
    | published c u => exact .inr ⟨.inr (.inl ⟨_,_,rfl⟩),rfl,.inl ⟨c,.inr rfl,rfl,upd_same _ _ _⟩⟩
    | unbound u => exact .inr ⟨.inr (.inr rfl),rfl,.inr ⟨.inl rfl,upd_same _ _ _⟩⟩
    | rolledBack u st' hl => exact .inr ⟨.inr (.inr rfl),rfl,.inr ⟨.inr rfl,upd_same _ _ _⟩⟩
    | began spec c hn => exact .inl rfl
    | built c u hpres => exact .inl (by simp)
    | failed c e w' st' hl hw => exact .inl (by rcases hw with rfl | rfl <;> simp)
    | recorded c u => exact .inl (store_other _ _ (key_ne (by simp)))
    | stale c hs => exact .inl rfl
    | calm st st' o r w' hcalm hs hc hb => exact .inl (hcalm.keys ctx)
  · refine .inl ?_
    cases he with
    | hit id e he hv hlive => rfl
    | miss v hl hv => rfl
    | refreshed c u => exact store_other _ _ hk
    | published c u => exact store_other _ _ hk
    | unbound u => exact erase_other hk
    | rolledBack u st' hl => exact erase_other hk
    | began spec c hn => rfl
    | built c u hpres => simp
    | failed c e w' st' hl hw => rcases hw with rfl | rfl <;> simp
    | recorded c u => exact store_other _ _ (key_ne (by simp))
    | stale c hs => rfl
    | calm st st' o r w' hcalm hs hc hb => exact hcalm.keys x

theorem effect_index (he : CallEffect cfg t ctx w st o r w' st') {id : String} {e : Entry}
    (hx : w'.redis (indexKey cfg id) = some e) : w.redis (indexKey cfg id) = some e ∨ ∃ c, st = .record c ∧
      c.sandboxId = id ∧ e = ⟨.binding (oidText ctx.userOid) ctx.sessionId ctx.group.name,none⟩ := by
  have hne : ∀ {y : SessionCtx}, indexKey cfg id ≠ ctxKey cfg y := key_ne (by simp)
  have hold : w'.redis (indexKey cfg id) = w.redis (indexKey cfg id) → w.redis (indexKey cfg id) = some e :=
    fun hr => hr ▸ hx
  cases he with
  | hit i e' he' hv hlive => exact .inl hx
  | miss v hl hv => exact .inl hx
  | refreshed c u => exact .inl (hold (store_other _ _ hne))
  | published c u => exact .inl (hold (store_other _ _ hne))
  | unbound u => exact .inl (hold (erase_other hne))
  | rolledBack u st' hl => exact .inl (hold (erase_other hne))
  | began spec c hn => exact .inl hx
  | built c u hpres => exact .inl (hold (by simp))
  | failed c e' w' st' hl hw => exact .inl (hold (by rcases hw with rfl | rfl <;> simp))
  | recorded c u =>
    rcases store_redis hx with ⟨hk,rfl⟩ | hx
    · exact .inr ⟨c,rfl,(indexKey_injective cfg hk).symm,rfl⟩
    · exact .inl hx
  | stale c hs => exact .inl hx
  | calm st st' o r w' hcalm hs hc hb => exact .inl (hold (hcalm.index id))

-- No call deletes a sandbox; one is gone only through the failure of its own creation.
theorem effect_boxes (he : CallEffect cfg t ctx w st o r w' st') (ha : act rep t o w r h = some w') {id : String}
    {b : Box} (hb : w.boxes id = some b) : ∃ b', w'.boxes id = some b' ∧ b'.deleting = b.deleting ∧
      (b'.gone = b.gone ∨ ∃ c, st = .poll c ∧ c.sandboxId = id ∧ Leaving none st') := by
  have hsame : ∀ {v : World}, v.boxes = w.boxes → ∃ b', v.boxes id = some b' ∧ b'.deleting = b.deleting ∧
      (b'.gone = b.gone ∨ ∃ c, st = .poll c ∧ c.sandboxId = id ∧ Leaving none st') := by
    intro v hv
    exact ⟨b,by rw [hv]; exact hb,rfl,.inl rfl⟩
  cases he with
  | hit i e he hv hlive => exact hsame rfl
  | miss v hl hv => exact hsame rfl
  | refreshed c u => exact hsame rfl
  | published c u => exact hsame rfl
  | unbound u => exact hsame rfl
  | rolledBack u st' hl => exact hsame rfl
  | began spec c hn =>
    obtain ⟨b',hb',hdel,hgone⟩ := act_steady ha (by simp) (by simp) hb
    exact ⟨b',hb',hdel,.inl hgone⟩
  | built c u hpres =>
    rw [modifyBox_boxes,hb]
    split
    · exact ⟨_,rfl,rfl,.inl rfl⟩
    · exact ⟨b,rfl,rfl,.inl rfl⟩
  | failed c e w' st' hl hw =>
    rcases hw with rfl | rfl
    · exact hsame rfl
    · rw [modifyBox_boxes,hb]
      split
      · rename_i hid
        exact ⟨_,rfl,rfl,.inr ⟨c,rfl,hid.symm,hl⟩⟩
      · exact ⟨b,rfl,rfl,.inl rfl⟩
  | recorded c u => exact hsame rfl
  | stale c hs => exact hsame rfl
  | calm st st' o r w' hcalm hs hc hx =>
    obtain ⟨b',hb',hdel,hgone⟩ := hcalm.boxes id b hb
    exact ⟨b',hb',hdel,.inl hgone⟩

-- A sandbox is set up only after it was begun, and set up whole only while it is there.
theorem effect_building (he : CallEffect cfg t ctx w st o r w' st') {c : Client} (hs : st'.building = some c)
    (hold : st.building = some c → ∃ b, w.boxes c.sandboxId = some b ∧ b.deleting = false ∧
      (st.built = some c → b.gone = false)) :
    ∃ b, w'.boxes c.sandboxId = some b ∧ b.deleting = false ∧ (st'.built = some c → b.gone = false) := by
  cases he with
  | began spec c' hn =>
    cases hs
    exact ⟨_,by rw [create_boxes,if_pos rfl],rfl,by simp⟩
  | built c' u hpres =>
    cases hs
    obtain ⟨b,hb,hdel,_⟩ := hold rfl
    refine ⟨{ b with ready := true },by rw [modifyBox_boxes,if_pos rfl,hb]; rfl,hdel,fun _ => ?_⟩
    simp only [World.present,hb,Bool.and_eq_true,Bool.not_eq_true'] at hpres
    exact hpres.2
  | calm st st' o r w' hcalm hsd hc hb =>
    obtain ⟨b,hb,hdel,hgone⟩ := hold (hsd.building c hs)
    obtain ⟨b',hb',hdel',hgone'⟩ := hcalm.boxes _ b hb
    exact ⟨b',hb',hdel'.trans hdel,fun h => hgone'.trans (hgone (hsd.built c h))⟩
  | failed c' e w' st' hl hw => rcases hl with rfl | rfl <;> cases hs
  | rolledBack u st' hl => rcases hl with rfl | rfl <;> cases hs
  | published c' u => split at hs <;> cases hs
  | _ => cases hs

end Frames

end IdentityAwareMcp
