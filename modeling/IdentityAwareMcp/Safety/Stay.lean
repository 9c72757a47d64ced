import IdentityAwareMcp.Safety.Overtake

namespace IdentityAwareMcp

open Coop SandboxManager

section Stays

-- What the history knows of a call: the sandbox it has chosen, until when the routing
-- key keeps it, whether it was read there, and when get_or_create returned.
structure Stay where
  id : Option String
  expiry : Option Nat
  hit : Bool
  ret : Option Nat
deriving DecidableEq

def Stay.idle : Stay := ⟨none,none,false,none⟩

variable (cfg : Config) (jobs : Nat → Job)

def Stay.after (ctx : SessionCtx) (w : World) (u : Stay) (o : Op) (r : Except Exc o.Ans) (h : Hint) : Stay :=
  match o, r with
  | ⟨.get k,_⟩, .ok v =>
    if k = ctxKey cfg ctx then
      match v.bind Value.asText with
      | some id => ⟨some id,(w.redis k).bind Entry.deadline,true,none⟩
      | none => .idle
    else u
  | ⟨.beginCreate _ _,_⟩, .ok c => ⟨some c.sandboxId,none,false,none⟩
  | ⟨.set k _ _,_⟩, .ok _ =>
    if k = ctxKey cfg ctx then { u with expiry := some (w.now + cfg.sessionTtl * 1000) } else u
  | ⟨.set k _ _,_⟩, .error _ =>
    if k = ctxKey cfg ctx then
      if u.hit then .idle
      else if h.reached then { u with expiry := some (w.now + cfg.sessionTtl * 1000) } else u
    else u
  | ⟨.del k,_⟩, _ => if k = ctxKey cfg ctx then .idle else u
  | ⟨.release k,_⟩, _ => if k = routingKey ctx then { u with ret := some w.now } else u
  | _, _ => u

def attend (s : System) (l : Step) (g : Nat → Stay) : Nat → Stay :=
  match l with
  | .task t o r h =>
    match (jobs t).ctx with
    | some ctx => upd g t ((g t).after cfg ctx s.world o r h)
    | none => g
  | .env _ => g

-- The call has chosen the sandbox and is not over; if get_or_create has returned it,
-- that was less than a session TTL ago.
def InUse (s : System) (g : Nat → Stay) (i : Nat) (id : String) : Prop :=
  (g i).id = some id ∧ (s.pool i).next ≠ none ∧ ∀ d, (g i).ret = some d → s.world.now < d + cfg.sessionTtl * 1000

def Recorded (w : World) (id : String) : Prop := w.redis (indexKey cfg id) ≠ none

-- A change of this key would take a recorded sandbox away from another call.
def Strands (s : System) (g : Nat → Stay) (t : Nat) (k : String) (v : Option Value) : Prop :=
  ∃ i id, i ≠ t ∧ InUse cfg s g i id ∧ Recorded cfg s.world id ∧ s.world.lookup k = some (.text id) ∧ v ≠ some (.text id)

-- A call records a sandbox only while its routing key is bound to it, and moves the key
-- off no recorded sandbox that another call uses; no pass finds that the key has expired
-- under such a call.
def Careful (s : System) (g : Nat → Stay) : Step → Prop
  | .task t ⟨.set k v _,_⟩ r h => ∀ ctx, (jobs t).ctx = some ctx → applied r h = true →
      (∀ id, k = indexKey cfg id → s.world.lookup (ctxKey cfg ctx) = some (.text id)) ∧ ¬ Strands cfg s g t k (some v)
  | .task t ⟨.del k,_⟩ r h => (jobs t).ctx ≠ none → applied r h = true → ¬ Strands cfg s g t k none
  | .task t ⟨.get k,_⟩ _ _ => (jobs t).ctx = none → ∀ i id ctx d, (jobs i).ctx = some ctx → k = ctxKey cfg ctx →
      InUse cfg s g i id → Recorded cfg s.world id → s.world.lookup k ≠ some (.text id) → (g i).expiry = some d →
      s.world.now < d
  | _ => True

end Stays

section Deeds

variable {cfg : Config} {jobs : Nat → Job} {rep : Nat → Nat} {t : Nat} {o : Op} {r : Except Exc o.Ans} {h : Hint}
variable {s : System} {w w' : World} {g : Nat → Stay} {ctx : SessionCtx} {command : Option String} {st st' : Stage} {u : Stay}

@[simp] def Suits (u : Stay) : Stage → Prop
  | .refresh c => u.id = some c.sandboxId ∧ u.hit = true ∧ u.ret = none
  | .publish c => u.id = some c.sandboxId ∧ u.hit = false ∧ u.ret = none
  | .poll c => u.id = some c.sandboxId ∧ u.hit = false ∧ u.ret = none
  | .policy c => u.id = some c.sandboxId ∧ u.hit = false ∧ u.ret = none
  | .left res => ∀ c, res = some c → u.id = some c.sandboxId ∧ u.ret ≠ none
  | .done c => u.id = some c.sandboxId
  | st => (∀ c, st.client = some c → u.id = some c.sandboxId) ∧ u.ret = none

-- What one step of a call does to the routing keys and to its own stay.
inductive Deed (cfg : Config) (ctx : SessionCtx) (s : System) (g : Nat → Stay) (t : Nat) (w' : World) (st : Stage) : Stay → Prop
  | looked (id : String) (e : Entry) : (∀ x, w'.redis (ctxKey cfg x) = s.world.redis (ctxKey cfg x)) →
      s.world.redis (ctxKey cfg ctx) = some e → e.val = .text id → e.live s.world.now = true →
      Deed cfg ctx s g t w' st ⟨some id,e.deadline,true,none⟩
  | stored (c : Client) (u : Stay) : (st = .refresh c ∨ st = .publish c) →
      w' = s.world.store (ctxKey cfg ctx) (.text c.sandboxId) cfg.sessions.ttl →
      ¬ Strands cfg s g t (ctxKey cfg ctx) (some (.text c.sandboxId)) →
      (u = .idle ∨ u = { g t with expiry := some (s.world.now + cfg.sessionTtl * 1000) }) → Deed cfg ctx s g t w' st u
  | erased : w' = s.world.erase (ctxKey cfg ctx) → ¬ Strands cfg s g t (ctxKey cfg ctx) none →
      Deed cfg ctx s g t w' st .idle
  | created (id : String) (b : Box) : (∀ x, w'.redis (ctxKey cfg x) = s.world.redis (ctxKey cfg x)) →
      s.world.boxes id = none → w'.boxes id = some b → b.creator = t → b.groupName = cfg.groupNames ctx.group →
      b.spec.environment.spAppId = cfg.spAppIds ctx.group → Deed cfg ctx s g t w' st ⟨some id,none,false,none⟩
  | calm (u : Stay) : (∀ x, w'.redis (ctxKey cfg x) = s.world.redis (ctxKey cfg x)) →
      (u = .idle ∨ u = g t ∨ st.inside = true ∧ u = { g t with ret := some s.world.now }) → Deed cfg ctx s g t w' st u

theorem call_touches (hcm : CallMove cfg ctx command st o r st') {x : SessionCtx}
    (ht : Touches t w o.cmd (ctxKey cfg x)) : ctxKey cfg x = ctxKey cfg ctx ∧
    ((∃ c, o.cmd = .set (ctxKey cfg ctx) (.text c.sandboxId) cfg.sessions.ttl ∧ (st = .refresh c ∨ st = .publish c)) ∨
      o.cmd = .del (ctxKey cfg ctx)) := by
  rcases touches_ctx (.call ctx command st st' o r hcm) ht with ⟨_,_,_,c,hp,hk,ho,hst⟩ | ⟨_,_,_,hp,hk,ho,_⟩ | ⟨_,_,_,hp⟩ <;>
    cases hp
  · have hx : ctxKey cfg x = ctxKey cfg ctx := ctxKey_congr hk.symm
    exact ⟨hx,.inl ⟨c,hx ▸ ho,hst⟩⟩
  · have hx : ctxKey cfg x = ctxKey cfg ctx := ctxKey_congr hk.symm
    exact ⟨hx,.inr (hx ▸ ho)⟩

theorem call_spares (hcm : CallMove cfg ctx command st o r st') (ha : act rep t o w r h = some w')
    (hset : ∀ v ex, o.cmd ≠ .set (ctxKey cfg ctx) v ex) (hdel : o.cmd ≠ .del (ctxKey cfg ctx)) (x : SessionCtx) :
    w'.redis (ctxKey cfg x) = w.redis (ctxKey cfg x) := by
  refine act_untouched ha (fun ht => ?_)
  rcases (call_touches hcm ht).2 with ⟨_,ho,_⟩ | ho
  · exact hset _ _ ho
  · exact hdel ho

theorem get_deed {k : String} {timed : Bool} {r : Except Exc (Option Value)}
    (hcm : CallMove cfg ctx command st ⟨.get k,timed⟩ r st') (ha : act rep t ⟨.get k,timed⟩ s.world r h = some w') :
    Deed cfg ctx s g t w' st ((g t).after cfg ctx s.world ⟨.get k,timed⟩ r h) := by
  have hkeys := call_spares hcm ha (by simp) (by simp)
  cases r with
  | error e => exact .calm _ hkeys (.inr (.inl rfl))
  | ok v =>
    simp only [Stay.after]
    split
    · rename_i hk
      subst hk
      obtain ⟨hl,rfl⟩ := act_get ha
      cases hv : Option.bind v Value.asText with
      | none => exact .calm _ hkeys (.inl rfl)
      | some id =>
        rw [asText_some hv] at hl
        obtain ⟨e,he,hval,hlive⟩ := lookup_some hl.symm
        simp only [he,Option.bind_some]
        exact .looked id e hkeys he hval hlive
    · exact .calm _ hkeys (.inr (.inl rfl))

-- A write of the routing key by the call binds it to the call's own sandbox.
theorem bind_deed {v : Value} {ex : Option Nat} {timed : Bool} {r : Except Exc Unit}
    (hcm : CallMove cfg ctx command st ⟨.set (ctxKey cfg ctx) v ex,timed⟩ r st')
    (ha : act rep t ⟨.set (ctxKey cfg ctx) v ex,timed⟩ s.world r h = some w')
    (hno : applied r h = true → ¬ Strands cfg s g t (ctxKey cfg ctx) (some v)) :
    Deed cfg ctx s g t w' st ((g t).after cfg ctx s.world ⟨.set (ctxKey cfg ctx) v ex,timed⟩ r h) := by
  have hw := act_set_applied ha
  obtain ⟨_,⟨c,ho,hst⟩ | ho⟩ := call_touches (t := t) (w := s.world) (x := ctx) hcm rfl
  · cases ho
    cases happ : applied r h with
    | true =>
      rw [happ,if_pos rfl] at hw
      refine .stored c _ hst hw (hno happ) ?_
      cases r with
      | ok u => exact .inr (by simp only [Stay.after,if_true])
      | error e =>
        have hh : h.reached = true := happ
        simp only [Stay.after,if_true,hh]
        split
        · exact .inl rfl
        · exact .inr rfl
    | false =>
      rw [happ] at hw
      subst hw
      refine .calm _ (fun _ => rfl) ?_
      cases r with
      | ok u => cases happ
      | error e =>
        have hh : h.reached = false := happ
        simp only [Stay.after,if_true,hh]
        split
        · exact .inl rfl
        · exact .inr (.inl rfl)
  · cases ho

theorem unbind_deed {timed : Bool} {r : Except Exc Unit}
    (ha : act rep t ⟨.del (ctxKey cfg ctx),timed⟩ s.world r h = some w')
    (hno : applied r h = true → ¬ Strands cfg s g t (ctxKey cfg ctx) none) :
    Deed cfg ctx s g t w' st ((g t).after cfg ctx s.world ⟨.del (ctxKey cfg ctx),timed⟩ r h) := by
  have hafter : (g t).after cfg ctx s.world ⟨.del (ctxKey cfg ctx),timed⟩ r h = .idle := by
    simp only [Stay.after,if_true]
  have hw := act_del_applied ha
  rw [hafter]
  cases happ : applied r h with
  | true =>
    rw [happ,if_pos rfl] at hw
    exact .erased hw (hno happ)
  | false =>
    rw [happ] at hw
    subst hw
    exact .calm _ (fun _ => rfl) (.inl rfl)

theorem call_deed (hcm : CallMove cfg ctx command st o r st') (ha : act rep t o s.world r h = some w')
    (hctx : (jobs t).ctx = some ctx) (hadm : Careful cfg jobs s g (.task t o r h)) :
    Deed cfg ctx s g t w' st ((g t).after cfg ctx s.world o r h) := by
  obtain ⟨c,timed⟩ := o
  cases c with
  | get k => exact get_deed hcm ha
  | set k v ex =>
    by_cases hk : k = ctxKey cfg ctx
    · subst hk
      exact bind_deed hcm ha (fun happ => (hadm ctx hctx happ).2)
    · have hkeys := call_spares hcm ha (by rintro v ex ⟨⟩; exact hk rfl) (by simp)
      refine .calm _ hkeys (.inr (.inl ?_))
      cases r <;> simp only [Stay.after,hk,if_false]
  | del k =>
    by_cases hk : k = ctxKey cfg ctx
    · subst hk
      exact unbind_deed ha (fun happ => hadm (by simp [hctx]) happ)
    · have hkeys := call_spares hcm ha (by simp) (by rintro ⟨⟩; exact hk rfl)
      refine .calm _ hkeys (.inr (.inl ?_))
      simp only [Stay.after,hk,if_false]
  | beginCreate gr spec =>
    have hkeys := call_spares hcm ha (by simp) (by simp)
    cases r with
    | error e => exact .calm _ hkeys (.inr (.inl rfl))
    | ok c =>
      cases hcm with
      | began spec c hsp =>
        obtain ⟨_,hn,rfl⟩ := act_beginCreate ha
        exact .created _ _ hkeys hn (by rw [create_boxes,if_pos rfl]) rfl rfl hsp
      | prepared _ _ hp => exact hp.elim
      | prepFailed _ _ _ hp => exact hp.elim
  | release k =>
    have hkeys := call_spares hcm ha (by simp) (by simp)
    refine .calm _ hkeys (.inr ?_)
    simp only [Stay.after]
    split
    · rename_i hk
      rcases call_releases hcm rfl with ⟨_,hin,_⟩ | hset
      · exact .inr ⟨hin,rfl⟩
      · exact absurd hk.symm (setUpKey_ne hset ctx)
    · exact .inl rfl
  | _ =>
    refine .calm _ (call_spares hcm ha (by simp) (by simp)) (.inr (.inl ?_))
    cases r <;> rfl

theorem after_spares {c : Cmd} {timed : Bool} {r : Except Exc c.Ans} (hc : Tame cfg ctx c)
    (hb : ∀ gr spec, c ≠ .beginCreate gr spec) (hl : c ≠ .release (routingKey ctx)) :
    u.after cfg ctx w ⟨c,timed⟩ r h = u := by
  cases c with
  | get k =>
    have hk := hc.get k rfl
    cases r with
    | ok v => simp only [Stay.after,hk,if_false]
    | error e => rfl
  | set k v ex =>
    have hk : k ≠ ctxKey cfg ctx := hc.keys 0 w ctx
    cases r <;> simp only [Stay.after,hk,if_false]
  | del k =>
    have hk : k ≠ ctxKey cfg ctx := hc.keys 0 w ctx
    simp only [Stay.after,hk,if_false]
  | beginCreate gr spec => exact absurd rfl (hb gr spec)
  | release k =>
    have hk : k ≠ routingKey ctx := by
      rintro rfl
      exact hl rfl
    simp only [Stay.after,hk,if_false]
  | _ => cases r <;> rfl

theorem after_prep {c : Cmd} {r : Except Exc c.Ans} (hp : Preparing cfg ctx c) :
    u.after cfg ctx w ⟨c,true⟩ r h = u := by
  refine after_spares (tame_preparing hp) (fun gr spec hc => ?_) (fun hc => ?_)
  · subst hc
    exact hp
  · subst hc
    exact setUpKey_ne ⟨_,hp⟩ ctx rfl

theorem suits_leaving {res : Option Client} (hl : Leaving res st) (hid : ∀ c, res = some c → u.id = some c.sandboxId)
    (hret : u.ret = none) : Suits u st := by
  rcases hl with rfl | rfl <;> exact ⟨hid,hret⟩

theorem after_publish {v : Value} {ex : Option Nat} {r : Except Exc Unit} (hu : u.hit = false) :
    (u.after cfg ctx w ⟨.set (ctxKey cfg ctx) v ex,false⟩ r h).id = u.id ∧
      (u.after cfg ctx w ⟨.set (ctxKey cfg ctx) v ex,false⟩ r h).ret = u.ret := by
  cases r with
  | ok a => simp [Stay.after]
  | error e =>
    simp only [Stay.after,if_true,hu]
    cases h.reached <;> simp

theorem suits_step (hcm : CallMove cfg ctx command st o r st') (hs : Suits u st) : Suits (u.after cfg ctx w o r h) st' := by
  have hleft : ∀ {v : Stay} {st : Stage}, Leaving none st → v.ret = none → Suits v st :=
    fun hl hret => suits_leaving hl (by simp) hret
  have hkeep : ∀ {c : Cmd} {timed : Bool} {r : Except Exc c.Ans} {st : Stage}, Tame cfg ctx c →
      (∀ gr spec, c ≠ .beginCreate gr spec) → c ≠ .release (routingKey ctx) → Suits u st →
      Suits (u.after cfg ctx w ⟨c,timed⟩ r h) st := by
    intro c timed r st hc hb hl hst
    rwa [after_spares hc hb hl]
  have hplain : ∀ {c : Cmd} {timed : Bool} {r : Except Exc c.Ans} {st : Stage}, c.plain = true →
      (∀ gr spec, c ≠ .beginCreate gr spec) → c ≠ .release (routingKey ctx) → Suits u st →
      Suits (u.after cfg ctx w ⟨c,timed⟩ r h) st := fun hc => hkeep (tame_plain hc)
  have hindex : ∀ {id : String}, indexKey cfg id ≠ ctxKey cfg ctx := key_ne (by simp)
  cases hcm with
  | acquired a => exact hplain rfl (by simp) (by simp) hs
  | acquiredAlone a => exact hplain rfl (by simp) (by simp) hs
  | gaveUp e => exact hplain rfl (by simp) (by simp) (by simp)
  | locked got => exact hkeep (tame_lock _) (by simp) (by simp) hs
  | lockFailed e he => exact hkeep (tame_lock _) (by simp) (by simp) hs
  | lockCut e he => exact hkeep (tame_lock _) (by simp) (by simp) hs
  | hit v id hv => simp [Stay.after,hv]
  | miss v hv => simp [Stay.after,hv,Stay.idle]
  | lookFailed e he => exact hs
  | lookCut e st he hl => exact hleft hl hs.2
  | refreshed c a => exact ⟨by simpa [Stay.after] using hs.1,by simpa [Stay.after] using hs.2.2⟩
  | refreshFailed c e he => simp [Stay.after,hs.2.1,Stay.idle]
  | refreshCut c e st he hl => exact hleft hl (by simp [Stay.after,hs.2.1,Stay.idle])
  | woken c a st hl => exact hplain rfl (by simp) (by simp) (suits_leaving hl (by simpa using hs.1) hs.2)
  | stale c => exact hplain rfl (by simp) (by simp) ⟨by simp,hs.2⟩
  | wakeFailed c e st he hl => exact hplain rfl (by simp) (by simp) (hleft hl hs.2)
  | unbound a => simp [Stay.after,Stay.idle]
  | unbindFailed e he => simp [Stay.after,Stay.idle]
  | unbindCut e st he hl => exact hleft hl (by simp [Stay.after,Stay.idle])
  | prepared c r hp =>
    rw [after_prep hp]
    exact hs
  | prepFailed c r st hp hl =>
    rw [after_prep hp]
    exact hleft hl hs.2
  | began spec c hsp => exact ⟨rfl,rfl,rfl⟩
  | beginFailed spec e st hsp hl => exact hleft hl hs.2
  | created c a => exact hs
  | createFailed c e st hl => exact hleft hl hs.2.2
  | policySet c a => exact hs
  | policyFailed c e he => exact hs
  | policyCut c e st he hl => exact hleft hl hs.2.2
  | published c r st hx hst =>
    obtain ⟨hid,hret⟩ := after_publish (r := r) (h := h) hs.2.1
    rw [hst]
    split <;> exact ⟨by simpa [hid] using hs.1,hret.trans hs.2.2⟩
  | publishCut c e st he hl => exact hleft hl ((after_publish hs.2.1).2.trans hs.2.2)
  | recorded c r hx =>
    have hu : u.after cfg ctx w ⟨.set (indexKey cfg c.sandboxId)
        (.binding (oidText ctx.userOid) ctx.sessionId ctx.group.name) none,false⟩ r h = u := by
      cases r <;> simp only [Stay.after,hindex,if_false]
    rw [hu]
    exact hs
  | recordCut c e st he hl => exact hleft hl (by simpa only [Stay.after,hindex,if_false] using hs.2)
  | flagged c st hl => exact hkeep (tame_flag _) (by simp) (by simp) (suits_leaving hl (by simpa using hs.1) hs.2)
  | unflagged c v hv => exact hkeep (tame_flag _) (by simp) (by simp) hs
  | flagFailed c e he => exact hkeep (tame_flag _) (by simp) (by simp) hs
  | flagCut c e st he hl => exact hkeep (tame_flag _) (by simp) (by simp) (hleft hl hs.2)
  | booted c res hb => exact hplain rfl (by simp) (by simp) hs
  | bootRefused c res hb => exact hplain rfl (by simp) (by simp) ⟨by simp,hs.2⟩
  | bootFailed c e he => exact hplain rfl (by simp) (by simp) ⟨by simp,hs.2⟩
  | bootCut c e st he hl => exact hplain rfl (by simp) (by simp) (hleft hl hs.2)
  | marked c r st hx hl =>
    exact hkeep (tame_mark _ _ _) (by simp) (by simp) (suits_leaving hl (by simpa using hs.1) hs.2)
  | markCut c e st he hl => exact hkeep (tame_mark _ _ _) (by simp) (by simp) (hleft hl hs.2)
  | rolledBack r st hl => exact hleft hl (by simp [Stay.after,Stay.idle])
  | unlocked res r hx => exact hkeep tame_unlock (by simp) (by simp) hs
  | unlockCut res e he => exact hkeep tame_unlock (by simp) (by simp) ⟨by simp,hs.2⟩
  | released res a =>
    intro c hc
    simpa [Stay.after] using hs.1 c hc
  | releaseFailed res e => exact fun c hc => by cases hc
  | ran c cmd res hcmd => exact (hs c rfl).1
  | runFailed c cmd e hcmd => exact fun c hc => by cases hc

end Deeds

end IdentityAwareMcp
