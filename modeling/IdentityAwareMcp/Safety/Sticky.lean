import IdentityAwareMcp.Safety.Reaper

namespace IdentityAwareMcp

open Coop SandboxManager

section Conditions

variable (cfg : Config)

-- A lock that has lapsed cannot be released, a sandbox that is gone can be neither woken nor
-- deleted, a volume may be there already; everything else succeeds.
def healthy : (o : Op) → Except Exc o.Ans → Bool
  | ⟨.unlockRedis _,_⟩, .error e => decide (e = .notOwned)
  | ⟨.ensureRunning _,_⟩, .error e => decide (e = .notFound)
  | ⟨.beginDelete _,_⟩, .error e => decide (e = .notFound)
  | ⟨.createVolume _ _,_⟩, .error e => decide (e = .http (some 409))
  | ⟨.exec _ command,_⟩, .ok res => command != bootstrapCommand || res.boots
  | _, .error _ => false
  | _, .ok _ => true

-- A call that reads or refreshes its routing key, or wakes the sandbox bound to it, does so
-- before the key expires, where the key has been written at all.
def Timely (w : World) (c : Cmd) : Prop :=
  ∀ x e id, w.redis (ctxKey cfg x) = some e → e.val = .text id →
    (c = .get (ctxKey cfg x) ∨ (∃ v ex, c = .set (ctxKey cfg x) v ex) ∨
      ∃ client, client.sandboxId = id ∧ c = .ensureRunning client) → e.live w.now = true

def Placed (w : World) (id : String) : Prop := ∃ x e, w.redis (ctxKey cfg x) = some e ∧ e.val = .text id

structure Sticky (w : World) (ph : Nat → Phase) : Prop where
  isolated : Isolated cfg w ph
  typed : ∀ x e, w.redis (ctxKey cfg x) = some e → ∃ id, e.val = .text id
  cold : ∀ i ctx command st, ph i = .call ctx command st → st.clear = true → w.redis (ctxKey cfg ctx) = none
  settled : ∀ i ctx command st c, ph i = .call ctx command st → st.settled = some c →
    ∃ e, w.redis (ctxKey cfg ctx) = some e ∧ e.val = .text c.sandboxId
  unrolled : ∀ i ctx command, ph i ≠ .call ctx command .rollback
  building : ∀ i ctx command st c, ph i = .call ctx command st → st.building = some c →
    ∃ b, w.boxes c.sandboxId = some b ∧ b.deleting = false ∧ (st.built = some c → b.gone = false)
  sound : Sound cfg w
  hunts : Hunts cfg (Placed cfg w) w ph

end Conditions

section Call

variable {cfg : Config} {rep : Nat → Nat} {t : Nat} {o : Op} {r : Except Exc o.Ans} {h : Hint} {w w' : World}
variable {ph : Nat → Phase} {ctx : SessionCtx} {command : Option String} {st st' : Stage}

theorem healthy_redis (hh : healthy o r = true) : ∀ e, r = .error e → o.cmd.redis = true → e = .notOwned := by
  rintro e rfl hc
  obtain ⟨c,timed⟩ := o
  cases c <;> first | cases hc; done | cases hh | simpa [healthy] using hh

theorem healthy_unrolled (hcm : CallMove cfg ctx command st o r st') (hh : healthy o r = true) : st' ≠ .rollback := by
  rintro rfl
  cases hcm with
  | bootRefused c res h0 => simp [healthy,h0] at hh
  | bootFailed c e he => cases hh
  | published c r st hr hst => split at hst <;> cases hst
  | _ => rename_i hl; rcases hl with hl | hl <;> cases hl

theorem healthy_poll {c : Client} (hcm : CallMove cfg ctx command (.poll c) o r st') (hh : healthy o r = true) :
    ¬ Leaving none st' := by
  cases hcm with
  | created c u => rintro (hl | hl) <;> cases hl
  | createFailed c e st hl => cases hh

theorem live_text {k id : String} {e : Entry} (he : w.redis k = some e) (hv : e.val = .text id)
    (hlive : e.live w.now = true) : w.lookup k = some (.text id) := by
  rw [lookup_entry he hlive,hv]

section Step

variable (hi : Sticky cfg w ph) (hp : ph t = .call ctx command st)
variable (hcm : CallMove cfg ctx command st o r st') (ha : act rep t o w r h = some w')
variable (hh : healthy o r = true) (ht : Timely cfg w o.cmd)
include hi hp hcm ha hh ht

omit ht in
-- A routing key never loses or changes what it is bound to.
theorem bound_stays {x : SessionCtx} {e : Entry} {id : String} (he : w.redis (ctxKey cfg x) = some e)
    (hv : e.val = .text id) : ∃ e', w'.redis (ctxKey cfg x) = some e' ∧ e'.val = .text id := by
  rcases effect_keys (call_effect hcm ha (healthy_redis hh)) x with
    hr | ⟨_,hk,⟨c,rfl | rfl,_,hr⟩ | ⟨rfl | rfl,_⟩⟩
  · exact ⟨e,hr ▸ he,hv⟩
  · obtain ⟨e',he',hv'⟩ := hi.settled t ctx command _ c hp rfl
    rw [hk,he'] at he
    cases he
    exact ⟨_,hr,hv'.symm.trans hv⟩
  · rw [hk,hi.cold t ctx command _ hp rfl] at he
    cases he
  · rw [hk,hi.cold t ctx command _ hp rfl] at he
    cases he
  · exact absurd hp (hi.unrolled t ctx command)

theorem bound_back {x : SessionCtx} {id : String} (hl : w'.lookup (ctxKey cfg x) = some (.text id)) :
    w.lookup (ctxKey cfg x) = some (.text id) ∨
      ∃ c, st = .publish c ∧ c.sandboxId = id ∧ ctxKey cfg x = ctxKey cfg ctx := by
  obtain ⟨e,he,hv,_⟩ := lookup_some hl
  rcases effect_keys (call_effect hcm ha (healthy_redis hh)) x with
    hr | ⟨_,hk,⟨c,rfl | rfl,ho,hr⟩ | ⟨_,hn⟩⟩
  · rw [← lookup_congr hr (act_now ha)]
    exact .inl hl
  · rw [he] at hr
    cases hr
    cases hv
    obtain ⟨e',he',hv'⟩ := hi.settled t ctx command _ c hp rfl
    rw [hk]
    exact .inl (live_text he' hv' (ht ctx e' _ he' hv' (.inr (.inl ⟨_,_,ho⟩))))
  · rw [he] at hr
    cases hr
    cases hv
    exact .inr ⟨c,rfl,rfl,hk⟩
  · rw [he] at hn
    cases hn

omit hp ht in
theorem sticky_typed {x : SessionCtx} {e : Entry} (he : w'.redis (ctxKey cfg x) = some e) :
    ∃ id, e.val = .text id := by
  rcases effect_keys (call_effect hcm ha (healthy_redis hh)) x with hr | ⟨_,_,⟨c,_,_,hr⟩ | ⟨_,hn⟩⟩
  · exact hi.typed x e (hr ▸ he)
  · rw [he] at hr
    cases hr
    exact ⟨_,rfl⟩
  · rw [he] at hn
    cases hn

omit hcm ha hh in
-- The sandbox that a call wakes is there: nobody hunts it while its key lives.
theorem never_stale {c : Client} (hst : st = .wake c) (ho : o.cmd = .ensureRunning c) :
    ¬ ∀ b, w.boxes c.sandboxId = some b → b.groupName = c.groupName → b.deleting = false → b.gone = true := by
  subst hst
  intro hs
  obtain ⟨e,he,hv⟩ := hi.settled t ctx command _ c hp rfl
  obtain ⟨b,hb,hdel,hgone⟩ := hi.sound ctx _ (live_text he hv (ht ctx e _ he hv (.inr (.inr ⟨c,rfl,ho⟩))))
  obtain ⟨hgn,b',ctx',_,_,hb',_,hk,hg',_⟩ := hi.isolated.held t ctx command _ c hp rfl
  rw [hb] at hb'
  cases hb'
  rw [hs b hb (by rw [hg',hgn,(routingKey_parts hk).2.2]) hdel] at hgone
  cases hgone

theorem sticky_cold (hst : st'.clear = true) : w'.redis (ctxKey cfg ctx) = none := by
  have hold : st.clear = true → w'.redis (ctxKey cfg ctx) = w.redis (ctxKey cfg ctx) →
      w'.redis (ctxKey cfg ctx) = none := fun hc hr => hr.trans (hi.cold t ctx command st hp hc)
  cases call_effect hcm ha (healthy_redis hh) with
  | miss v hl hv =>
    cases he : w.redis (ctxKey cfg ctx) with
    | none => rfl
    | some e =>
      obtain ⟨id,hid⟩ := hi.typed ctx e he
      rw [hl,live_text he hid (ht ctx e id he hid (.inl rfl))] at hv
      cases hv
  | unbound u => exact upd_same _ _ _
  | stale c hs => exact absurd hs (never_stale hi hp ht rfl rfl)
  | began spec c hn => exact hold rfl rfl
  | built c u hpres => exact hold rfl (by simp)
  | calm st st' o r w' hcalm hsd hc hb => exact hold (hsd.clear hst) (hcalm.keys ctx)
  | failed c e w' st' hl hw => rcases hl with rfl | rfl <;> cases hst
  | rolledBack u st' hl => rcases hl with rfl | rfl <;> cases hst
  | published c u => split at hst <;> cases hst
  | _ => cases hst

theorem sticky_settled {c : Client} (hst : st'.settled = some c) :
    ∃ e, w'.redis (ctxKey cfg ctx) = some e ∧ e.val = .text c.sandboxId := by
  have hold : st.settled = some c → w'.redis (ctxKey cfg ctx) = w.redis (ctxKey cfg ctx) →
      ∃ e, w'.redis (ctxKey cfg ctx) = some e ∧ e.val = .text c.sandboxId := by
    intro hs hr
    rw [hr]
    exact hi.settled t ctx command st c hp hs
  cases call_effect hcm ha (healthy_redis hh) with
  | hit id e he hv hlive =>
    cases hst
    exact ⟨e,he,hv⟩
  | refreshed c' u =>
    cases hst
    exact ⟨_,upd_same _ _ _,rfl⟩
  | published c' u =>
    have hc : c'.sandboxId = c.sandboxId := by split at hst <;> cases hst <;> rfl
    exact ⟨_,upd_same _ _ _,by rw [hc]⟩
  | recorded c' u => exact hold hst (store_other _ _ (key_ne (by simp)))
  | calm st st' o r w' hcalm hsd hc hb => exact hold (hsd.settled c hst) (hcalm.keys ctx)
  | failed c e w' st' hl hw => rcases hl with rfl | rfl <;> cases hst
  | rolledBack u st' hl => rcases hl with rfl | rfl <;> cases hst
  | _ => cases hst

omit hi hp ht in
theorem boxes_stay {id : String} {b : Box} (hb : w.boxes id = some b) :
    ∃ b', w'.boxes id = some b' ∧ b'.deleting = b.deleting ∧ b'.gone = b.gone := by
  obtain ⟨b',hb',hdel,hgone | ⟨c,rfl,_,hl⟩⟩ := effect_boxes (call_effect hcm ha (healthy_redis hh)) ha hb
  · exact ⟨b',hb',hdel,hgone⟩
  · exact absurd hl (healthy_poll hcm hh)

omit hcm ha hh ht in
-- The key of a call that is about to publish is still unbound, so what it publishes is bound nowhere.
theorem unplaced {c : Client} (hst : st = .publish c) : ¬ Placed cfg w c.sandboxId := by
  subst hst
  rintro ⟨x,e,he,hv⟩
  have hk := (hi.isolated.bound x e _ he hv).unique (hi.isolated.held t ctx command _ c hp rfl).2
  rw [ctxKey_congr hk,hi.cold t ctx command _ hp rfl] at he
  cases he

theorem sticky_sound : Sound cfg w' := by
  intro x id hl
  have hkeep : ∀ {b : Box}, w.boxes id = some b → b.deleting = false → b.gone = false →
      ∃ b, w'.boxes id = some b ∧ b.deleting = false ∧ b.gone = false := by
    intro b hb hdel hgone
    obtain ⟨b',hb',hdel',hgone'⟩ := boxes_stay hcm ha hh hb
    exact ⟨b',hb',hdel'.trans hdel,hgone'.trans hgone⟩
  rcases bound_back hi hp hcm ha hh ht hl with hl | ⟨c,rfl,rfl,_⟩
  · obtain ⟨b,hb,hdel,hgone⟩ := hi.sound x id hl
    exact hkeep hb hdel hgone
  · obtain ⟨b,hb,hdel,hgone⟩ := hi.building t ctx command _ c hp rfl
    exact hkeep hb hdel (hgone rfl)

theorem sticky_hunts : Hunts cfg (Placed cfg w') w' (upd ph t (.call ctx command st')) := by
  have hstay : ∀ {id}, Placed cfg w id → Placed cfg w' id := by
    rintro id ⟨x,e,he,hv⟩
    obtain ⟨e',he',hv'⟩ := bound_stays hi hp hcm ha hh he hv
    exact ⟨x,e',he',hv'⟩
  refine hi.hunts.frame (act_grows ha) (stays_upd (call_move hp hcm)) (fun id hk _ => hstay hk) (fun id e he => ?_)
    (fun x id hk _ hl => ?_) (fun i gr id key ids gs hpi => hi.hunts.looked i gr id key ids gs (call_waits hpi))
    (fun i gr id ids gs hpi => hi.hunts.doomed i gr id ids gs (call_waits hpi))
  · rcases effect_index (call_effect hcm ha (healthy_redis hh)) he with he | ⟨c,rfl,rfl,rfl⟩
    · exact .inl he
    · obtain ⟨e,he,hv⟩ := hi.settled t ctx command _ c hp rfl
      refine .inr ⟨hstay ⟨ctx,e,he,hv⟩,?_⟩
      rintro oid s gr dl ⟨⟩
      exact ⟨ctx,rfl,call_made hp hcm ha (hi.isolated.held t ctx command _ c hp rfl).2⟩
  · rcases bound_back hi hp hcm ha hh ht hl with hl | ⟨c,rfl,rfl,_⟩
    · exact hl
    · exact absurd hk (unplaced hi hp rfl)

theorem Sticky.call (hone : ∀ i x command' s, i ≠ t → ph i = .call x command' s → s.clear = false) :
    Sticky cfg w' (upd ph t (.call ctx command st')) where
  isolated := hi.isolated.step (call_move hp hcm) ha
  typed := fun _ _ he => sticky_typed hi hcm ha hh he
  cold := by
    intro i x command' s hpi hs
    rcases upd_eq hpi with ⟨rfl,⟨⟩⟩ | ⟨hit,hpi⟩
    · exact sticky_cold hi hp hcm ha hh ht hs
    · rw [hone i x command' s hit hpi] at hs
      cases hs
  settled := by
    intro i x command' s c hpi hs
    rcases upd_eq hpi with ⟨rfl,⟨⟩⟩ | ⟨_,hpi⟩
    · exact sticky_settled hi hp hcm ha hh ht hs
    · obtain ⟨e,he,hv⟩ := hi.settled i x command' s c hpi hs
      exact bound_stays hi hp hcm ha hh he hv
  unrolled := by
    intro i x command' hpi
    rcases upd_eq hpi with ⟨rfl,⟨⟩⟩ | ⟨_,hpi⟩
    · exact healthy_unrolled hcm hh rfl
    · exact hi.unrolled i x command' hpi
  building := by
    intro i x command' s c hpi hs
    rcases upd_eq hpi with ⟨rfl,⟨⟩⟩ | ⟨hit,hpi⟩
    · exact effect_building (call_effect hcm ha (healthy_redis hh)) hs (hi.building i ctx command st c hp)
    · have hclear := hone i x command' s hit hpi
      cases s <;> first | cases hs; done | cases hclear
  sound := sticky_sound hi hp hcm ha hh ht
  hunts := sticky_hunts hi hp hcm ha hh ht

end Step

end Call

section Others

variable {cfg : Config} {rep : Nat → Nat} {t : Nat} {o : Op} {r : Except Exc o.Ans} {h : Hint} {w w' : World}
variable {ph : Nat → Phase}

theorem Sticky.reap {st st' : Reaping} (hi : Sticky cfg w ph) (hp : ph t = .reap st)
    (hrm : ReapMove cfg st o r st') (ha : act rep t o w r h = some w') : Sticky cfg w' (upd ph t (.reap st')) := by
  have hkeys := reap_keys hrm ha
  have hplaced : ∀ {id}, Placed cfg w id ↔ Placed cfg w' id := by
    intro id
    simp only [Placed,hkeys]
  constructor
  case isolated => exact hi.isolated.step (reap_move hp hrm) ha
  case typed =>
    intro x e he
    rw [hkeys] at he
    exact hi.typed x e he
  case cold =>
    intro i ctx command s hpi hs
    rw [hkeys]
    exact hi.cold i ctx command s (reap_call hpi) hs
  case settled =>
    intro i ctx command s c hpi hs
    rw [hkeys]
    exact hi.settled i ctx command s c (reap_call hpi) hs
  case unrolled =>
    intro i ctx command hpi
    exact hi.unrolled i ctx command (reap_call hpi)
  case building =>
    intro i ctx command s c hpi hs
    obtain ⟨b,hb,hdel,hgone⟩ := hi.building i ctx command s c (reap_call hpi) hs
    obtain ⟨b',hb',hgone',hdel' | ⟨gr,ids,gs,hst⟩⟩ := reap_boxes hrm ha hb
    · exact ⟨b',hb',hdel'.trans hdel,fun h => hgone'.trans (hgone h)⟩
    · obtain ⟨x,e,he,hv⟩ := (hi.hunts.doomed t gr c.sandboxId ids gs (hst ▸ hp)).1
      have hc : s.client = some c ∧ s.clear = true := by cases s <;> first | cases hs; exact ⟨rfl,rfl⟩ | cases hs
      have hk := (hi.isolated.bound x e _ he hv).unique (hi.isolated.held i ctx command s c (reap_call hpi) hc.1).2
      rw [ctxKey_congr hk,hi.cold i ctx command s (reap_call hpi) hc.2] at he
      cases he
  case sound => exact hi.sound.reap hrm ha hi.hunts hi.isolated hp
  case hunts => exact (hi.hunts.reap hrm ha hp).mono (fun _ => hplaced.mp)

theorem Sticky.env {e : Env} (hi : Sticky cfg w ph) (he : env e w = some w') (hs : e.spares w) :
    Sticky cfg w' ph := by
  have hr := env_redis he
  have hplaced : ∀ {id}, Placed cfg w id ↔ Placed cfg w' id := by
    intro id
    simp only [Placed,hr]
  constructor
  case isolated => exact hi.isolated.env he
  case typed =>
    intro x y hy
    rw [hr] at hy
    exact hi.typed x y hy
  case cold =>
    intro i ctx command st hp hc
    rw [hr]
    exact hi.cold i ctx command st hp hc
  case settled =>
    intro i ctx command st c hp hc
    rw [hr]
    exact hi.settled i ctx command st c hp hc
  case unrolled => exact hi.unrolled
  case building =>
    intro i ctx command st c hp hc
    obtain ⟨b,hb,hdel,hgone⟩ := hi.building i ctx command st c hp hc
    obtain ⟨b',hb',hdel',hgone'⟩ := env_boxes he hs hb hdel
    exact ⟨b',hb',hdel',fun h => hgone'.trans (hgone h)⟩
  case sound => exact hi.sound.env he hs
  case hunts => exact (hi.hunts.env he).mono (fun _ => hplaced.mp)

theorem tame_user {ctx : SessionCtx} {c : Cmd} {oid : Guid}
    (hc : c = .get (userKey cfg oid) ∨ (∃ v ex, c = .set (userKey cfg oid) v ex) ∨ c = .clock) : Tame cfg ctx c := by
  rcases hc with rfl | ⟨v,ex,rfl⟩ | rfl
  · exact ⟨fun _ _ _ h => h,fun _ _ _ h => h,by simp,by simp,by rintro k ⟨⟩; exact key_ne (by simp)⟩
  · exact ⟨fun _ _ _ h => absurd h (key_ne (by simp)),fun _ _ _ h => absurd h (key_ne (by simp)),by simp,by simp,
      by simp⟩
  · exact tame_plain rfl

-- To resolve its session a visit reads and writes the key of its user only.
theorem resolve_moves {v : Visit} {st : Resolving} {p : Phase} (hm : PhaseMove cfg (.resolve v st) o r p) :
    (∀ ctx, Tame cfg ctx o.cmd) ∧ ((∃ st', p = .resolve v st') ∨ (∃ s, p = v.calling cfg s) ∨ p = .ended) := by
  cases hm with
  | known v oid x s hv hx => exact ⟨fun ctx => tame_user (.inl rfl),.inl ⟨_,rfl⟩⟩
  | unknown v oid x hv hx => exact ⟨fun ctx => tame_user (.inl rfl),.inl ⟨_,rfl⟩⟩
  | slid v oid s u hv hs => exact ⟨fun ctx => tame_user (.inr (.inl ⟨_,_,rfl⟩)),.inr (.inl ⟨s,rfl⟩)⟩
  | slidEmpty v oid u hv => exact ⟨fun ctx => tame_user (.inr (.inl ⟨_,_,rfl⟩)),.inl ⟨_,rfl⟩⟩
  | read v oid n hv => exact ⟨fun ctx => tame_plain rfl,.inl ⟨_,rfl⟩⟩
  | mintedKey v oid s u hv => exact ⟨fun ctx => tame_user (.inr (.inl ⟨_,_,rfl⟩)),.inr (.inl ⟨s,rfl⟩)⟩
  | resolveFailed v oid st e hv =>
    refine ⟨fun ctx => ?_,.inr (.inr rfl)⟩
    cases st with
    | look => exact tame_user (.inl rfl)
    | slide s => exact tame_user (.inr (.inl ⟨_,_,rfl⟩))
    | clock => exact tame_plain rfl
    | mint s => exact tame_user (.inr (.inl ⟨_,_,rfl⟩))

theorem Sticky.resolve {v : Visit} {st : Resolving} {p : Phase} (hi : Sticky cfg w ph) (hp : ph t = .resolve v st)
    (hm : PhaseMove cfg (ph t) o r p) (ha : act rep t o w r h = some w') : Sticky cfg w' (upd ph t p) := by
  obtain ⟨htame,hto⟩ := resolve_moves (hp ▸ hm)
  have hcalm : Calm cfg w w' := calm_act ha (htame ⟨none,none,none,.diagnose,none⟩)
  have hcall : ∀ {i ctx command s}, upd ph t p i = .call ctx command s →
      s = .start ∨ ph i = .call ctx command s := by
    intro i ctx command s hpi
    by_cases hit : i = t
    · subst hit
      rw [upd_same] at hpi
      rcases hto with ⟨st',rfl⟩ | ⟨s',rfl⟩ | rfl <;> cases hpi
      exact .inl rfl
    · rw [upd_other _ _ hit] at hpi
      exact .inr hpi
  have hreap : ∀ {i s}, upd ph t p i = .reap s → ph i = .reap s := by
    intro i s hpi
    by_cases hit : i = t
    · subst hit
      rw [upd_same] at hpi
      rcases hto with ⟨st',rfl⟩ | ⟨s',rfl⟩ | rfl <;> cases hpi
    · rwa [upd_other _ _ hit] at hpi
  have hplaced : ∀ {id}, Placed cfg w id ↔ Placed cfg w' id := by
    intro id
    simp only [Placed,hcalm.keys]
  constructor
  case isolated => exact hi.isolated.step hm ha
  case typed =>
    intro x e he
    rw [hcalm.keys] at he
    exact hi.typed x e he
  case cold =>
    intro i ctx command s hpi hs
    rw [hcalm.keys]
    rcases hcall hpi with rfl | hpi
    · cases hs
    · exact hi.cold i ctx command s hpi hs
  case settled =>
    intro i ctx command s c hpi hs
    rw [hcalm.keys]
    rcases hcall hpi with rfl | hpi
    · cases hs
    · exact hi.settled i ctx command s c hpi hs
  case unrolled =>
    intro i ctx command hpi
    rcases hcall hpi with h | hpi
    · cases h
    · exact hi.unrolled i ctx command hpi
  case building =>
    intro i ctx command s c hpi hs
    rcases hcall hpi with rfl | hpi
    · cases hs
    · obtain ⟨b,hb,hdel,hgone⟩ := hi.building i ctx command s c hpi hs
      obtain ⟨b',hb',hdel',hgone'⟩ := hcalm.boxes _ b hb
      exact ⟨b',hb',hdel'.trans hdel,fun h => hgone'.trans (hgone h)⟩
  case sound =>
    intro x id hl
    rw [lookup_congr (hcalm.keys x) hcalm.now] at hl
    obtain ⟨b,hb,hdel,hgone⟩ := hi.sound x id hl
    obtain ⟨b',hb',hdel',hgone'⟩ := hcalm.boxes _ b hb
    exact ⟨b',hb',hdel'.trans hdel,hgone'.trans hgone⟩
  case hunts =>
    refine hi.hunts.frame (act_grows ha) (stays_upd hm) (fun id hk _ => hplaced.mp hk) (fun id e he => ?_)
      (fun x id _ _ hl => ?_) (fun i gr id key ids gs hpi => hi.hunts.looked i gr id key ids gs (hreap hpi))
      (fun i gr id ids gs hpi => hi.hunts.doomed i gr id ids gs (hreap hpi))
    · exact .inl (hcalm.index id ▸ he)
    · rwa [lookup_congr (hcalm.keys x) hcalm.now] at hl

end Others

section Runs

variable {cfg : Config} {visits : Nat → Option Visit} {rep : Nat → Nat} {now : Nat}

def visitPhase (cfg : Config) : Option Visit → Phase
  | some v => v.phase cfg
  | none => Job.phase cfg .reaperRound

def Serves : Option Visit → Phase → Prop
  | some v, .resolve v' _ => v' = v
  | some v, .call ctx _ _ => ctx.userOid = v.oid ∧ ctx.group = v.group
  | none, .reap _ => True
  | _, .ended => True
  | _, _ => False

theorem serving_start (v : Option Visit) : Serves v (visitPhase cfg v) := by
  cases v with
  | none => trivial
  | some v =>
    simp only [visitPhase,Visit.phase]
    split
    · exact ⟨rfl,rfl⟩
    · rfl

theorem serving_move {v : Option Visit} {p p' : Phase} {o : Op} {r : Except Exc o.Ans} (hm : PhaseMove cfg p o r p')
    (hs : Serves v p) : Serves v p' := by
  cases v with
  | none =>
    cases hm with
    | reap st st' o r hr => trivial
    | _ => exact hs.elim
  | some v =>
    cases hm with
    | call ctx command st st' o r hc => exact hs
    | known v' oid x s hv hx => exact hs
    | unknown v' oid x hv hx => exact hs
    | slidEmpty v' oid u hv => exact hs
    | read v' oid n hv => exact hs
    | slid v' oid s u hv hne =>
      cases hs
      exact ⟨rfl,rfl⟩
    | mintedKey v' oid s u hv =>
      cases hs
      exact ⟨rfl,rfl⟩
    | resolveFailed v' oid st e hv => trivial
    | _ => exact hs.elim

-- Which visits have begun.
def begin (visits : Nat → Option Visit) (_ : System) (l : Step) (g : List Nat) : List Nat :=
  match l with
  | .task t _ _ _ => if (visits t).isSome then g.insert t else g
  | .env _ => g

-- Redis and the platform are healthy, only what the reaper deletes disappears, and a visit
-- makes a step only when the others that have begun are over.
def Apart (visits : Nat → Option Visit) (s : System) (g : List Nat) : Step → Prop
  | .task t o r _ => healthy o r = true ∧
      ((visits t).isSome = true → ∀ i ∈ g, i ≠ t → (s.pool i).outcome.isSome = true)
  | .env e => e.spares s.world

def InTime (cfg : Config) (visits : Nat → Option Visit) (s : System) : Step → Prop
  | .task t o _ _ => (visits t).isSome = true → Timely cfg s.world o.cmd
  | .env _ => True

def Steadily (cfg : Config) (visits : Nat → Option Visit) (s : System) (g : List Nat) (l : Step) : Prop :=
  Apart visits s g l ∧ InTime cfg visits s l

structure Tracked (cfg : Config) (visits : Nat → Option Visit) (w : World) (g : List Nat) (ph : Nat → Phase) :
    Prop where
  sticky : Sticky cfg w ph
  posts : ∀ i, Serves (visits i) (ph i)
  waiting : ∀ i, i ∉ g → (visits i).isSome = true → ph i = visitPhase cfg (visits i)

theorem visit_start {v : Option Visit} {ctx : SessionCtx} {command : Option String} {st : Stage}
    (hp : visitPhase cfg v = .call ctx command st) : st = .start := by
  cases v with
  | none => cases hp
  | some v =>
    simp only [visitPhase,Visit.phase] at hp
    split at hp <;> cases hp
    rfl

theorem finished_clear {ph : Phase} {res : Except Exc Out} (hf : Finished ph res) {ctx : SessionCtx}
    {command : Option String} {st : Stage} (hp : ph = .call ctx command st) : st.clear = false := by
  match res with
  | .ok (.client c) =>
    obtain ⟨_,_,h⟩ := hf
    rw [hp] at h
    cases h
    rfl
  | .ok (.visited s c x) =>
    obtain ⟨_,_,_,h⟩ := hf
    rw [hp] at h
    cases h
    rfl
  | .ok (.result x) =>
    obtain ⟨_,_,_,h⟩ := hf
    rw [hp] at h
    cases h
    rfl
  | .ok .done => exact absurd hp (hf ctx command st)
  | .error e =>
    cases hf ctx command st hp
    rfl

theorem sticky_start : Sticky cfg (World.empty now) (fun t => visitPhase cfg (visits t)) where
  isolated := isolated_start (fun _ _ _ _ => visit_start)
  typed := by
    intro x e he
    cases he
  cold := fun _ _ _ _ _ _ => rfl
  settled := by
    intro i ctx command st c hp hc
    cases visit_start hp
    cases hc
  unrolled := by
    intro i ctx command hp
    cases visit_start hp
  building := by
    intro i ctx command st c hp hc
    cases visit_start hp
    cases hc
  sound := by
    intro x id hl
    cases hl
  hunts := by
    refine hunts_start (fun i st hp => ?_)
    cases hv : visits i with
    | none =>
      simp only [hv,visitPhase] at hp
      exact job_judges hp
    | some v =>
      simp only [hv,visitPhase,Visit.phase] at hp
      split at hp <;> cases hp

-- While one visit runs, the others have not begun or are over.
theorem others_clear {s : System} {g : List Nat} {ph : Nat → Phase} {t : Nat}
    (hi : Tracked cfg visits s.world g ph) (hph : ∀ i, Follows (PhaseMove cfg) (ph i) (s.pool i) Finished)
    (hone : ∀ i ∈ g, i ≠ t → (s.pool i).outcome.isSome = true) (i : Nat) (ctx : SessionCtx)
    (command : Option String) (st : Stage) (hit : i ≠ t) (hp : ph i = .call ctx command st) : st.clear = false := by
  by_cases hg : i ∈ g
  · obtain ⟨res,hres⟩ := Option.isSome_iff_exists.mp (hone i hg hit)
    exact finished_clear ((hph i).outcome hres) hp
  · have hserve := hi.posts i
    cases hv : visits i with
    | none =>
      rw [hv,hp] at hserve
      exact hserve.elim
    | some v =>
      have hw := hi.waiting i hg (by rw [hv]; rfl)
      cases visit_start (hw ▸ hp)
      rfl

theorem tracked_run {s : System} {g : List Nat}
    (hr : (machine rep).Run (Steadily cfg visits) (begin visits) (startVisits cfg visits now) [] s g) :
    ∃ ph, Tracked cfg visits s.world g ph ∧ ∀ t, Follows (PhaseMove cfg) (ph t) (s.pool t) Finished := by
  refine hr.tracked (I := Tracked cfg visits) (fun t => visitPhase cfg (visits t)) (fun t => ?_) ?_ ?_ ?_
  · simp only [startVisits]
    cases visits t with
    | none => exact job_follows cfg .reaperRound
    | some v => exact visit_follows cfg v
  · exact ⟨sticky_start,fun i => serving_start _,fun i _ _ => rfl⟩
  · intro s g ph t o r h w p hi hph hadm hm ha
    have hserve := hi.posts t
    refine ⟨?_,forall_upd (serving_move hm hserve) hi.posts,?_⟩
    · cases hq : ph t with
      | resolve v st => exact hi.sticky.resolve hq hm ha
      | reap st =>
        rw [hq] at hm
        cases hm with
        | reap _ st' _ _ hrm => exact hi.sticky.reap hq hrm ha
      | call ctx command st =>
        obtain ⟨st',rfl,hcm⟩ := move_call hm hq
        rw [hq] at hserve
        cases hv : visits t with
        | none =>
          rw [hv] at hserve
          exact hserve.elim
        | some v =>
          have hsome : (visits t).isSome = true := by rw [hv]; rfl
          exact hi.sticky.call hq hcm ha hadm.1.1 (hadm.2 hsome) (others_clear hi hph (hadm.1.2 hsome))
      | ending oid sid st =>
        rw [hq] at hserve
        cases hv : visits t with
        | none =>
          rw [hv] at hserve
          exact hserve.elim
        | some v =>
          rw [hv] at hserve
          exact hserve.elim
      | ended =>
        rw [hq] at hm
        cases hm
    · intro i hg hv
      by_cases hit : i = t
      · subst hit
        simp [begin,hv] at hg
      · rw [upd_other _ _ hit]
        refine hi.waiting i (fun hmem => hg ?_) hv
        simp only [begin]
        split
        · exact List.mem_insert_of_mem hmem
        · exact hmem
  · intro s g ph e w hi hadm he
    exact ⟨hi.sticky.env he hadm.1,hi.posts,hi.waiting⟩

theorem same_sandbox {oid : Option Guid} (hone : ∀ t v, visits t = some v → v.oid = oid) {s : System}
    {g : List Nat} (hr : (machine rep).Run (Steadily cfg visits) (begin visits) (startVisits cfg visits now) [] s g)
    (t t' : Nat) (v v' : Visit) (ht : visits t = some v) (ht' : visits t' = some v')
    (hg : v.group = v'.group) (sid : Option String) (c c' : Client) (res res' : ExecResult)
    (hc : (s.pool t).outcome = some (.ok (.visited sid c res)))
    (hc' : (s.pool t').outcome = some (.ok (.visited sid c' res'))) : c = c' := by
  obtain ⟨ph,hi,hph⟩ := tracked_run hr
  obtain ⟨x,command,hx,hp⟩ := (hph t).outcome hc
  obtain ⟨x',command',hx',hp'⟩ := (hph t').outcome hc'
  have hs := hi.posts t
  rw [ht,hp] at hs
  have hs' := hi.posts t'
  rw [ht',hp'] at hs'
  have hkey : ctxKey cfg x = ctxKey cfg x' := by
    simp only [ctxKey,hs.1,hs'.1,hs.2,hs'.2,hone t v ht,hone t' v' ht',hx,hx',hg]
  obtain ⟨e,he,hv⟩ := hi.sticky.settled t x command _ c hp rfl
  obtain ⟨e',he',hv'⟩ := hi.sticky.settled t' x' command' _ c' hp' rfl
  rw [hkey,he'] at he
  cases he
  have hid : c.sandboxId = c'.sandboxId := Value.text.inj (hv.symm.trans hv')
  have hgn := (hi.sticky.isolated.held t x command _ c hp rfl).1
  have hgn' := (hi.sticky.isolated.held t' x' command' _ c' hp' rfl).1
  cases c
  cases c'
  simp only at hid hgn hgn'
  rw [hid,hgn,hgn',hs.2,hs'.2,hg]

end Runs

section Schedules

def sampleOid : Guid := ⟨"00000000-0000-0000-0000-000000000001",by decide,List.all_iff_forall_prop.mp (by decide)⟩

def sampleVisit (group : Group) : Visit := ⟨some sampleOid,some "t1",none,group,none,sampleCommand⟩

-- Three calls of one user; every other task is a reaper pass.
def sampleVisits : Nat → Option Visit
  | 0 => some (sampleVisit .action)
  | 1 => some (sampleVisit .diagnose)
  | 2 => some (sampleVisit .action)
  | _ => none

def sampleSession (group : Group) : SessionCtx := (sampleVisit group).ctx (some "t1_0") (some "t1")

def newSession (cfg : Config) (t : Nat) : List Step :=
  [answers t (.get (userKey cfg sampleOid)) none,answers t .clock 0,
    answers t (.set (userKey cfg sampleOid) (.text "t1_0") cfg.sessions.ttl) ()]

def oldSession (cfg : Config) (t : Nat) : List Step :=
  [answers t (.get (userKey cfg sampleOid)) (some (.text "t1_0")),
    answers t (.set (userKey cfg sampleOid) (.text "t1_0") cfg.sessions.ttl) ()]

def running (cfg : Config) (t : Nat) (ctx : SessionCtx) (id : String) : List Step :=
  [answers t (.release (routingKey ctx)) (),
    answers t (.exec ⟨cfg.groupNames ctx.group,id⟩ (wrap cfg ctx sampleCommand)) ⟨0,none,none⟩]

def firstCall (cfg : Config) (t : Nat) (ctx : SessionCtx) (id : String) : List Step :=
  [answers t (.acquire (routingKey ctx)) (),answers t (.get (ctxKey cfg ctx)) none,
    answers t (.get (cfg.profiles.k (UserProfileCache.key sampleOid.text))) none true] ++ creation cfg t ctx id ++
    publication cfg t ctx id ++ running cfg t ctx id

def laterCall (cfg : Config) (t : Nat) (ctx : SessionCtx) (id : String) : List Step :=
  [answers t (.acquire (routingKey ctx)) (),answers t (.get (ctxKey cfg ctx)) (some (.text id)),
    answers t (.set (ctxKey cfg ctx) (.text id) cfg.sessions.ttl) (),
    answers t (.ensureRunning ⟨cfg.groupNames ctx.group,id⟩) ()] ++ running cfg t ctx id

def apart (visits : Nat → Option Visit) (s : System) (g : List Nat) : Step → Bool
  | .task t o r _ => healthy o r && (!(visits t).isSome || g.all (fun i => i == t || (s.pool i).outcome.isSome))
  | .env (.vanish _) => false
  | .env _ => true

theorem apart_sound (visits : Nat → Option Visit) (s : System) (g : List Nat) (l : Step)
    (hl : apart visits s g l = true) : Apart visits s g l := by
  cases l with
  | env e => cases e <;> trivial
  | task t o r h =>
    simp only [apart,Bool.and_eq_true,Bool.or_eq_true,Bool.not_eq_true',List.all_eq_true,beq_iff_eq] at hl
    refine ⟨hl.1,fun hv i hi hit => ?_⟩
    rcases hl.2 with hn | hall
    · rw [hv] at hn
      cases hn
    · exact (hall i hi).resolve_left hit

-- In time, for the one sandbox of the session that ctx belongs to.
def prompt (cfg : Config) (ctx : SessionCtx) (s : System) (g : List Nat) (l : Step) : Bool :=
  let live := fun k => (s.world.redis k).all (fun e => e.live s.world.now)
  apart sampleVisits s g l && match l with
    | .task _ ⟨.get k,_⟩ _ _ => live k
    | .task _ ⟨.set k _ _,_⟩ _ _ => live k
    | .task _ ⟨.ensureRunning c,_⟩ _ _ =>
      live (ctxKey cfg ctx) && decide ((s.world.redis (ctxKey cfg ctx)).map Entry.val = some (.text c.sandboxId))
    | _ => true

theorem prompt_sound {cfg : Config} {ctx : SessionCtx} {s : System} {g : List Nat} {l : Step}
    (hr : (machine id).Run (Steadily cfg sampleVisits) (begin sampleVisits) (startVisits cfg sampleVisits 0) [] s g)
    (hl : prompt cfg ctx s g l = true) : Steadily cfg sampleVisits s g l := by
  simp only [prompt,Bool.and_eq_true] at hl
  refine ⟨apart_sound _ s g l hl.1,?_⟩
  cases l with
  | env e => trivial
  | task t o r h =>
    obtain ⟨c,timed⟩ := o
    rintro - x e i he hv (rfl | ⟨v,ex,rfl⟩ | ⟨client,rfl,rfl⟩)
    · simpa [he] using hl.2
    · simpa [he] using hl.2
    · obtain ⟨ph,hi,_⟩ := tracked_run hr
      simp only [Bool.and_eq_true,decide_eq_true_eq] at hl
      obtain ⟨y,hy,hval⟩ := Option.map_eq_some_iff.mp hl.2.2
      have hk := (hi.sticky.isolated.bound x e _ he hv).unique (hi.sticky.isolated.bound ctx y _ hy hval)
      rw [ctxKey_congr hk] at he
      simpa [he] using hl.2.1

theorem sample_user (t : Nat) (v : Visit) (hv : sampleVisits t = some v) : v.oid = some sampleOid := by
  match t with
  | 0 => cases hv; rfl
  | 1 => cases hv; rfl
  | 2 => cases hv; rfl
  | _ + 3 => cases hv

theorem same_sandbox_reused : ∃ s g c c' res res', (machine id).Run (Steadily sampleConfig sampleVisits)
      (begin sampleVisits) (startVisits sampleConfig sampleVisits 0) [] s g ∧
    (s.pool 0).outcome = some (.ok (.visited (some "t1_0") c res)) ∧
    (s.pool 2).outcome = some (.ok (.visited (some "t1_0") c' res')) ∧ c = c' := by
  obtain ⟨s,g,hr,hn⟩ : ∃ s g, (machine id).Run (fun s g l => prompt sampleConfig (sampleSession .action) s g l = true)
      (begin sampleVisits) (startVisits sampleConfig sampleVisits 0) [] s g ∧
      ((s.pool 0).outcome,(s.pool 2).outcome) =
        (some (.ok (.visited (some "t1_0") ⟨"sg-action","b1"⟩ (capped sampleConfig ⟨0,none,none⟩))),
          some (.ok (.visited (some "t1_0") ⟨"sg-action","b1"⟩ (capped sampleConfig ⟨0,none,none⟩)))) :=
    Machine.replay_reaches (prompt sampleConfig (sampleSession .action))
      (newSession sampleConfig 0 ++ firstCall sampleConfig 0 (sampleSession .action) "b1" ++
        [.env (.tick 1200000)] ++ oldSession sampleConfig 2 ++ laterCall sampleConfig 2 (sampleSession .action) "b1")
      (fun _ _ _ hl => hl) (by decide +kernel)
  obtain ⟨h₀,h₂⟩ := Prod.mk.inj hn
  have hr' := Machine.Run.strengthen (fun _ _ _ h hl => prompt_sound h hl) hr
  exact ⟨s,g,_,_,_,_,hr',h₀,h₂,same_sandbox sample_user hr' 0 2 _ _ rfl rfl rfl _ _ _ _ _ h₀ h₂⟩

-- Calls of the other group keep the session alive, and nothing keeps the routing key.
theorem session_outlives_sandbox : ∃ s g c c' res res', (machine id).Run (Apart sampleVisits) (begin sampleVisits)
      (startVisits sampleConfig sampleVisits 0) [] s g ∧
    (s.pool 0).outcome = some (.ok (.visited (some "t1_0") c res)) ∧
    (s.pool 2).outcome = some (.ok (.visited (some "t1_0") c' res')) ∧ c ≠ c' := by
  obtain ⟨s,g,hr,hn⟩ : ∃ s g, (machine id).Run (Apart sampleVisits) (begin sampleVisits)
      (startVisits sampleConfig sampleVisits 0) [] s g ∧ ((s.pool 0).outcome,(s.pool 2).outcome) =
        (some (.ok (.visited (some "t1_0") ⟨"sg-action","b1"⟩ (capped sampleConfig ⟨0,none,none⟩))),
          some (.ok (.visited (some "t1_0") ⟨"sg-action","b3"⟩ (capped sampleConfig ⟨0,none,none⟩)))) :=
    Machine.replay_reaches (apart sampleVisits)
      (newSession sampleConfig 0 ++ firstCall sampleConfig 0 (sampleSession .action) "b1" ++
        [.env (.tick 1200000)] ++ oldSession sampleConfig 1 ++
        firstCall sampleConfig 1 (sampleSession .diagnose) "b2" ++ [.env (.tick 1200000)] ++
        oldSession sampleConfig 2 ++ firstCall sampleConfig 2 (sampleSession .action) "b3")
      (apart_sound _) (by decide +kernel)
  obtain ⟨h₀,h₂⟩ := Prod.mk.inj hn
  exact ⟨s,g,_,_,_,_,hr,h₀,h₂,by decide⟩

end Schedules

end IdentityAwareMcp
