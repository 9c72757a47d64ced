import IdentityAwareMcp.Safety.Hunt

namespace IdentityAwareMcp

open Coop SandboxManager

section Invariant

variable (cfg : Config)

def Use.after (ctx : SessionCtx) (w : World) (u : Use) (o : Op) (r : Except Exc o.Ans) : Use :=
  match o, r with
  | ⟨.get k,_⟩, .ok v =>
    if k = ctxKey cfg ctx then
      match v.bind Value.asText with
      | some id => ⟨some id,(w.redis k).bind Entry.deadline,true⟩
      | none => .idle
    else u
  | ⟨.beginCreate _ _,_⟩, .ok c => ⟨some c.sandboxId,none,false⟩
  | ⟨.set k _ ex,_⟩, .ok _ =>
    if k = ctxKey cfg ctx then { u with expiry := ex.map (fun s => w.now + s * 1000) } else u
  | ⟨.del k,_⟩, .ok _ => if k = ctxKey cfg ctx then .idle else u
  | _, _ => u

def Holds (w : World) (t : Nat) (ctx : SessionCtx) : Prop := w.lookup (lockKey ctx) = some (.token t)

-- The id has been published: no call that has chosen it is still to publish it.
def Known (g : Nat → Use) (id : String) : Prop := ∀ i, (g i).id = some id → (g i).expiry ≠ none

structure Guarded (w : World) (g : Nat → Use) (ph : Nat → Phase) : Prop where
  isolated : Isolated cfg w ph
  made : Fresh w ph
  unset : ∀ i id, (g i).id = some id → (g i).expiry = none → MadeBy w i id
  fits : ∀ i x command st, ph i = .call x command st → Fits (g i) st
  used : ∀ i id, (g i).id = some id → ∃ x command st, ph i = .call x command st ∧ Made cfg w ph (routingKey x) id
  timed : ∀ x e id, w.redis (ctxKey cfg x) = some e → e.val = .text id →
    ∃ d, e.deadline = some d ∧ d ≤ w.now + cfg.sessionTtl * 1000
  building : ∀ i x command st c, ph i = .call x command st → st.building = some c →
    ∃ b, w.boxes c.sandboxId = some b ∧ b.deleting = false ∧ (st.built = some c → b.gone = false)
  kept : ∀ i x command st id d, ph i = .call x command st → (g i).id = some id → (g i).expiry = some d →
    d ≤ w.now ∨ ∃ e d', w.redis (ctxKey cfg x) = some e ∧ e.val = .text id ∧ e.deadline = some d' ∧ d ≤ d'
  clear : ∀ i x command st id, ph i = .call x command st → st.clear = true → Holds w i x →
    w.lookup (ctxKey cfg x) ≠ some (.text id)
  own : ∀ i x command st id, ph i = .call x command st → st.own = true → Holds w i x →
    w.lookup (ctxKey cfg x) = some (.text id) → (g i).id = some id
  sole : ∀ i j x command st id, ph i = .call x command st → st.sole = true → Holds w i x → j ≠ i →
    (g j).id = some id → (g i).id ≠ some id
  bound : ∀ x e id, w.redis (ctxKey cfg x) = some e → e.val = .text id → Known g id
  sound : Sound cfg w
  hunts : Hunts cfg (Known g) w ph

end Invariant

section Call

variable {cfg : Config} {rep : Nat → Nat} {t : Nat} {o : Op} {r : Except Exc o.Ans} {h : Hint} {w w' : World}
variable {ph : Nat → Phase} {g : Nat → Use} {ctx : SessionCtx} {command : Option String} {st st' : Stage}

theorem after_tame {u : Use} (hc : Tame cfg ctx o.cmd)
    (hb : ∀ gr spec, o.cmd = .beginCreate gr spec → ∃ e, r = .error e) : u.after cfg ctx w o r = u := by
  obtain ⟨c,timed⟩ := o
  cases c with
  | get k =>
    have hk := hc.get k rfl
    cases r with
    | ok v => simp only [Use.after,hk,if_false]
    | error e => rfl
  | set k v ex =>
    have hk : k ≠ ctxKey cfg ctx := hc.keys 0 w ctx
    cases r with
    | ok u => simp only [Use.after,hk,if_false]
    | error e => rfl
  | del k =>
    have hk : k ≠ ctxKey cfg ctx := hc.keys 0 w ctx
    cases r with
    | ok u => simp only [Use.after,hk,if_false]
    | error e => rfl
  | beginCreate gr spec =>
    obtain ⟨e,rfl⟩ := hb gr spec rfl
    rfl
  | _ => cases r <;> rfl

theorem after_record (u : Use) (id : String) (v : Value) (ex : Option Nat) (x : Unit) :
    u.after cfg ctx w ⟨.set (indexKey cfg id) v ex,false⟩ (.ok x) = u := by
  have hk : indexKey cfg id ≠ ctxKey cfg ctx := key_ne (by simp)
  simp only [Use.after,hk,if_false]

-- Redis answers; the call reads and writes its routing key under its Redis lock, and
-- refreshes what it has read before that has expired.
structure Disciplined (cfg : Config) (w : World) (g : Nat → Use) (t : Nat) (ctx : SessionCtx) (o : Op)
    (r : Except Exc o.Ans) : Prop where
  answers : ∀ e, r = .error e → o.cmd.redis = true → e = .notOwned
  holds : Accesses cfg ctx o.cmd → Holds w t ctx
  live : ∀ id ex, o.cmd = .set (ctxKey cfg ctx) (.text id) ex → (g t).hit = true →
    w.lookup (ctxKey cfg ctx) = some (.text id)

theorem holds_unique {i j : Nat} {x y : SessionCtx} (hi : Holds w i x) (hj : Holds w j y)
    (hk : routingKey x = routingKey y) : i = j := by
  have hl : lockKey x = lockKey y := by simp only [lockKey,hk]
  rw [Holds,hl] at hi
  rw [Holds,hi] at hj
  cases hj
  rfl

theorem call_timed (hi : Guarded cfg w g ph) (hp : ph t = .call ctx command st)
    (hcm : CallMove cfg ctx command st o r st') (ha : act rep t o w r h = some w') {x : SessionCtx} {e : Entry} {id : String}
    (he : w'.redis (ctxKey cfg x) = some e) (hv : e.val = .text id) : ∃ d, e.deadline = some d ∧ d ≤ w'.now + cfg.sessionTtl * 1000 := by
  rw [act_now ha]
  rcases act_entry ha he with he | hw
  · exact hi.timed x e id he hv
  · exact ⟨_,(writes_text (call_move hp hcm) hw hv).1,Nat.le_refl _⟩

-- What a call holds after its step it held before, unless it was waiting for the lock.
theorem call_holds (hp : ph t = .call ctx command st) (hcm : CallMove cfg ctx command st o r st')
    (ha : act rep t o w r h = some w') {i : Nat} {x : SessionCtx} (hh : Holds w' i x)
    (hw : i = t → st ≠ .wait) : Holds w i x := by
  rcases token_back (call_move hp hcm) ha hh with h | ⟨rfl,ctx',command',hpw⟩
  · exact h
  · rw [hp] at hpw
    cases hpw
    exact absurd rfl (hw rfl)

theorem no_stale {c : Client} (hi : Guarded cfg w g ph) (hp : ph t = .call ctx command (.wake c))
    (hh : Holds w t ctx)
    (hs : ∀ b, w.boxes c.sandboxId = some b → b.groupName = c.groupName → b.deleting = false → b.gone = true)
    {id : String} : w.lookup (ctxKey cfg ctx) ≠ some (.text id) := by
  intro hl
  have hmine := hi.own t ctx command _ id hp rfl hh hl
  cases (hi.fits t ctx command _ hp).1.symm.trans hmine
  obtain ⟨b,hb,hdel,hgone⟩ := hi.sound ctx _ hl
  obtain ⟨hgn,b',ctx',command',st₀,hb',hp',hk,hg',_⟩ := hi.isolated.held t ctx command _ c hp rfl
  rw [hb] at hb'
  cases hb'
  have hgr : ctx'.group = ctx.group := (routingKey_parts hk).2.2
  rw [hs b hb (by rw [hg',hgn,hgr]) hdel] at hgone
  cases hgone

section Step

variable (hi : Guarded cfg w g ph) (hp : ph t = .call ctx command st)
variable (hcm : CallMove cfg ctx command st o r st') (ha : act rep t o w r h = some w')
variable (hd : Disciplined cfg w g t ctx o r)
include hi hp hcm ha hd

omit hi hp in
-- Only a call under its lock changes what a routing key holds.
theorem call_keys {x : SessionCtx} (hx : routingKey x = routingKey ctx → ¬ Holds w t ctx) :
    w'.redis (ctxKey cfg x) = w.redis (ctxKey cfg x) := by
  rcases effect_keys (call_effect hcm ha hd.answers) x with hr | ⟨hacc,hk,_⟩
  · exact hr
  · exact absurd (hd.holds hacc) (hx (ctxKey_injective cfg hk))

omit hi hp in
theorem call_others {i : Nat} (hit : i ≠ t) {x : SessionCtx} (hh : Holds w i x) :
    w'.redis (ctxKey cfg x) = w.redis (ctxKey cfg x) :=
  call_keys hcm ha hd (fun hk ht => hit (holds_unique hh ht hk))

theorem call_text {x : SessionCtx} {id : String} (hl : w'.lookup (ctxKey cfg x) = some (.text id)) :
    w.lookup (ctxKey cfg x) = some (.text id) ∨
      ∃ c, st = .publish c ∧ c.sandboxId = id ∧ routingKey ctx = routingKey x ∧ Holds w t ctx := by
  obtain ⟨e,he,hv,_⟩ := lookup_some hl
  rcases effect_keys (call_effect hcm ha hd.answers) x with hr | ⟨hacc,hk,⟨c,hst,ho,hc⟩ | ⟨_,hn⟩⟩
  · rw [← lookup_congr hr (act_now ha)]
    exact .inl hl
  · rw [he] at hc
    cases hc
    cases hv
    rcases hst with rfl | rfl
    · rw [hk]
      exact .inl (hd.live c.sandboxId _ ho (hi.fits t ctx command _ hp).2.2)
    · exact .inr ⟨c,rfl,rfl,(ctxKey_injective cfg hk).symm,hd.holds hacc⟩
  · rw [he] at hn
    cases hn

-- How a call comes to have chosen a sandbox, and what then protects it.
theorem call_use {id : String} (hid : ((g t).after cfg ctx w o r).id = some id) :
    (g t).id = some id ∧ ((g t).after cfg ctx w o r).expiry = (g t).expiry ∧
      w'.redis (ctxKey cfg ctx) = w.redis (ctxKey cfg ctx) ∨
    (g t).id = some id ∧ ((g t).after cfg ctx w o r).expiry = some (w.now + cfg.sessionTtl * 1000) ∧
      w'.redis (ctxKey cfg ctx) = some ⟨.text id,some (w.now + cfg.sessionTtl * 1000)⟩ ∨
    w' = w ∧ Holds w t ctx ∧ (∃ e d, w.redis (ctxKey cfg ctx) = some e ∧ e.val = .text id ∧ e.deadline = some d ∧
      ((g t).after cfg ctx w o r).expiry = some d) ∨
    w.boxes id = none ∧ w'.redis = w.redis ∧ ((g t).after cfg ctx w o r).expiry = none ∧
      ∃ c, st' = .poll c ∧ c.sandboxId = id := by
  have hf := hi.fits t ctx command st hp
  cases call_effect hcm ha hd.answers with
  | hit i e he hv hlive =>
    obtain ⟨d,hdl,_⟩ := hi.timed ctx e i he hv
    simp only [Use.after,if_true,Option.bind_some,Value.asText] at hid
    cases hid
    refine .inr (.inr (.inl ⟨rfl,hd.holds (.inl rfl),e,d,he,hv,hdl,?_⟩))
    simp [Use.after,Value.asText,he,hdl]
  | miss v hl hv =>
    simp only [Use.after,if_true,hv,Use.idle] at hid
    cases hid
  | refreshed c u =>
    simp only [Use.after,if_true] at hid ⊢
    have hc : c.sandboxId = id := Option.some.inj (hf.1.symm.trans hid)
    exact .inr (.inl ⟨hid,rfl,by simp [World.store,hc,Config.sessions]⟩)
  | published c u =>
    simp only [Use.after,if_true] at hid ⊢
    have hc : c.sandboxId = id := Option.some.inj (hf.1.symm.trans hid)
    exact .inr (.inl ⟨hid,rfl,by simp [World.store,hc,Config.sessions]⟩)
  | unbound u =>
    simp only [Use.after,if_true,Use.idle] at hid
    cases hid
  | rolledBack u st' hl =>
    simp only [Use.after,if_true,Use.idle] at hid
    cases hid
  | began spec c hn =>
    simp only [Use.after] at hid
    cases hid
    exact .inr (.inr (.inr ⟨hn,rfl,rfl,c,rfl,rfl⟩))
  | built c u hpres => exact .inl ⟨hid,rfl,by simp⟩
  | failed c e w' st' hl hw => exact .inl ⟨hid,rfl,by rcases hw with rfl | rfl <;> simp⟩
  | recorded c u =>
    rw [after_record] at hid ⊢
    exact .inl ⟨hid,rfl,store_other _ _ (key_ne (by simp))⟩
  | stale c hs => exact .inl ⟨hid,rfl,rfl⟩
  | calm st st' o r w' hcalm hs hc hb =>
    rw [after_tame hc hb] at hid ⊢
    exact .inl ⟨hid,rfl,hcalm.keys ctx⟩

theorem call_fits : Fits ((g t).after cfg ctx w o r) st' := by
  have hf := hi.fits t ctx command st hp
  cases call_effect hcm ha hd.answers with
  | hit i e he hv hlive =>
    obtain ⟨d,hdl,_⟩ := hi.timed ctx e i he hv
    simp [Use.after,Value.asText,he,hdl]
  | miss v hl hv => trivial
  | refreshed c u =>
    refine ⟨?_,?_⟩
    · simpa [Use.after] using hf.1
    · simp [Use.after,Config.sessions]
  | published c u =>
    have hc : ((g t).after cfg ctx w ⟨.set (ctxKey cfg ctx) (.text c.sandboxId) cfg.sessions.ttl,false⟩
        (.ok u)).id = some c.sandboxId ∧ ((g t).after cfg ctx w
        ⟨.set (ctxKey cfg ctx) (.text c.sandboxId) cfg.sessions.ttl,false⟩ (.ok u)).expiry ≠ none := by
      refine ⟨?_,?_⟩
      · simpa [Use.after] using hf.1
      · simp [Use.after,Config.sessions]
    split <;> exact hc
  | unbound u => trivial
  | rolledBack u st' hl => rcases hl with rfl | rfl <;> trivial
  | began spec c hn => exact ⟨rfl,rfl,rfl⟩
  | built c u hpres => exact hf
  | failed c e w' st' hl hw => rcases hl with rfl | rfl <;> trivial
  | recorded c u =>
    rw [after_record]
    exact hf
  | stale c hs => trivial
  | calm st st' o r w' hcalm hs hc hb =>
    rw [after_tame hc hb]
    exact hs.fits _ hf

theorem call_known {id : String} (hk : Known g id) (hb : w.boxes id ≠ none) :
    Known (upd g t ((g t).after cfg ctx w o r)) id := by
  intro i hid
  by_cases hit : i = t
  · subst hit
    rw [upd_same] at hid ⊢
    rcases call_use hi hp hcm ha hd hid with ⟨hid,he,_⟩ | ⟨_,he,_⟩ | ⟨_,_,_,d,_,_,_,he⟩ | ⟨hn,_⟩
    · rw [he]
      exact hk i hid
    · simp [he]
    · simp [he]
    · exact absurd hn hb
  · rw [upd_other _ _ hit] at hid ⊢
    exact hk i hid

omit hcm in
-- A sandbox that the call has set up is known once the call counts it as published.
theorem call_chosen {c : Client} (hf : st.fresh = some c)
    (hx : ((g t).after cfg ctx w o r).expiry ≠ none) :
    Known (upd g t ((g t).after cfg ctx w o r)) c.sandboxId := by
  intro i hid he
  by_cases hit : i = t
  · subst hit
    rw [upd_same] at he
    exact hx he
  · rw [upd_other _ _ hit] at hid he
    obtain ⟨b,hb,hc⟩ := hi.unset i _ hid he
    obtain ⟨b',hb',hc'⟩ := hi.made t ctx command st c hp hf
    rw [hb] at hb'
    cases hb'
    exact hit (hc.symm.trans hc')

theorem call_unset {i : Nat} {id : String} (hid : (upd g t ((g t).after cfg ctx w o r) i).id = some id)
    (he : (upd g t ((g t).after cfg ctx w o r) i).expiry = none) : MadeBy w' i id := by
  have hg := act_grows ha
  by_cases hit : i = t
  · subst hit
    rw [upd_same] at hid he
    rcases call_use hi hp hcm ha hd hid with ⟨hid,hx,_⟩ | ⟨_,hx,_⟩ | ⟨_,_,_,d,_,_,_,hx⟩ | ⟨_,_,_,c,rfl,rfl⟩
    · exact (hi.unset i id hid (hx.symm.trans he)).mono hg
    · rw [hx] at he
      cases he
    · rw [hx] at he
      cases he
    · exact (hi.made.step (call_move hp hcm) ha) i ctx command _ c (upd_same _ _ _) rfl
  · rw [upd_other _ _ hit] at hid he
    exact (hi.unset i id hid he).mono hg

theorem call_used {i : Nat} {id : String} (hid : (upd g t ((g t).after cfg ctx w o r) i).id = some id) :
    ∃ x command' st₀, upd ph t (.call ctx command st') i = .call x command' st₀ ∧
      Made cfg w' (upd ph t (.call ctx command st')) (routingKey x) id := by
  by_cases hit : i = t
  · subst hit
    rw [upd_same] at hid
    refine ⟨ctx,command,st',upd_same _ _ _,?_⟩
    have hold : (g i).id = some id → Made cfg w ph (routingKey ctx) id := by
      intro h
      obtain ⟨x,command',st₀,hpx,hm⟩ := hi.used i id h
      rw [hp] at hpx
      cases hpx
      exact hm
    rcases call_use hi hp hcm ha hd hid with ⟨hid,_⟩ | ⟨hid,_⟩ | ⟨_,_,e,_,he,hv,_⟩ | ⟨_,_,_,c,rfl,rfl⟩
    · exact call_made hp hcm ha (hold hid)
    · exact call_made hp hcm ha (hold hid)
    · exact call_made hp hcm ha (hi.isolated.bound ctx e id he hv)
    · exact ((hi.isolated.step (call_move hp hcm) ha).held i ctx command _ c (upd_same _ _ _) rfl).2
  · rw [upd_other _ _ hit] at hid
    obtain ⟨x,command',st₀,hpx,hm⟩ := hi.used i id hid
    exact ⟨x,command',st₀,by rw [upd_other _ _ hit,hpx],call_made hp hcm ha hm⟩

-- A creation fails for its own sandbox only.
theorem call_keeps {i : Nat} {x : SessionCtx} {command' : Option String} {s : Stage} {c : Client} {b : Box}
    (hit : i ≠ t) (hpi : ph i = .call x command' s) (hs : s.fresh = some c)
    (hb : w.boxes c.sandboxId = some b) :
    ∃ b', w'.boxes c.sandboxId = some b' ∧ b'.deleting = b.deleting ∧ b'.gone = b.gone := by
  obtain ⟨b',hb',hdel,hgone | ⟨c',rfl,hid,_⟩⟩ := effect_boxes (call_effect hcm ha hd.answers) ha hb
  · exact ⟨b',hb',hdel,hgone⟩
  · obtain ⟨x₁,h₁,hc₁⟩ := hi.made i x command' s c hpi hs
    obtain ⟨x₂,h₂,hc₂⟩ := hi.made t ctx command _ c' hp rfl
    rw [hid,h₁] at h₂
    cases h₂
    exact absurd (hc₁.symm.trans hc₂) hit

theorem call_building {i : Nat} {x : SessionCtx} {command' : Option String} {s : Stage} {c : Client}
    (hpi : upd ph t (.call ctx command st') i = .call x command' s) (hs : s.building = some c) :
    ∃ b, w'.boxes c.sandboxId = some b ∧ b.deleting = false ∧ (s.built = some c → b.gone = false) := by
  rcases upd_eq hpi with ⟨rfl,⟨⟩⟩ | ⟨hit,hpi⟩
  · exact effect_building (call_effect hcm ha hd.answers) hs (hi.building i ctx command st c hp)
  · obtain ⟨b,hb,hdel,hgone⟩ := hi.building i x command' s c hpi hs
    have hf : s.fresh = some c := by cases s <;> first | exact hs | cases hs
    obtain ⟨b',hb',hdel',hgone'⟩ := call_keeps hi hp hcm ha hd hit hpi hf hb
    exact ⟨b',hb',hdel'.trans hdel,fun h => hgone'.trans (hgone h)⟩

-- The key of a call outlives what another call writes there: a refresh keeps the id and
-- moves the deadline on, and whoever removes or replaces the id has found it expired.
theorem call_kept {i : Nat} {x : SessionCtx} {command' : Option String} {s : Stage} {id : String} {d : Nat}
    (hpi : upd ph t (.call ctx command st') i = .call x command' s)
    (hid : (upd g t ((g t).after cfg ctx w o r) i).id = some id)
    (hx : (upd g t ((g t).after cfg ctx w o r) i).expiry = some d) :
    d ≤ w'.now ∨ ∃ e d', w'.redis (ctxKey cfg x) = some e ∧ e.val = .text id ∧ e.deadline = some d' ∧ d ≤ d' := by
  have hnow := act_now ha
  rcases upd_eq hpi with ⟨rfl,⟨⟩⟩ | ⟨hit,hpi⟩
  · rw [upd_same] at hid hx
    rcases call_use hi hp hcm ha hd hid with ⟨hid,he,hr⟩ | ⟨_,he,hr⟩ | ⟨rfl,_,e,d',hr,hv,hdl,he⟩ | ⟨_,_,he,_⟩
    · rw [hnow,hr]
      exact hi.kept i ctx command st id d hp hid (he.symm.trans hx)
    · cases he.symm.trans hx
      exact .inr ⟨_,_,hr,rfl,rfl,Nat.le_refl _⟩
    · cases he.symm.trans hx
      exact .inr ⟨e,d,hr,hv,hdl,Nat.le_refl _⟩
    · cases he.symm.trans hx
  · rw [upd_other _ _ hit] at hid hx
    have hold := hi.kept i x command' s id d hpi hid hx
    have hsame : w'.redis (ctxKey cfg x) = w.redis (ctxKey cfg x) → d ≤ w'.now ∨ ∃ e d',
        w'.redis (ctxKey cfg x) = some e ∧ e.val = .text id ∧ e.deadline = some d' ∧ d ≤ d' := by
      intro hr
      rw [hnow,hr]
      exact hold
    have hdead : w.lookup (ctxKey cfg x) ≠ some (.text id) → d ≤ w'.now := by
      intro hl
      rcases hold with h | ⟨e,d',he,hv,hdl,hle⟩
      · exact hnow ▸ h
      · exact hnow ▸ Nat.le_trans hle (dead_entry he hv hdl hl)
    rcases effect_keys (call_effect hcm ha hd.answers) x with hr | ⟨hacc,hk,hr⟩
    · exact hsame hr
    · have hh := hd.holds hacc
      have hclear : st.clear = true → d ≤ w'.now := by
        intro hc
        refine hdead ?_
        rw [hk]
        exact hi.clear t ctx command st id hp hc hh
      rcases hr with ⟨c,rfl | rfl,ho,hr⟩ | ⟨rfl | rfl,_⟩
      · have hl := hd.live c.sandboxId _ ho (hi.fits t ctx command _ hp).2.2
        by_cases hc : c.sandboxId = id
        · refine .inr ⟨_,_,hr,by rw [hc],rfl,?_⟩
          rcases hold with h | ⟨e,d',he,hv,hdl,hle⟩
          · exact Nat.le_trans h (Nat.le_add_right _ _)
          · obtain ⟨d₀,hd₀,hle₀⟩ := hi.timed x e id he hv
            cases hdl.symm.trans hd₀
            exact Nat.le_trans hle hle₀
        · refine .inl (hdead ?_)
          rw [hk,hl]
          simpa using hc
      · exact .inl (hclear rfl)
      · exact .inl (hclear rfl)
      · refine .inl (hdead (fun hlk => ?_))
        have hmine := hi.own t ctx command _ id hp rfl hh (hk ▸ hlk)
        exact hi.sole t i ctx command _ id hp rfl hh hit hid hmine

theorem call_clear {i : Nat} {x : SessionCtx} {command' : Option String} {s : Stage} {id : String}
    (hpi : upd ph t (.call ctx command st') i = .call x command' s) (hs : s.clear = true) (hh : Holds w' i x) :
    w'.lookup (ctxKey cfg x) ≠ some (.text id) := by
  have hnow := act_now ha
  rcases upd_eq hpi with ⟨rfl,⟨⟩⟩ | ⟨hit,hpi⟩
  · have hold : st.clear = true → w'.redis (ctxKey cfg ctx) = w.redis (ctxKey cfg ctx) →
        w'.lookup (ctxKey cfg ctx) ≠ some (.text id) := by
      intro hc hr
      rw [lookup_congr hr hnow]
      refine hi.clear i ctx command st id hp hc (call_holds hp hcm ha hh ?_)
      rintro - rfl
      cases hc
    cases call_effect hcm ha hd.answers with
    | miss v hl hv =>
      rw [← hl]
      rintro rfl
      cases hv
    | unbound u => simp [World.lookup,World.erase]
    | stale c hst => exact no_stale hi hp hh hst
    | began spec c hn => exact hold rfl rfl
    | built c u hpres => exact hold rfl (by simp)
    | calm st st' o r w' hcalm hsd hc hb => exact hold (hsd.clear hs) (hcalm.keys ctx)
    | failed c e w' st' hl hw => rcases hl with rfl | rfl <;> cases hs
    | rolledBack u st' hl => rcases hl with rfl | rfl <;> cases hs
    | published c u => split at hs <;> cases hs
    | _ => cases hs
  · have hh' := call_holds hp hcm ha hh (fun h => absurd h hit)
    rw [lookup_congr (call_others hcm ha hd hit hh') hnow]
    exact hi.clear i x command' s id hpi hs hh'

theorem call_own {i : Nat} {x : SessionCtx} {command' : Option String} {s : Stage} {id : String}
    (hpi : upd ph t (.call ctx command st') i = .call x command' s) (hs : s.own = true) (hh : Holds w' i x)
    (hl : w'.lookup (ctxKey cfg x) = some (.text id)) :
    (upd g t ((g t).after cfg ctx w o r) i).id = some id := by
  have hnow := act_now ha
  rcases upd_eq hpi with ⟨rfl,⟨⟩⟩ | ⟨hit,hpi⟩
  · rw [upd_same]
    have hold : st.own = true → w'.redis (ctxKey cfg ctx) = w.redis (ctxKey cfg ctx) → (g i).id = some id := by
      intro hc hr
      rw [lookup_congr hr hnow] at hl
      refine hi.own i ctx command st id hp hc (call_holds hp hcm ha hh ?_) hl
      rintro - rfl
      cases hc
    have hwrote : ∀ {c : Client} {ttl : Option Nat}, w' = w.store (ctxKey cfg ctx) (.text c.sandboxId) ttl →
        c.sandboxId = id := by
      rintro c ttl rfl
      obtain ⟨e,he,hv,_⟩ := lookup_some hl
      simp only [World.store,upd_same,Option.some.injEq] at he
      subst he
      cases hv
      rfl
    cases call_effect hcm ha hd.answers with
    | refreshed c u =>
      simp only [Use.after,if_true]
      rw [(hi.fits i ctx command _ hp).1,hwrote rfl]
    | published c u =>
      simp only [Use.after,if_true]
      rw [(hi.fits i ctx command _ hp).1,hwrote rfl]
    | recorded c u =>
      rw [after_record]
      exact hold rfl (store_other _ _ (key_ne (by simp)))
    | calm st st' o r w' hcalm hsd hc hb =>
      rw [after_tame hc hb]
      exact hold (hsd.own hs) (hcalm.keys ctx)
    | failed c e w' st' hl hw => rcases hl with rfl | rfl <;> cases hs
    | rolledBack u st' hl => rcases hl with rfl | rfl <;> cases hs
    | _ => cases hs
  · rw [upd_other _ _ hit]
    have hh' := call_holds hp hcm ha hh (fun h => absurd h hit)
    rw [lookup_congr (call_others hcm ha hd hit hh') hnow] at hl
    exact hi.own i x command' s id hpi hs hh' hl

theorem call_sole {i j : Nat} {x : SessionCtx} {command' : Option String} {s : Stage} {id : String}
    (hpi : upd ph t (.call ctx command st') i = .call x command' s) (hs : s.sole = true) (hh : Holds w' i x)
    (hij : j ≠ i) (hj : (upd g t ((g t).after cfg ctx w o r) j).id = some id) :
    (upd g t ((g t).after cfg ctx w o r) i).id ≠ some id := by
  intro hid
  have hbox : ∀ {k : Nat}, (g k).id = some id → w.boxes id ≠ none := by
    intro k hk hn
    obtain ⟨_,_,_,_,b,_,_,_,hb,_⟩ := hi.used k id hk
    rw [hb] at hn
    cases hn
  by_cases hit : i = t
  · subst hit
    rw [upd_same] at hpi hid
    rw [upd_other _ _ hij] at hj
    cases hpi
    have hold : st.sole = true → (g i).id ≠ some id := by
      intro hsole
      refine hi.sole i j ctx command st id hp hsole (call_holds hp hcm ha hh ?_) hij hj
      rintro - rfl
      cases hsole
    cases call_effect hcm ha hd.answers with
    | published c u => exact hold rfl (by simpa [Use.after] using hid)
    | began spec c hn =>
      simp only [Use.after,Option.some.injEq] at hid
      exact hbox hj (hid ▸ hn)
    | built c u hpres => exact hold rfl hid
    | recorded c u =>
      rw [after_record] at hid
      exact hold rfl hid
    | calm st st' o r w' hcalm hsd hc hb =>
      rw [after_tame hc hb] at hid
      exact hold (hsd.sole hs) hid
    | failed c e w' st' hl hw => rcases hl with rfl | rfl <;> cases hs
    | rolledBack u st' hl => rcases hl with rfl | rfl <;> cases hs
    | _ => cases hs
  · rw [upd_other _ _ hit] at hpi hid
    have hh' := call_holds hp hcm ha hh (fun h => absurd h hit)
    by_cases hjt : j = t
    · subst hjt
      rw [upd_same] at hj
      rcases call_use hi hp hcm ha hd hj with ⟨hj,_⟩ | ⟨hj,_⟩ | ⟨_,ht,e,_,he,hv,_⟩ | ⟨hn,_⟩
      · exact hi.sole i j x command' s id hpi hs hh' hij hj hid
      · exact hi.sole i j x command' s id hpi hs hh' hij hj hid
      · obtain ⟨y,_,_,hpy,hm⟩ := hi.used i id hid
        rw [hpi] at hpy
        cases hpy
        exact hij (holds_unique ht hh' ((hi.isolated.bound ctx e id he hv).unique hm))
      · exact hbox hid hn
    · rw [upd_other _ _ hjt] at hj
      exact hi.sole i j x command' s id hpi hs hh' hij hj hid

theorem call_bound {x : SessionCtx} {e : Entry} {id : String} (he : w'.redis (ctxKey cfg x) = some e)
    (hv : e.val = .text id) : Known (upd g t ((g t).after cfg ctx w o r)) id := by
  have hold : ∀ {e' : Entry}, w.redis (ctxKey cfg x) = some e' → e'.val = .text id →
      Known (upd g t ((g t).after cfg ctx w o r)) id := fun he' hv' =>
    call_known hi hp hcm ha hd (hi.bound x _ id he' hv') (hi.isolated.bound x _ id he' hv').exists
  rcases effect_keys (call_effect hcm ha hd.answers) x with hr | ⟨_,hk,⟨c,hst,ho,hr⟩ | ⟨_,hn⟩⟩
  · exact hold (hr ▸ he) hv
  · rw [he] at hr
    cases hr
    cases hv
    rcases hst with rfl | rfl
    · obtain ⟨e',he',hv',_⟩ := lookup_some (hd.live c.sandboxId _ ho (hi.fits t ctx command _ hp).2.2)
      exact hold (hk ▸ he') hv'
    · cases call_effect hcm ha hd.answers with
      | published c u => exact call_chosen hi hp ha hd rfl (by simp [Use.after,Config.sessions])
      | calm st st' o r w' hcalm hs hc hb => exact hold (hcalm.keys x ▸ he) rfl
  · rw [he] at hn
    cases hn

theorem call_index {id : String} {e : Entry} (he : w'.redis (indexKey cfg id) = some e) :
    w.redis (indexKey cfg id) = some e ∨ Known (upd g t ((g t).after cfg ctx w o r)) id ∧
      ∀ oid s gr dl, e = ⟨.binding oid s gr,dl⟩ → ∃ x, sessionKey cfg oid s gr = ctxKey cfg x ∧
        Made cfg w' (upd ph t (.call ctx command st')) (routingKey x) id := by
  have hce := call_effect hcm ha hd.answers
  rcases effect_index hce he with hx | ⟨c,rfl,rfl,rfl⟩
  · exact .inl hx
  · refine .inr ⟨call_chosen hi hp ha hd rfl ?_,?_⟩
    · have hx := (hi.fits t ctx command _ hp).2
      cases hce with
      | recorded c u =>
        rw [after_record]
        exact hx
      | calm st st' o r w' hcalm hs hc hb =>
        rw [after_tame hc hb]
        exact hx
    · rintro oid s gr dl ⟨⟩
      exact ⟨ctx,rfl,call_made hp hcm ha (hi.isolated.held t ctx command _ c hp rfl).2⟩

theorem call_sound {x : SessionCtx} {id : String} (hl : w'.lookup (ctxKey cfg x) = some (.text id)) :
    ∃ b, w'.boxes id = some b ∧ b.deleting = false ∧ b.gone = false := by
  have hkeep : ∀ {b : Box}, w.boxes id = some b → b.deleting = false → b.gone = false → (∀ c, st = .poll c →
      c.sandboxId ≠ id) → ∃ b, w'.boxes id = some b ∧ b.deleting = false ∧ b.gone = false := by
    intro b hb hdel hgone hne
    obtain ⟨b',hb',hdel',hgone' | ⟨c,hst,hid,_⟩⟩ := effect_boxes (call_effect hcm ha hd.answers) ha hb
    · exact ⟨b',hb',hdel'.trans hdel,hgone'.trans hgone⟩
    · exact absurd hid (hne c hst)
  rcases call_text hi hp hcm ha hd hl with hl | ⟨c,rfl,rfl,_,_⟩
  · obtain ⟨b,hb,hdel,hgone⟩ := hi.sound x id hl
    refine hkeep hb hdel hgone ?_
    rintro c rfl rfl
    obtain ⟨e,he,hv,_⟩ := lookup_some hl
    have hf := hi.fits t ctx command _ hp
    exact hi.bound x e _ he hv t hf.1 hf.2.1
  · obtain ⟨b,hb,hdel,hgone⟩ := hi.building t ctx command _ c hp rfl
    exact hkeep hb hdel (hgone rfl) (by simp)

theorem Guarded.call : Guarded cfg w' (upd g t ((g t).after cfg ctx w o r)) (upd ph t (.call ctx command st')) where
  isolated := hi.isolated.step (call_move hp hcm) ha
  made := hi.made.step (call_move hp hcm) ha
  unset := fun _ _ hid he => call_unset hi hp hcm ha hd hid he
  fits := by
    intro i x command' s hpi
    rcases upd_eq hpi with ⟨rfl,⟨⟩⟩ | ⟨hit,hpi⟩
    · rw [upd_same]
      exact call_fits hi hp hcm ha hd
    · rw [upd_other _ _ hit]
      exact hi.fits i x command' s hpi
  used := fun _ _ hid => call_used hi hp hcm ha hd hid
  timed := fun _ _ _ he hv => call_timed hi hp hcm ha he hv
  building := fun _ _ _ _ _ hpi hs => call_building hi hp hcm ha hd hpi hs
  kept := fun _ _ _ _ _ _ hpi hid hx => call_kept hi hp hcm ha hd hpi hid hx
  clear := fun _ _ _ _ _ hpi hs hh => call_clear hi hp hcm ha hd hpi hs hh
  own := fun _ _ _ _ _ hpi hs hh hl => call_own hi hp hcm ha hd hpi hs hh hl
  sole := fun _ _ _ _ _ _ hpi hs hh hij hj => call_sole hi hp hcm ha hd hpi hs hh hij hj
  bound := fun _ _ _ he hv => call_bound hi hp hcm ha hd he hv
  sound := fun _ _ hl => call_sound hi hp hcm ha hd hl
  hunts := by
    refine hi.hunts.frame (act_grows ha) (stays_upd (call_move hp hcm))
      (fun id hk hb => call_known hi hp hcm ha hd hk hb) (fun id e he => call_index hi hp hcm ha hd he)
      (fun x id hk _ hl => ?_) (fun i gr id key ids gs hpi => hi.hunts.looked i gr id key ids gs (call_waits hpi))
      (fun i gr id ids gs hpi => hi.hunts.doomed i gr id ids gs (call_waits hpi))
    rcases call_text hi hp hcm ha hd hl with h | ⟨c,rfl,rfl,_,_⟩
    · exact h
    · have hf := hi.fits t ctx command _ hp
      exact absurd hf.2.1 (hk t hf.1)

end Step

end Call

end IdentityAwareMcp
