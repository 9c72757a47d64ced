import IdentityAwareMcp.Safety.Stay

namespace IdentityAwareMcp

open Coop SandboxManager

section Invariant

variable (cfg : Config) (jobs : Nat → Job)

-- Every call that has chosen the sandbox has seen its routing key bound to it.
def Confirmed (g : Nat → Stay) (id : String) : Prop := ∀ i, (g i).id = some id → (g i).expiry ≠ none

-- No call uses the sandbox, and none can come to use it.
structure Abandoned (s : System) (g : Nat → Stay) (id : String) : Prop where
  made : s.world.boxes id ≠ none
  unused : ∀ i, ¬ InUse cfg s g i id
  unbound : ∀ x, s.world.lookup (ctxKey cfg x) ≠ some (.text id)

@[simp] def Reaping.dooms : Reaping → Option String
  | .kill _ id _ _ => some id
  | .unindex _ id _ _ => some id
  | _ => none

structure Tended (s : System) (g : Nat → Stay) (ph : Nat → Phase) : Prop where
  serves : ∀ i, (jobs i).Serves (ph i)
  isolated : Isolated cfg s.world ph
  suits : ∀ i x command st, ph i = .call x command st → Suits (g i) st
  used : ∀ i id, (g i).id = some id → ∃ x, (jobs i).ctx = some x ∧ Made cfg s.world ph (routingKey x) id
  lone : ∀ i j id, (g i).id = some id → (g i).expiry = none → (g j).id = some id → j = i
  early : ∀ i d, (g i).expiry = some d → d ≤ s.world.now + cfg.sessionTtl * 1000
  timed : ∀ x e id, s.world.redis (ctxKey cfg x) = some e → e.val = .text id →
    ∃ d, e.deadline = some d ∧ d ≤ s.world.now + cfg.sessionTtl * 1000
  covers : ∀ i x id d e, (jobs i).ctx = some x → (g i).id = some id → (g i).expiry = some d →
    s.world.redis (ctxKey cfg x) = some e → e.val = .text id → ∃ d', e.deadline = some d' ∧ d ≤ d'
  bound : ∀ x e id, s.world.redis (ctxKey cfg x) = some e → e.val = .text id → Confirmed g id
  kept : ∀ i x id d, (jobs i).ctx = some x → InUse cfg s g i id → (g i).expiry = some d → Recorded cfg s.world id →
    d ≤ s.world.now ∨ ∃ e, s.world.redis (ctxKey cfg x) = some e ∧ e.val = .text id
  index : ∀ id oid sid gr dl, s.world.redis (indexKey cfg id) = some ⟨.binding oid sid gr,dl⟩ →
    Confirmed g id ∧ ∃ x, sessionKey cfg oid sid gr = ctxKey cfg x ∧ Made cfg s.world ph (routingKey x) id
  looked : ∀ i gr id key ids gs, ph i = .reap (.peek gr id key ids gs) →
    (Recorded cfg s.world id ∨ Abandoned cfg s g id) ∧ Confirmed g id ∧
      ∃ x, key = ctxKey cfg x ∧ Made cfg s.world ph (routingKey x) id
  doomed : ∀ i st id, ph i = .reap st → st.dooms = some id → Abandoned cfg s g id

end Invariant

section Call

variable {cfg : Config} {jobs : Nat → Job} {rep : Nat → Nat} {t : Nat} {o : Op} {r : Except Exc o.Ans} {h : Hint}
variable {s : System} {w' : World} {g : Nat → Stay} {ph : Nat → Phase} {ctx : SessionCtx} {command : Option String}
variable {st st' : Stage} {u : Stay} {q : M Out} {id : String}

theorem suits_inside (hs : Suits u st) (hst : st.inside = true) : u.ret = none := by
  cases st <;> first | cases hst; done | exact hs.2.2 | exact hs.2

theorem suits_client {c : Client} (hs : Suits u st) (hc : st.client = some c) : u.id = some c.sandboxId := by
  cases st <;> first | (cases hc; done) | (cases hc; exact hs.1) | exact (hs c hc).1 | exact hs.1 c hc | (cases hc; exact hs)

theorem suits_writes {c : Client} (hs : Suits u st) (hst : st = .refresh c ∨ st = .publish c) :
    u.id = some c.sandboxId ∧ u.ret = none := by
  rcases hst with rfl | rfl <;> exact ⟨hs.1,hs.2.2⟩

-- A call comes to use a sandbox by finding it bound, or by making it.
theorem deed_uses (hd : Deed cfg ctx s g t w' st u) (hs : Suits (g t) st) (hn : (s.pool t).next ≠ none)
    (hnow : w'.now = s.world.now) {i : Nat} (hu : InUse cfg ⟨w',upd s.pool t q⟩ (upd g t u) i id) :
    InUse cfg s g i id ∨ i = t ∧ (s.world.lookup (ctxKey cfg ctx) = some (.text id) ∨ s.world.boxes id = none) := by
  obtain ⟨hid,hnext,hret⟩ := hu
  by_cases hit : i = t
  · subst hit
    rw [upd_same] at hid hret
    have hsame : (g i).id = some id → (g i).ret = none → InUse cfg s g i id := by
      intro hid hnone
      refine ⟨hid,hn,fun d hd => ?_⟩
      rw [hnone] at hd
      cases hd
    cases hd with
    | looked id' e hkeys he hv hlive =>
      cases hid
      exact .inr ⟨rfl,.inl (by rw [lookup_entry he hlive,hv])⟩
    | stored c u hst hw hno hu =>
      rcases hu with rfl | rfl
      · cases hid
      · exact .inl (hsame hid (suits_writes hs hst).2)
    | erased hw hno => cases hid
    | created id' b hkeys hb =>
      cases hid
      exact .inr ⟨rfl,.inr hb⟩
    | calm u hkeys hu =>
      rcases hu with rfl | rfl | ⟨hin,rfl⟩
      · cases hid
      · exact .inl ⟨hid,hn,fun d hd => hnow ▸ hret d hd⟩
      · exact .inl (hsame hid (suits_inside hs hin))
  · rw [upd_other _ _ hit] at hid hret
    simp only [upd_other _ _ hit] at hnext
    exact .inl ⟨hid,hnext,fun d hd => hnow ▸ hret d hd⟩

-- What a routing key holds it held before, unless this call has just written it.
theorem deed_entry (hd : Deed cfg ctx s g t w' st u) (hs : Suits (g t) st) {x : SessionCtx} {e : Entry}
    (he : w'.redis (ctxKey cfg x) = some e) (hv : e.val = .text id) : s.world.redis (ctxKey cfg x) = some e ∨
      ctxKey cfg x = ctxKey cfg ctx ∧ (g t).id = some id ∧ (g t).ret = none ∧
        e.deadline = some (s.world.now + cfg.sessionTtl * 1000) ∧
        (u = .idle ∨ u = { g t with expiry := some (s.world.now + cfg.sessionTtl * 1000) }) := by
  cases hd with
  | looked id' e' hkeys => exact .inl (hkeys x ▸ he)
  | created id' b hkeys => exact .inl (hkeys x ▸ he)
  | calm u hkeys => exact .inl (hkeys x ▸ he)
  | erased hw =>
    rw [hw] at he
    exact .inl (erase_redis he).2
  | stored c u hst hw hno hu =>
    rw [hw] at he
    rcases store_redis he with ⟨hk,rfl⟩ | he
    · obtain ⟨hid,hret⟩ := suits_writes hs hst
      cases hv
      exact .inr ⟨hk,hid,hret,rfl,hu⟩
    · exact .inl he

theorem Abandoned.call (hi : Abandoned cfg s g id) (hd : Deed cfg ctx s g t w' st u) (hs : Suits (g t) st)
    (hn : (s.pool t).next ≠ none) (ha : act rep t o s.world r h = some w') :
    Abandoned cfg ⟨w',upd s.pool t q⟩ (upd g t u) id where
  made := by
    obtain ⟨b,hb⟩ := Option.ne_none_iff_exists'.mp hi.made
    obtain ⟨b',hb',_⟩ := act_grows ha id b hb
    simp [hb']
  unused := by
    intro i hu
    rcases deed_uses hd hs hn (act_now ha) hu with hu | ⟨_,hl | hb⟩
    · exact hi.unused i hu
    · exact hi.unbound ctx hl
    · exact hi.made hb
  unbound := by
    intro x hl
    obtain ⟨e,he,hv,hlive⟩ := lookup_some hl
    rcases deed_entry hd hs he hv with he | ⟨_,hid,hret,_⟩
    · rw [act_now ha] at hlive
      exact hi.unbound x (by rw [lookup_entry he hlive,hv])
    · refine hi.unused t ⟨hid,hn,fun d hd => ?_⟩
      rw [hret] at hd
      cases hd

-- A call writes the reverse index of the sandbox it has just published.
theorem call_records (hcm : CallMove cfg ctx command st o r st') (ha : act rep t o s.world r h = some w')
    (hctx : (jobs t).ctx = some ctx) (hadm : Careful cfg jobs s g (.task t o r h)) (id : String) :
    w'.redis (indexKey cfg id) = s.world.redis (indexKey cfg id) ∨ (∃ c, st = .record c ∧ c.sandboxId = id) ∧
      w'.redis (indexKey cfg id) = some ⟨.binding (oidText ctx.userOid) ctx.sessionId ctx.group.name,none⟩ ∧
      s.world.lookup (ctxKey cfg ctx) = some (.text id) ∧ ∀ x, w'.redis (ctxKey cfg x) = s.world.redis (ctxKey cfg x) := by
  have hrecord : ∀ {c : Client} {r : Except Exc Unit}, st = .record c → indexKey cfg c.sandboxId = indexKey cfg id →
      act rep t ⟨.set (indexKey cfg c.sandboxId) (.binding (oidText ctx.userOid) ctx.sessionId ctx.group.name) none,false⟩
        s.world r h = some w' →
      Careful cfg jobs s g (.task t ⟨.set (indexKey cfg c.sandboxId)
        (.binding (oidText ctx.userOid) ctx.sessionId ctx.group.name) none,false⟩ r h) →
      w'.redis (indexKey cfg id) = s.world.redis (indexKey cfg id) ∨ (∃ c, st = .record c ∧ c.sandboxId = id) ∧
        w'.redis (indexKey cfg id) = some ⟨.binding (oidText ctx.userOid) ctx.sessionId ctx.group.name,none⟩ ∧
        s.world.lookup (ctxKey cfg ctx) = some (.text id) ∧
        ∀ x, w'.redis (ctxKey cfg x) = s.world.redis (ctxKey cfg x) := by
    intro c r hst hk ha hadm
    cases indexKey_injective cfg hk
    rw [act_set_applied ha]
    cases happ : applied r h with
    | true => exact .inr ⟨⟨c,hst,rfl⟩,upd_same _ _ _,(hadm ctx hctx happ).1 _ rfl,fun x => store_other _ _ (key_ne (by simp))⟩
    | false => exact .inl rfl
  by_cases ht : Touches t s.world o.cmd (indexKey cfg id)
  · cases hcm with
    | recorded c r hx => exact hrecord rfl ht ha hadm
    | recordCut c e st he hl => exact hrecord rfl ht ha hadm
    | prepared c r hp => cases c <;> first | exact ht.elim | exact hp.elim
    | prepFailed c r st hp hl => cases c <;> first | exact ht.elim | exact hp.elim
    | _ =>
      first
        | exact ht.elim
        | exact absurd ht (key_ne (by simp))
        | exact absurd ht.1 (lockKey_ne (head_indexKey cfg id))
  · exact .inl (act_untouched ha ht)

-- Where the sandbox that a call has chosen after a step comes from.
theorem deed_chosen (hd : Deed cfg ctx s g t w' st u) (hid : u.id = some id) :
    (∃ e, s.world.redis (ctxKey cfg ctx) = some e ∧ e.val = .text id ∧ u.expiry = e.deadline) ∨
      s.world.boxes id = none ∨ (g t).id = some id ∧
        (u.expiry = (g t).expiry ∨ u.expiry = some (s.world.now + cfg.sessionTtl * 1000)) := by
  cases hd with
  | looked id' e hkeys he hv hlive =>
    cases hid
    exact .inl ⟨e,he,hv,rfl⟩
  | stored c u hst hw hno hu =>
    rcases hu with rfl | rfl
    · cases hid
    · exact .inr (.inr ⟨hid,.inr rfl⟩)
  | erased hw hno => cases hid
  | created id' b hkeys hb =>
    cases hid
    exact .inr (.inl hb)
  | calm u hkeys hu =>
    rcases hu with rfl | rfl | ⟨_,rfl⟩
    · cases hid
    · exact .inr (.inr ⟨hid,.inl rfl⟩)
    · exact .inr (.inr ⟨hid,.inl rfl⟩)

theorem confirmed_call (hi : Tended cfg jobs s g ph) (hd : Deed cfg ctx s g t w' st u) (hb : s.world.boxes id ≠ none)
    (hs : Confirmed g id) : Confirmed (upd g t u) id := by
  intro i hid
  by_cases hit : i = t
  · subst hit
    rw [upd_same] at hid ⊢
    rcases deed_chosen hd hid with ⟨e,he,hv,hx⟩ | hn | ⟨hid,hx | hx⟩
    · obtain ⟨d,hdl,_⟩ := hi.timed ctx e id he hv
      simp [hx,hdl]
    · exact absurd hn hb
    · rw [hx]
      exact hs i hid
    · simp [hx]
  · rw [upd_other _ _ hit] at hid ⊢
    exact hs i hid

theorem lone_call (hi : Tended cfg jobs s g ph) (hd : Deed cfg ctx s g t w' st u) {i j : Nat}
    (hid : (upd g t u i).id = some id) (hex : (upd g t u i).expiry = none) (hj : (upd g t u j).id = some id) : j = i := by
  have hmade : ∀ {k : Nat}, (g k).id = some id → s.world.boxes id ≠ none := by
    intro k hk
    obtain ⟨_,_,hm⟩ := hi.used k id hk
    exact hm.exists
  by_cases hit : i = t
  · subst hit
    by_cases hji : j = i
    · exact hji
    rw [upd_other _ _ hji] at hj
    rw [upd_same] at hid hex
    rcases deed_chosen hd hid with ⟨e,he,hv,hx⟩ | hn | ⟨hid,hx | hx⟩
    · obtain ⟨d,hdl,_⟩ := hi.timed ctx e id he hv
      rw [hx,hdl] at hex
      cases hex
    · exact absurd hn (hmade hj)
    · exact hi.lone i j id hid (hx ▸ hex) hj
    · rw [hx] at hex
      cases hex
  · rw [upd_other _ _ hit] at hid hex
    by_cases hjt : j = t
    · subst hjt
      rw [upd_same] at hj
      rcases deed_chosen hd hj with ⟨e,he,hv,_⟩ | hn | ⟨hj,_⟩
      · exact absurd hex (hi.bound ctx e id he hv i hid)
      · exact absurd hn (hmade hid)
      · exact hi.lone i j id hid hex hj
    · rw [upd_other _ _ hjt] at hj
      exact hi.lone i j id hid hex hj

-- A routing key is bound to a sandbox that everyone who has chosen it has seen bound.
theorem bound_call (hi : Tended cfg jobs s g ph) (hd : Deed cfg ctx s g t w' st u) (hs : Suits (g t) st) {x : SessionCtx}
    {e : Entry} (he : w'.redis (ctxKey cfg x) = some e) (hv : e.val = .text id) : Confirmed (upd g t u) id := by
  rcases deed_entry hd hs he hv with he | ⟨_,hid,_,_,hu⟩
  · exact confirmed_call hi hd (hi.isolated.bound x e id he hv).exists (hi.bound x e id he hv)
  · intro j hj
    by_cases hjt : j = t
    · subst hjt
      rw [upd_same] at hj ⊢
      rcases hu with rfl | rfl
      · cases hj
      · simp
    · rw [upd_other _ _ hjt] at hj ⊢
      exact fun hx => hjt (hi.lone j t id hj hx hid).symm

-- The routing key of a recorded sandbox that another call uses is left alone, or has expired.
theorem kept_other (hi : Tended cfg jobs s g ph) (hd : Deed cfg ctx s g t w' st u) {i : Nat} (hit : i ≠ t) {x : SessionCtx}
    {d : Nat} (hx : (jobs i).ctx = some x) (hu : InUse cfg s g i id) (hex : (g i).expiry = some d)
    (hrec : Recorded cfg s.world id) :
    d ≤ s.world.now ∨ ∃ e, w'.redis (ctxKey cfg x) = some e ∧ e.val = .text id := by
  have hold := hi.kept i x id d hx hu hex hrec
  have hmoved : ∀ v, v ≠ some (.text id) → ¬ Strands cfg s g t (ctxKey cfg x) v → d ≤ s.world.now := by
    intro v hv hno
    rcases hold with hle | ⟨e,he,hval⟩
    · exact hle
    · obtain ⟨d',hdl,hle⟩ := hi.covers i x id d e hx hu.1 hex he hval
      exact Nat.le_trans hle (dead_entry he hval hdl (fun hl => hno ⟨i,id,hit,hu,hrec,hl,hv⟩))
  cases hd with
  | looked id' e hkeys =>
    rw [hkeys]
    exact hold
  | stored c u hst hw hno =>
    rw [hw]
    by_cases hk : ctxKey cfg x = ctxKey cfg ctx
    · by_cases hc : c.sandboxId = id
      · subst hc
        exact .inr ⟨_,by rw [hk]; exact upd_same _ _ _,rfl⟩
      · refine .inl (hmoved _ ?_ (hk ▸ hno))
        simpa using hc
    · rw [store_other _ _ hk]
      exact hold
  | erased hw hno =>
    rw [hw]
    by_cases hk : ctxKey cfg x = ctxKey cfg ctx
    · exact .inl (hmoved none (by simp) (hk ▸ hno))
    · rw [erase_other hk]
      exact hold
  | created id' b hkeys =>
    rw [hkeys]
    exact hold
  | calm u hkeys =>
    rw [hkeys]
    exact hold

-- The call itself leaves the key bound to the sandbox it goes on using.
theorem kept_own (hi : Tended cfg jobs s g ph) (hd : Deed cfg ctx s g t w' st u) (hs : Suits (g t) st)
    (hctx : (jobs t).ctx = some ctx) (hn : (s.pool t).next ≠ none) {d : Nat} (hid : u.id = some id)
    (hret : ∀ d, u.ret = some d → s.world.now < d + cfg.sessionTtl * 1000) (hex : u.expiry = some d)
    (hrec : Recorded cfg s.world id) :
    d ≤ s.world.now ∨ ∃ e, w'.redis (ctxKey cfg ctx) = some e ∧ e.val = .text id := by
  cases hd with
  | looked id' e hkeys he hv =>
    cases hid
    exact .inr ⟨e,by rw [hkeys,he],hv⟩
  | stored c u hst hw hno hu =>
    rcases hu with rfl | rfl
    · cases hid
    · cases (suits_writes hs hst).1.symm.trans hid
      rw [hw]
      exact .inr ⟨_,upd_same _ _ _,rfl⟩
  | erased hw hno => cases hid
  | created id' b hkeys hb => cases hex
  | calm u hkeys hu =>
    rw [hkeys]
    rcases hu with rfl | rfl | ⟨hin,rfl⟩
    · cases hex
    · exact hi.kept t ctx id d hctx ⟨hid,hn,hret⟩ hex hrec
    · refine hi.kept t ctx id d hctx ⟨hid,hn,fun d hd => ?_⟩ hex hrec
      rw [suits_inside hs hin] at hd
      cases hd

-- The routing key of a recorded sandbox in use goes on holding it until it expires.
theorem kept_call (hi : Tended cfg jobs s g ph) (hd : Deed cfg ctx s g t w' st u) (hs : Suits (g t) st)
    (hctx : (jobs t).ctx = some ctx) (hn : (s.pool t).next ≠ none) (hnow : w'.now = s.world.now)
    {i : Nat} {x : SessionCtx} {d : Nat} (hx : (jobs i).ctx = some x)
    (hu : InUse cfg ⟨w',upd s.pool t q⟩ (upd g t u) i id) (hex : (upd g t u i).expiry = some d)
    (hrec : Recorded cfg s.world id) :
    d ≤ w'.now ∨ ∃ e, w'.redis (ctxKey cfg x) = some e ∧ e.val = .text id := by
  rw [hnow]
  by_cases hit : i = t
  · subst hit
    cases hctx.symm.trans hx
    obtain ⟨hid,_,hret⟩ := hu
    rw [upd_same] at hid hret hex
    exact kept_own hi hd hs hctx hn hid (fun d hd => hnow ▸ hret d hd) hex hrec
  · rw [upd_other _ _ hit] at hex
    rcases deed_uses hd hs hn hnow hu with hu | ⟨h,_⟩
    · exact kept_other hi hd hit hx hu hex hrec
    · exact absurd h hit

theorem used_call (hi : Tended cfg jobs s g ph) (hd : Deed cfg ctx s g t w' st u) (hp : ph t = .call ctx command st)
    (hcm : CallMove cfg ctx command st o r st') (ha : act rep t o s.world r h = some w') {i : Nat}
    (hid : (upd g t u i).id = some id) :
    ∃ x, (jobs i).ctx = some x ∧ Made cfg w' (upd ph t (.call ctx command st')) (routingKey x) id := by
  have hctx : (jobs t).ctx = some ctx := by
    have := hi.serves t
    rwa [hp] at this
  have hold : (g i).id = some id →
      ∃ x, (jobs i).ctx = some x ∧ Made cfg w' (upd ph t (.call ctx command st')) (routingKey x) id := by
    intro hid
    obtain ⟨x,hx,hm⟩ := hi.used i id hid
    exact ⟨x,hx,call_made hp hcm ha hm⟩
  by_cases hit : i = t
  · subst hit
    rw [upd_same] at hid
    cases hd with
    | looked id' e hkeys he hv hlive =>
      cases hid
      exact ⟨ctx,hctx,call_made hp hcm ha (hi.isolated.bound ctx e id he hv)⟩
    | stored c u hst hw hno hu =>
      rcases hu with rfl | rfl
      · cases hid
      · exact hold hid
    | erased hw hno => cases hid
    | created id' b hkeys hn hb hcr hg hsp =>
      cases hid
      exact ⟨ctx,hctx,b,ctx,command,st',hb,by rw [hcr,upd_same],rfl,hg,hsp⟩
    | calm u hkeys hu =>
      rcases hu with rfl | rfl | ⟨_,rfl⟩
      · cases hid
      · exact hold hid
      · exact hold hid
  · rw [upd_other _ _ hit] at hid
    exact hold hid

theorem covers_call (hi : Tended cfg jobs s g ph) (hd : Deed cfg ctx s g t w' st u) (hs : Suits (g t) st)
    (hctx : (jobs t).ctx = some ctx) {i : Nat} {x : SessionCtx} {d : Nat} {e : Entry} (hx : (jobs i).ctx = some x)
    (hid : (upd g t u i).id = some id) (hex : (upd g t u i).expiry = some d)
    (he : w'.redis (ctxKey cfg x) = some e) (hv : e.val = .text id) : ∃ d', e.deadline = some d' ∧ d ≤ d' := by
  by_cases hit : i = t
  · subst hit
    cases hctx.symm.trans hx
    rw [upd_same] at hid hex
    cases hd with
    | looked id' e' hkeys he' hv' hlive =>
      rw [hkeys,he'] at he
      cases he
      exact ⟨d,hex,Nat.le_refl d⟩
    | stored c u hst hw hno hu =>
      rw [hw,store_same] at he
      cases he
      rcases hu with rfl | rfl
      · cases hid
      · exact ⟨d,hex,Nat.le_refl d⟩
    | erased hw hno => cases hid
    | created id' b hkeys => cases hex
    | calm u hkeys hu =>
      rw [hkeys] at he
      rcases hu with rfl | rfl | ⟨_,rfl⟩
      · cases hid
      · exact hi.covers i ctx id d e hctx hid hex he hv
      · exact hi.covers i ctx id d e hctx hid hex he hv
  · rw [upd_other _ _ hit] at hid hex
    rcases deed_entry hd hs he hv with he | ⟨_,_,_,hdl,_⟩
    · exact hi.covers i x id d e hx hid hex he hv
    · exact ⟨_,hdl,hi.early i d hex⟩

theorem early_call (hi : Tended cfg jobs s g ph) (hd : Deed cfg ctx s g t w' st u) {i d : Nat}
    (hex : (upd g t u i).expiry = some d) : d ≤ s.world.now + cfg.sessionTtl * 1000 := by
  by_cases hit : i = t
  · subst hit
    rw [upd_same] at hex
    cases hd with
    | looked id e hkeys he hv hlive =>
      obtain ⟨d',hdl,hle⟩ := hi.timed ctx e id he hv
      cases hdl.symm.trans hex
      exact hle
    | stored c u hst hw hno hu =>
      rcases hu with rfl | rfl
      · cases hex
      · cases hex
        exact Nat.le_refl _
    | erased hw hno => cases hex
    | created id b hkeys => cases hex
    | calm u hkeys hu =>
      rcases hu with rfl | rfl | ⟨_,rfl⟩
      · cases hex
      · exact hi.early i d hex
      · exact hi.early i d hex
  · rw [upd_other _ _ hit] at hex
    exact hi.early i d hex

theorem Tended.call (hi : Tended cfg jobs s g ph) (hp : ph t = .call ctx command st) (hn : (s.pool t).next ≠ none)
    (hcm : CallMove cfg ctx command st o r st') (ha : act rep t o s.world r h = some w')
    (hadm : Careful cfg jobs s g (.task t o r h)) :
    Tended cfg jobs ⟨w',upd s.pool t q⟩ (upd g t ((g t).after cfg ctx s.world o r h)) (upd ph t (.call ctx command st')) := by
  have hctx : (jobs t).ctx = some ctx := by
    have := hi.serves t
    rwa [hp] at this
  have hs := hi.suits t ctx command st hp
  have hd := call_deed hcm ha hctx hadm
  have hs' := suits_step (w := s.world) (h := h) hcm hs
  have hnow := act_now ha
  generalize (g t).after cfg ctx s.world o r h = u at hd hs' ⊢
  have hrecords := call_records hcm ha hctx hadm
  have hconfirmed : ∀ {id key : String}, Made cfg s.world ph key id → Confirmed g id → Confirmed (upd g t u) id :=
    fun hm hc => confirmed_call hi hd hm.exists hc
  constructor
  case serves => exact forall_upd (serves_move (call_move hp hcm) (hi.serves t)) hi.serves
  case isolated => exact hi.isolated.step (call_move hp hcm) ha
  case suits =>
    intro i x command' st₀ hpi
    rcases upd_eq hpi with ⟨rfl,⟨⟩⟩ | ⟨hit,hpi⟩
    · rw [upd_same]
      exact hs'
    · rw [upd_other _ _ hit]
      exact hi.suits i x command' st₀ hpi
  case used => exact fun i id hid => used_call hi hd hp hcm ha hid
  case lone => exact fun i j id hid hx hj => lone_call hi hd hid hx hj
  case early =>
    intro i d hx
    simp only [hnow]
    exact early_call hi hd hx
  case timed =>
    intro x e id he hv
    simp only [hnow]
    rcases deed_entry hd hs he hv with he | ⟨_,_,_,hdl,_⟩
    · exact hi.timed x e id he hv
    · exact ⟨_,hdl,Nat.le_refl _⟩
  case covers => exact fun i x id d e hx hid hex he hv => covers_call hi hd hs hctx hx hid hex he hv
  case bound => exact fun x e id he hv => bound_call hi hd hs he hv
  case kept =>
    intro i x id d hx hu hex hrec
    rcases hrecords id with hsame | ⟨_,_,hl,hkeys⟩
    · exact kept_call hi hd hs hctx hn hnow hx hu hex (fun h0 => hrec (hsame.trans h0))
    · obtain ⟨e,he,hv,_⟩ := lookup_some hl
      obtain ⟨y,hy,hm⟩ := used_call hi hd hp hcm ha hu.1
      cases hx.symm.trans hy
      have hk := hm.unique (call_made hp hcm ha (hi.isolated.bound ctx e id he hv))
      exact .inr ⟨e,by rw [ctxKey_congr hk,hkeys]; exact he,hv⟩
  case index =>
    intro id oid sid gr dl he
    rcases hrecords id with hsame | ⟨⟨c,rfl,rfl⟩,hnew,hl,_⟩
    · obtain ⟨hc,x,hx,hm⟩ := hi.index id oid sid gr dl (hsame ▸ he)
      exact ⟨hconfirmed hm hc,x,hx,call_made hp hcm ha hm⟩
    · cases hnew.symm.trans he
      obtain ⟨e,he,hv,_⟩ := lookup_some hl
      have hm := hi.isolated.bound ctx e _ he hv
      exact ⟨hconfirmed hm (hi.bound ctx e _ he hv),ctx,rfl,call_made hp hcm ha hm⟩
  case looked =>
    intro i gr id key ids gs hpi
    obtain ⟨hr,hc,x,hx,hm⟩ := hi.looked i gr id key ids gs (call_waits hpi)
    refine ⟨?_,hconfirmed hm hc,x,hx,call_made hp hcm ha hm⟩
    rcases hr with hr | hr
    · refine .inl ?_
      rcases hrecords id with hsame | ⟨_,hnew,_⟩
      · exact fun h0 => hr (hsame.symm.trans h0)
      · exact fun h0 => by cases hnew.symm.trans h0
    · exact .inr (hr.call hd hs hn ha)
  case doomed =>
    intro i st₀ id hpi hdoom
    exact (hi.doomed i st₀ id (call_waits hpi) hdoom).call hd hs hn ha

end Call

end IdentityAwareMcp
