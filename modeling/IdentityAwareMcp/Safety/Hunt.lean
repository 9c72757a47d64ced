import IdentityAwareMcp.Safety.Usage

namespace IdentityAwareMcp

open Coop SandboxManager

section Frames

variable {cfg : Config} {rep : Nat → Nat} {t : Nat} {o : Op} {r : Except Exc o.Ans} {h : Hint} {w w' : World}
variable {ph : Nat → Phase} {ctx : SessionCtx} {command : Option String} {s s' : Stage} {st st' : Reaping} {e : Env}

theorem ctxKey_congr {x y : SessionCtx} (hk : routingKey x = routingKey y) : ctxKey cfg x = ctxKey cfg y := by
  rw [ctxKey_eq,ctxKey_eq,hk]

theorem lookup_entry {k : String} {e : Entry} (he : w.redis k = some e) (hlive : e.live w.now = true) :
    w.lookup k = some e.val := by
  simp [World.lookup,he,hlive]

theorem lookup_congr {k : String} (hr : w'.redis k = w.redis k) (hn : w'.now = w.now) :
    w'.lookup k = w.lookup k := by
  simp only [World.lookup,hr,hn]

theorem dead_entry {k id : String} {e : Entry} {d : Nat} (he : w.redis k = some e) (hv : e.val = .text id)
    (hdl : e.deadline = some d) (hl : w.lookup k ≠ some (.text id)) : d ≤ w.now := by
  by_contra hd
  refine hl ?_
  rw [lookup_entry he (by simpa [Entry.live,hdl] using hd),hv]

theorem call_move (hp : ph t = .call ctx command s) (hcm : CallMove cfg ctx command s o r s') :
    PhaseMove cfg (ph t) o r (.call ctx command s') := hp ▸ .call ctx command s s' o r hcm

theorem call_made (hp : ph t = .call ctx command s) (hcm : CallMove cfg ctx command s o r s')
    (ha : act rep t o w r h = some w') {key id : String} (hm : Made cfg w ph key id) :
    Made cfg w' (upd ph t (.call ctx command s')) key id :=
  hm.mono (act_grows ha) (stays_upd (call_move hp hcm))

theorem call_waits {i : Nat} {s : Reaping} (hpi : upd ph t (.call ctx command s') i = .reap s) : ph i = .reap s := by
  rcases upd_eq hpi with ⟨_,⟨⟩⟩ | ⟨_,hpi⟩
  exact hpi

theorem reap_move (hp : ph t = .reap st) (hrm : ReapMove cfg st o r st') : PhaseMove cfg (ph t) o r (.reap st') :=
  hp ▸ .reap st st' o r hrm

theorem reap_made (hp : ph t = .reap st) (hrm : ReapMove cfg st o r st') (ha : act rep t o w r h = some w')
    {key id : String} (hm : Made cfg w ph key id) : Made cfg w' (upd ph t (.reap st')) key id :=
  hm.mono (act_grows ha) (stays_upd (reap_move hp hrm))

theorem reap_call {i : Nat} {x : SessionCtx} {command : Option String} {s : Stage}
    (hpi : upd ph t (.reap st') i = .call x command s) : ph i = .call x command s := by
  rcases upd_eq hpi with ⟨_,⟨⟩⟩ | ⟨_,hpi⟩
  exact hpi

@[simp] def Reaping.judges : Reaping → Bool
  | .peek _ _ _ _ _ => true
  | .kill _ _ _ _ => true
  | _ => false

theorem next_judges (g : Group) (ids : List String) (gs : List Group) :
    (Reaping.next g ids gs).judges = false := by
  cases ids <;> rfl

theorem dropping_judges {gs : List Group} (hd : Dropping gs st) : st.judges = false := by
  rcases hd with rfl | rfl <;> rfl

theorem reap_step {i : Nat} {s : Reaping} (hpi : upd ph t (.reap st') i = .reap s) :
    i = t ∧ s = st' ∨ i ≠ t ∧ ph i = .reap s := by
  rcases upd_eq hpi with ⟨rfl,⟨⟩⟩ | hold
  · exact .inl ⟨rfl,rfl⟩
  · exact .inr hold

theorem env_lookup (he : env e w = some w') {k : String} {v : Value} (hl : w'.lookup k = some v) :
    w.lookup k = some v := by
  obtain ⟨x,hx,rfl,hlive⟩ := lookup_some hl
  rw [env_redis he] at hx
  refine lookup_entry hx ?_
  have hnow := env_now he
  cases hd : x.deadline with
  | none => simp [Entry.live,hd]
  | some d =>
    simp only [Entry.live,hd,decide_eq_true_eq] at hlive ⊢
    omega

-- Sandboxes disappear only when they are being deleted.
def Env.spares (w : World) : Env → Prop
  | .vanish id => ∀ b, w.boxes id = some b → b.deleting = true
  | _ => True

theorem env_boxes (he : env e w = some w') (hs : e.spares w) {id : String} {b : Box} (hb : w.boxes id = some b)
    (hdel : b.deleting = false) : ∃ b', w'.boxes id = some b' ∧ b'.deleting = false ∧ b'.gone = b.gone := by
  cases env_shifts he with
  | tick ms => exact ⟨b,hb,hdel,rfl⟩
  | imageState i state => exact ⟨b,hb,hdel,rfl⟩
  | @built i x hx =>
    by_cases hi : id = i
    · subst hi
      cases hb.symm.trans hx
      exact ⟨_,upd_same _ _ _,hdel,rfl⟩
    · exact ⟨b,by rw [← hb]; exact upd_other _ _ hi,hdel,rfl⟩
  | @vanish i x hx =>
    have hi : id ≠ i := by
      rintro rfl
      rw [hs b hb] at hdel
      cases hdel
    exact ⟨b,by rw [← hb]; exact upd_other _ _ hi,hdel,rfl⟩

end Frames

section Hunting

variable (cfg : Config)

def Sound (w : World) : Prop := ∀ x id, w.lookup (ctxKey cfg x) = some (.text id) →
  ∃ b, w.boxes id = some b ∧ b.deleting = false ∧ b.gone = false

-- The passes look only at sandboxes that have the property, each under the key of its maker,
-- and kill only what they have not found there.
structure Hunts (P : String → Prop) (w : World) (ph : Nat → Phase) : Prop where
  index : ∀ id oid s gr dl, w.redis (indexKey cfg id) = some ⟨.binding oid s gr,dl⟩ →
    P id ∧ ∃ x, sessionKey cfg oid s gr = ctxKey cfg x ∧ Made cfg w ph (routingKey x) id
  looked : ∀ i gr id key ids gs, ph i = .reap (.peek gr id key ids gs) →
    P id ∧ ∃ x, key = ctxKey cfg x ∧ Made cfg w ph (routingKey x) id
  doomed : ∀ i gr id ids gs, ph i = .reap (.kill gr id ids gs) →
    P id ∧ ∃ x, Made cfg w ph (routingKey x) id ∧ w.lookup (ctxKey cfg x) ≠ some (.text id)

variable {cfg} {rep : Nat → Nat} {t : Nat} {o : Op} {r : Except Exc o.Ans} {h : Hint} {w w' : World}
variable {ph ph' : Nat → Phase} {st st' : Reaping} {e : Env} {P P' : String → Prop}

theorem Made.exists {key id : String} (hm : Made cfg w ph key id) : w.boxes id ≠ none := by
  obtain ⟨b,_,_,_,hb,_⟩ := hm
  simp [hb]

-- No call creates, records or publishes a sandbox that is hunted already.
theorem Hunts.frame (hi : Hunts cfg P w ph) (hg : w.Grows w') (hs : Stays ph ph')
    (hp : ∀ id, P id → w.boxes id ≠ none → P' id)
    (hindex : ∀ id e, w'.redis (indexKey cfg id) = some e → w.redis (indexKey cfg id) = some e ∨
      P' id ∧ ∀ oid s gr dl, e = ⟨.binding oid s gr,dl⟩ → ∃ x, sessionKey cfg oid s gr = ctxKey cfg x ∧
        Made cfg w' ph' (routingKey x) id)
    (htext : ∀ x id, P id → Made cfg w ph (routingKey x) id → w'.lookup (ctxKey cfg x) = some (.text id) →
      w.lookup (ctxKey cfg x) = some (.text id))
    (hlooked : ∀ i gr id key ids gs, ph' i = .reap (.peek gr id key ids gs) →
      P id ∧ ∃ x, key = ctxKey cfg x ∧ Made cfg w ph (routingKey x) id)
    (hdoomed : ∀ i gr id ids gs, ph' i = .reap (.kill gr id ids gs) →
      P id ∧ ∃ x, Made cfg w ph (routingKey x) id ∧ w.lookup (ctxKey cfg x) ≠ some (.text id)) :
    Hunts cfg P' w' ph' where
  index := by
    intro id oid s gr dl he
    rcases hindex id _ he with he | ⟨hk,hm⟩
    · obtain ⟨hk,x,hx,hm⟩ := hi.index id oid s gr dl he
      exact ⟨hp id hk hm.exists,x,hx,hm.mono hg hs⟩
    · exact ⟨hk,hm oid s gr dl rfl⟩
  looked := by
    intro i gr id key ids gs hpi
    obtain ⟨hk,x,hx,hm⟩ := hlooked i gr id key ids gs hpi
    exact ⟨hp id hk hm.exists,x,hx,hm.mono hg hs⟩
  doomed := by
    intro i gr id ids gs hpi
    obtain ⟨hk,x,hm,hl⟩ := hdoomed i gr id ids gs hpi
    exact ⟨hp id hk hm.exists,x,hm.mono hg hs,fun hl' => hl (htext x id hk hm hl')⟩

theorem Hunts.mono (hi : Hunts cfg P w ph) (hp : ∀ id, P id → P' id) : Hunts cfg P' w ph :=
  hi.frame (.of_eq rfl) (fun _ _ _ st hs => ⟨st,hs⟩) (fun id hk _ => hp id hk) (fun _ _ he => .inl he)
    (fun _ _ _ _ hl => hl) hi.looked hi.doomed

theorem hunts_start {now : Nat} (hs : ∀ i st, ph i = .reap st → st.judges = false) :
    Hunts cfg P (World.empty now) ph where
  index := by
    intro id oid s gr dl he
    cases he
  looked := by
    intro i gr id key ids gs hp
    cases hs i _ hp
  doomed := by
    intro i gr id ids gs hp
    cases hs i _ hp

theorem job_judges {j : Job} {st : Reaping} (hp : j.phase cfg = .reap st) : st.judges = false := by
  cases j with
  | reaperRound =>
    simp only [Job.phase,reapPhase] at hp
    split at hp <;> cases hp <;> rfl
  | _ => cases hp

theorem Hunts.env (hi : Hunts cfg P w ph) (he : env e w = some w') : Hunts cfg P w' ph := by
  refine hi.frame (env_grows he) (fun t ctx command st hp => ⟨st,hp⟩) (fun id hk _ => hk) (fun id x hx => ?_)
    (fun x id _ _ hl => env_lookup he hl) hi.looked hi.doomed
  rw [env_redis he] at hx
  exact .inl hx

theorem Sound.env (hi : Sound cfg w) (he : env e w = some w') (hs : e.spares w) : Sound cfg w' := by
  intro x id hl
  obtain ⟨b,hb,hdel,hgone⟩ := hi x id (env_lookup he hl)
  obtain ⟨b',hb',hdel',hgone'⟩ := env_boxes he hs hb hdel
  exact ⟨b',hb',hdel',hgone'.trans hgone⟩

section Pass

variable (hrm : ReapMove cfg st o r st') (ha : act rep t o w r h = some w')
include hrm ha

theorem reap_keys (x : SessionCtx) : w'.redis (ctxKey cfg x) = w.redis (ctxKey cfg x) := by
  refine act_untouched ha (fun ht => ?_)
  rcases touches_ctx (.reap st st' o r hrm) ht with ⟨_,_,_,_,hc,_⟩ | ⟨_,_,_,hc,_⟩ | ⟨_,_,_,hc⟩ <;> cases hc

theorem reap_index {id : String} {e : Entry} (he : w'.redis (indexKey cfg id) = some e) :
    w.redis (indexKey cfg id) = some e := by
  rcases act_entry ha he with he | hw
  · exact he
  · cases hrm with
    | claimed n r st' hs => exact absurd hw.1.symm (key_ne (by simp))
    | _ => cases hw

-- A pass deletes a sandbox only where it has decided to.
theorem reap_boxes {id : String} {b : Box} (hb : w.boxes id = some b) : ∃ b', w'.boxes id = some b' ∧
    b'.gone = b.gone ∧ (b'.deleting = b.deleting ∨ ∃ gr ids gs, st = .kill gr id ids gs) := by
  have hsteady : (∀ c, o.cmd ≠ .beginDelete c) → (∀ c, o.cmd ≠ .pollCreate c) → ∃ b', w'.boxes id = some b' ∧
      b'.gone = b.gone ∧ (b'.deleting = b.deleting ∨ ∃ gr ids gs, st = .kill gr id ids gs) := by
    intro hd hpc
    obtain ⟨b',hb',hdel,hgone⟩ := act_steady ha hd hpc hb
    exact ⟨b',hb',hgone,.inl hdel⟩
  have hdelete : ∀ {v : World} {gr : Group} {i : String} {ids : List String} {gs : List Group},
      v = w ∨ v = w.modifyBox i (fun b => { b with deleting := true }) → ∃ b', v.boxes id = some b' ∧
      b'.gone = b.gone ∧ (b'.deleting = b.deleting ∨ ∃ gr' ids' gs', Reaping.kill gr i ids gs = .kill gr' id ids' gs') := by
    rintro v gr i ids gs (rfl | rfl)
    · exact ⟨b,hb,rfl,.inl rfl⟩
    · rw [modifyBox_boxes,hb]
      split
      · rename_i hid
        subst hid
        exact ⟨_,rfl,rfl,.inr ⟨gr,ids,gs,rfl⟩⟩
      · exact ⟨b,rfl,rfl,.inl rfl⟩
  cases hrm with
  | killed gr i ids gs r he => exact hdelete (act_deletes ha)
  | killFailed gr i ids gs e st' he hs => exact hdelete (act_deletes ha)
  | _ => exact hsteady (by simp) (by simp)

-- A pass comes to look at a key through the index, and to kill through that look.
theorem reap_judges (hj : st'.judges = true) :
    (∃ gr id ids gs oid s gr' dl, st' = .peek gr id (sessionKey cfg oid s gr') ids gs ∧
      w.redis (indexKey cfg id) = some ⟨.binding oid s gr',dl⟩) ∨
    ∃ gr id key ids gs, st = .peek gr id key ids gs ∧ st' = .kill gr id ids gs ∧ w.lookup key ≠ some (.text id) := by
  cases hrm with
  | managed g id ids gs oid s gr' =>
    obtain ⟨hl,_⟩ := act_get ha
    obtain ⟨⟨v,dl⟩,he,rfl,_⟩ := lookup_some hl.symm
    exact .inl ⟨g,id,ids,gs,oid,s,gr',dl,rfl,he⟩
  | orphan g id key ids gs v hv =>
    obtain ⟨hl,_⟩ := act_get ha
    refine .inr ⟨g,id,key,ids,gs,rfl,rfl,fun hlk => hv ?_⟩
    rw [hl,hlk]
    rfl
  | claimed n r st' h => rcases h with rfl | rfl <;> cases hj
  | listFailed g gs e st' hd => rw [dropping_judges hd] at hj; cases hj
  | bindingFailed g i ids gs r st' hd => rw [dropping_judges hd] at hj; cases hj
  | peekFailed g i k ids gs e st' hd => rw [dropping_judges hd] at hj; cases hj
  | killFailed g i ids gs e st' he hd => rw [dropping_judges hd] at hj; cases hj
  | unindexFailed g i ids gs e st' hd => rw [dropping_judges hd] at hj; cases hj
  | listed g gs ids => rw [next_judges] at hj; cases hj
  | unmanaged g i ids gs => rw [next_judges] at hj; cases hj
  | alive g i k ids gs v hv => rw [next_judges] at hj; cases hj
  | unindexed g i ids gs u => rw [next_judges] at hj; cases hj
  | _ => cases hj

theorem Hunts.reap (hi : Hunts cfg P w ph) (hp : ph t = .reap st) : Hunts cfg P w' (upd ph t (.reap st')) := by
  refine hi.frame (act_grows ha) (stays_upd (reap_move hp hrm)) (fun id hk _ => hk)
    (fun id e he => .inl (reap_index hrm ha he)) (fun x id _ _ hl => ?_) (fun i gr id key ids gs hpi => ?_)
    (fun i gr id ids gs hpi => ?_)
  · rwa [lookup_congr (reap_keys hrm ha x) (act_now ha)] at hl
  · rcases reap_step hpi with ⟨_,rfl⟩ | ⟨_,hpi⟩
    · rcases reap_judges hrm ha rfl with ⟨_,_,_,_,oid,s,gr',dl,h,he⟩ | ⟨_,_,_,_,_,_,h,_⟩
      · cases h
        exact hi.index id oid s gr' dl he
      · cases h
    · exact hi.looked i gr id key ids gs hpi
  · rcases reap_step hpi with ⟨_,rfl⟩ | ⟨_,hpi⟩
    · rcases reap_judges hrm ha rfl with ⟨_,_,_,_,_,_,_,_,h,_⟩ | ⟨_,_,key,_,_,rfl,h,hl⟩
      · cases h
      · cases h
        obtain ⟨hk,x,rfl,hm⟩ := hi.looked t gr id key ids gs hp
        exact ⟨hk,x,hm,hl⟩
    · exact hi.doomed i gr id ids gs hpi

theorem Sound.reap (hi : Sound cfg w) (hh : Hunts cfg P w ph) (hiso : Isolated cfg w ph) (hp : ph t = .reap st) :
    Sound cfg w' := by
  intro x id hl
  rw [lookup_congr (reap_keys hrm ha x) (act_now ha)] at hl
  obtain ⟨b,hb,hdel,hgone⟩ := hi x id hl
  obtain ⟨b',hb',hgone',hdel' | ⟨gr,ids,gs,hst⟩⟩ := reap_boxes hrm ha hb
  · exact ⟨b',hb',hdel'.trans hdel,hgone'.trans hgone⟩
  · obtain ⟨_,y,hm,hy⟩ := hh.doomed t gr id ids gs (hst ▸ hp)
    obtain ⟨e,he,hv,_⟩ := lookup_some hl
    have hk : routingKey y = routingKey x := hm.unique (hiso.bound x e id he hv)
    exact absurd (ctxKey_congr hk ▸ hl) hy

end Pass

end Hunting

end IdentityAwareMcp
