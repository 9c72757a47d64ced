import IdentityAwareMcp.Safety.Bootstrap

namespace IdentityAwareMcp

open Coop SandboxManager

section Invariant

variable {cfg : Config} {rep : Nat → Nat} {t : Nat} {o : Op} {r : Except Exc o.Ans} {h : Hint} {w w' : World}
variable {ph : Nat → Phase} {p p' : Phase} {ctx : SessionCtx} {command : Option String} {st st' : Stage}
variable {id : String} {jobs : Nat → Job}

-- A lasting entry of the reverse index, by which a reaper pass finds the sandbox.
def Indexed (cfg : Config) (w : World) (id : String) : Prop :=
  ∃ oid s g, w.redis (indexKey cfg id) = some ⟨.binding oid s g,none⟩

-- On its way out, or left to the platform's own clean-up.
def Settled (w : World) (id : String) : Prop :=
  ∃ b, w.boxes id = some b ∧ (b.gone = true ∨ b.deleting = true ∨ b.policy = true)

def Covered (cfg : Config) (w : World) (id : String) : Prop := Settled w id ∨ Indexed cfg w id

def InGroup (cfg : Config) (w : World) (g : Group) (id : String) : Prop :=
  ∃ b, w.boxes id = some b ∧ b.groupName = cfg.groupNames g

theorem Settled.mono (hs : Settled w id) (hg : w.Grows w') : Settled w' id := by
  obtain ⟨b,hb,hs⟩ := hs
  obtain ⟨b',hb',hbb⟩ := hg id b hb
  refine ⟨b',hb',?_⟩
  rcases hs with h | h | h
  · exact .inl (hbb.gone h)
  · exact .inr (.inl (hbb.deleting h))
  · exact .inr (.inr (hbb.policy h))

theorem InGroup.mono {g : Group} (hi : InGroup cfg w g id) (hg : w.Grows w') : InGroup cfg w' g id := by
  obtain ⟨b,hb,hn⟩ := hi
  obtain ⟨b',hb',hbb⟩ := hg id b hb
  exact ⟨b',hb',hbb.groupName.trans hn⟩

theorem act_setLifecyclePolicy {c : Client} {n : Nat} {timed : Bool} {u : Unit}
    (ha : act rep t ⟨.setLifecyclePolicy c n,timed⟩ w (.ok u) h = some w') :
    w' = w.modifyBox c.sandboxId (fun b => { b with policy := true }) := by
  cases ha
  rfl

theorem act_set {k : String} {v : Value} {ex : Option Nat} {timed : Bool} {u : Unit}
    (ha : act rep t ⟨.set k v ex,timed⟩ w (.ok u) h = some w') : w' = w.store k v ex := by
  cases ha
  rfl

theorem act_set_failed {k : String} {v : Value} {ex : Option Nat} {timed : Bool} {e : Exc}
    (ha : act rep t ⟨.set k v ex,timed⟩ w (.error e) h = some w') : e = .redis ∨ e.isException = false := by
  cases e <;> first | exact .inl rfl | exact .inr rfl | simp [act,redisFails,Op.interrupts] at ha

theorem present_box {c : Client} (hp : w.present c = true) :
    ∃ b, w.boxes c.sandboxId = some b ∧ b.groupName = c.groupName ∧ b.gone = false := by
  simp only [World.present] at hp
  split at hp
  · rename_i b hb
    simp only [Bool.and_eq_true,decide_eq_true_eq,Bool.not_eq_eq_eq_not,Bool.not_true] at hp
    exact ⟨b,hb,hp.1,hp.2⟩
  · cases hp

theorem absent_box {c : Client} {b : Box} (hp : w.present c = false) (hb : w.boxes c.sandboxId = some b)
    (hg : b.groupName = c.groupName) : b.gone = true := by
  simpa [World.present,hb,hg] using hp

theorem act_list {g : String} {timed : Bool} {ids : List String}
    (ha : act rep t ⟨.listSandboxes g,timed⟩ w (.ok ids) h = some w') : ids = w.listed g ∧ w' = w := by
  simp only [act] at ha
  split at ha
  · rename_i hl
    cases ha
    exact ⟨hl,rfl⟩
  · cases ha

theorem listed_inGroup {g : Group} (hid : id ∈ w.listed (cfg.groupNames g)) : InGroup cfg w g id := by
  simp only [World.listed,List.mem_filter] at hid
  obtain ⟨b,hb,hn,_⟩ := present_box hid.2
  exact ⟨b,hb,hn⟩

-- A delete request settles the sandbox, unless it was refused or cut off.
theorem act_beginDelete {g : Group} {timed : Bool} {r : Except Exc Unit}
    (ha : act rep t ⟨.beginDelete ⟨cfg.groupNames g,id⟩,timed⟩ w r h = some w') (hi : InGroup cfg w g id)
    (hr : ∀ e, r = .error e → e = .notFound) : Settled w' id := by
  obtain ⟨b,hb,hn⟩ := hi
  cases r with
  | ok u =>
    simp only [act] at ha
    split at ha
    · cases ha
      refine ⟨{ b with deleting := true },?_,.inr (.inl rfl)⟩
      rw [modifyBox_boxes,if_pos rfl,hb]
      rfl
    · cases ha
  | error e =>
    cases hr e rfl
    simp only [act,if_true] at ha
    split at ha
    · cases ha
    · rename_i hp
      cases ha
      exact ⟨b,hb,.inl (absent_box (by simpa using hp) hb hn)⟩

-- The sandbox whose index entry the task is about to drop.
@[simp] def Phase.forgets : Phase → Option String
  | .ending _ _ (.unbind _ id _) => some id
  | .ending _ _ (.unindex _ id _) => some id
  | .reap (.unindex _ id _ _) => some id
  | _ => none

@[simp] def Reaping.targets : Reaping → List (Group × String)
  | .binding g id ids _ => (id :: ids).map (g,·)
  | .peek g id _ ids _ => (id :: ids).map (g,·)
  | .kill g id ids _ => (id :: ids).map (g,·)
  | .unindex g _ ids _ => ids.map (g,·)
  | _ => []

@[simp] def Phase.targets : Phase → List (Group × String)
  | .ending _ _ (.delete g id _) => [(g,id)]
  | .reap st => st.targets
  | _ => []

@[simp] def Stage.unrecorded (cfg : Config) : Stage → Option Client
  | .poll c => some c
  | .policy c => some c
  | .publish c => if cfg.index then some c else none
  | .record c => some c
  | _ => none

theorem next_targets (g : Group) (ids : List String) (gs : List Group) :
    (Reaping.next g ids gs).targets = ids.map (g,·) := by cases ids <;> rfl

theorem touches_index (hm : PhaseMove cfg p o r p') {oid s : Option String} {g : String}
    (hx : w.redis (indexKey cfg id) = some ⟨.binding oid s g,none⟩)
    (ht : Touches t w o.cmd (indexKey cfg id)) :
    (∃ oid s g, o.cmd = .set (indexKey cfg id) (.binding oid s g) none) ∨ p.forgets = some id := by
  have hl : w.lookup (indexKey cfg id) = some (.binding oid s g) := by
    simp [World.lookup,hx,Entry.live]
  cases hm with
  | call ctx command st st' o r hc =>
    cases hc with
    | recorded c r hr => exact .inl ⟨_,_,_,by rw [indexKey_injective cfg ht]⟩
    | recordCut c e st he hl => exact .inl ⟨_,_,_,by rw [indexKey_injective cfg ht]⟩
    | prepared c r hp => cases c <;> first | exact ht.elim | exact hp.elim
    | prepFailed c r st hp hl => cases c <;> first | exact ht.elim | exact hp.elim
    | _ =>
      first
        | exact ht.elim
        | exact absurd ht (key_ne (by simp))
        | (have hn := ht.2; rw [hl] at hn; cases hn)
  | ending oid s st st' o r he =>
    cases he with
    | unindexed g id gs r st hs => exact .inr (by rw [← indexKey_injective cfg ht]; rfl)
    | _ =>
      first
        | exact ht.elim
        | exact absurd ht (key_ne (by simp))
  | reap st st' o r hr =>
    cases hr with
    | unindexed g id ids gs u => exact .inr (by rw [← indexKey_injective cfg ht]; rfl)
    | unindexFailed g id ids gs e st hs => exact .inr (by rw [← indexKey_injective cfg ht]; rfl)
    | _ =>
      first
        | exact ht.elim
        | exact absurd ht.1 (key_ne (by simp))
  | resolveFailed v oid st e hv =>
    cases st with
    | look => exact ht.elim
    | clock => exact ht.elim
    | slide s => exact absurd ht (key_ne (by simp))
    | mint s => exact absurd ht (key_ne (by simp))
  | _ =>
    first
      | exact ht.elim
      | exact absurd ht (key_ne (by simp))

theorem set_stays {k : String} {v : Value} (ha : act rep t o w r h = some w') (ho : o.cmd = .set k v none) :
    w'.redis k = w.redis k ∨ w'.redis k = some ⟨v,none⟩ := by
  obtain ⟨c,timed⟩ := o
  cases ho
  cases r with
  | ok u =>
    rw [act_set ha]
    exact .inr (by simp [World.store])
  | error e =>
    simp only [act] at ha
    split at ha
    · split at ha <;> cases ha
      · exact .inr (by simp [World.store])
      · exact .inl rfl
    · cases ha

theorem indexed_step (hm : PhaseMove cfg p o r p') (ha : act rep t o w r h = some w') (hx : Indexed cfg w id)
    (hf : p.forgets ≠ some id) : Indexed cfg w' id := by
  obtain ⟨oid,s,g,hx⟩ := hx
  by_cases ht : Touches t w o.cmd (indexKey cfg id)
  · rcases touches_index hm hx ht with ⟨oid',s',g',ho⟩ | hforget
    · rcases set_stays ha ho with hs | hs
      · exact ⟨oid,s,g,hs.trans hx⟩
      · exact ⟨oid',s',g',hs⟩
    · exact absurd hforget hf
  · exact ⟨oid,s,g,(act_untouched ha ht).trans hx⟩

-- The platform answers; where there is no reverse index, the policy is set.
def Faultless (cfg : Config) (c : Cmd) (e : Exc) : Prop :=
  match c with
  | .beginCreate _ _ => e.isException = false
  | .pollCreate _ => e.isException = false
  | .beginDelete _ => e = .notFound ∨ e.isException = false
  | .setLifecyclePolicy _ _ => cfg.index = true ∨ e.isException = false
  | _ => True

-- No policy, and no deletion under way.
def Loose (w : World) (id : String) : Prop :=
  ∃ b, w.boxes id = some b ∧ b.gone = false ∧ b.deleting = false ∧ b.policy = false

-- The awaits at which a call loses a sandbox if it is cut off there: begin_create_sandbox once the
-- platform has begun, the poll unless the creation itself fails, set_lifecycle_policy before it takes
-- effect; after a policy that failed the write of the routing key, and that of the index entry
-- before it takes effect; and begin_delete_sandbox of an end_session before it takes effect.
def Leaky (cfg : Config) (w : World) (t : Nat) (ending : Bool) (c : Cmd) (h : Hint) : Prop :=
  match c with
  | .beginCreate _ _ => h.reached = true
  | .pollCreate c => Loose w c.sandboxId ∧ h.reached = false
  | .setLifecyclePolicy c _ => Loose w c.sandboxId ∧ h.reached = false
  | .set _ (.text id) _ => Loose w id ∧ MadeBy w t id
  | .set k (.binding _ _ _) _ => ∃ id, k = indexKey cfg id ∧ Loose w id ∧ h.reached = false
  | .beginDelete c => ending = true ∧ Loose w c.sandboxId ∧ h.reached = false
  | _ => False

theorem loose_or_settled (hb : ∃ b, w.boxes id = some b) : Loose w id ∨ Settled w id := by
  obtain ⟨b,hb⟩ := hb
  cases hg : b.gone with
  | true => exact .inr ⟨b,hb,.inl hg⟩
  | false =>
    cases hd : b.deleting with
    | true => exact .inr ⟨b,hb,.inr (.inl hd)⟩
    | false =>
      cases hp : b.policy with
      | true => exact .inr ⟨b,hb,.inr (.inr hp)⟩
      | false => exact .inl ⟨b,hb,hg,hd,hp⟩

theorem MadeBy.box (hm : MadeBy w t id) : ∃ b, w.boxes id = some b := hm.imp (fun _ h => h.1)

theorem modify_settled {f : Box → Box} (hb : ∃ b, w.boxes id = some b)
    (hf : ∀ b, (f b).gone = true ∨ (f b).deleting = true ∨ (f b).policy = true) : Settled (w.modifyBox id f) id := by
  obtain ⟨b,hb⟩ := hb
  refine ⟨f b,?_,hf b⟩
  rw [modifyBox_boxes,if_pos rfl,hb]
  rfl

theorem act_pollCreate_reached {c : Client} {timed : Bool} {e : Exc} (hr : h.reached = true)
    (ha : act rep t ⟨.pollCreate c,timed⟩ w (.error e) h = some w') :
    w' = w.modifyBox c.sandboxId (fun b => { b with gone := true }) := by
  simp only [act,hr,if_true] at ha
  split at ha <;> cases ha
  rfl

theorem act_setLifecyclePolicy_reached {c : Client} {n : Nat} {timed : Bool} {e : Exc} (hr : h.reached = true)
    (ha : act rep t ⟨.setLifecyclePolicy c n,timed⟩ w (.error e) h = some w') :
    w' = w.modifyBox c.sandboxId (fun b => { b with policy := true }) := by
  simp only [act,hr,if_true] at ha
  split at ha <;> cases ha
  rfl

theorem act_set_reached {k : String} {v : Value} {ex : Option Nat} {timed : Bool} {e : Exc} (hr : h.reached = true)
    (ha : act rep t ⟨.set k v ex,timed⟩ w (.error e) h = some w') : w' = w.store k v ex := by
  simp only [act,hr,if_true] at ha
  split at ha <;> cases ha
  rfl

-- A cut that is harmless for a sandbox finds it settled, or has taken effect.
theorem harmless_cut (hb : ∃ b, w.boxes id = some b) (hn : ¬ (Loose w id ∧ h.reached = false)) (hg : w.Grows w') :
    Settled w' id ∨ h.reached = true := by
  rcases loose_or_settled hb with hl | hs
  · exact .inr (by simpa using fun hr => hn ⟨hl,hr⟩)
  · exact .inl (hs.mono hg)

theorem act_beginDelete_cut {g : Group} {timed : Bool} {e : Exc}
    (ha : act rep t ⟨.beginDelete ⟨cfg.groupNames g,id⟩,timed⟩ w (.error e) h = some w') (hi : InGroup cfg w g id)
    (he : e.isException = false) (hn : ¬ (Loose w id ∧ h.reached = false)) : Settled w' id := by
  obtain ⟨b,hb,hname⟩ := hi
  by_cases hgone : b.gone = true
  · have hs : Settled w id := ⟨b,hb,.inl hgone⟩
    exact hs.mono (act_grows ha)
  · rcases harmless_cut ⟨b,hb⟩ hn (act_grows ha) with hs | hr
    · exact hs
    · have hne : e ≠ .notFound := by
        rintro rfl
        cases he
      have hp : w.present ⟨cfg.groupNames g,id⟩ = true := by simp [World.present,hb,hname,hgone]
      simp only [act,hne,if_false,hr,hp,Bool.and_self,if_true] at ha
      split at ha <;> cases ha
      exact modify_settled ⟨b,hb⟩ (fun _ => .inr (.inl rfl))

theorem create_reached {e : Exc} {g : String} {spec : Spec} {b : Box} {timed : Bool}
    (ha : act rep t ⟨.beginCreate g spec,timed⟩ w (.error e) h = some w') (hn : w.boxes id = none)
    (hb : w'.boxes id = some b) : h.reached = true := by
  by_contra hr
  simp only [act,hr,if_false] at ha
  split at ha
  · cases ha
    rw [hn] at hb
    cases hb
  · cases ha

-- Each of these cuts does leave a sandbox without a policy behind, and nothing under way to delete it.
theorem leaky_loses {ending : Bool} {e : Exc} {r : Except Exc o.Ans} (hr : r = .error e) (ha : act rep t o w r h = some w')
    (hl : Leaky cfg w t ending o.cmd h) : ∃ id, Loose w' id := by
  obtain ⟨c,timed⟩ := o
  subst hr
  have hsame : ∀ {id : String}, Loose w id → w'.boxes = w.boxes → ∃ id, Loose w' id := by
    rintro id ⟨b,hb,hx⟩ hw
    exact ⟨id,b,by rw [hw]; exact hb,hx⟩
  cases c with
  | beginCreate g spec =>
    have hreached : h.reached = true := hl
    simp only [act,hreached,if_true] at ha
    split at ha
    · split at ha <;> cases ha
      refine ⟨h.fresh,⟨g,spec,t,false,false,false,false,false⟩,?_,rfl,rfl,rfl⟩
      rw [create_boxes,if_pos rfl]
    · cases ha
  | pollCreate c =>
    refine hsame hl.1 ?_
    simp only [act,hl.2,Bool.false_eq_true,if_false] at ha
    split at ha <;> cases ha
    rfl
  | setLifecyclePolicy c n =>
    refine hsame hl.1 ?_
    simp only [act,hl.2,Bool.false_eq_true,if_false] at ha
    split at ha <;> cases ha
    rfl
  | set k v ex =>
    have hboxes : w'.boxes = w.boxes := by
      simp only [act] at ha
      split at ha
      · split at ha <;> cases ha <;> rfl
      · cases ha
    cases v with
    | text id => exact hsame hl.1 hboxes
    | binding oid s g =>
      obtain ⟨id,_,hloose,_⟩ := hl
      exact hsame hloose hboxes
    | _ => exact hl.elim
  | beginDelete c =>
    refine hsame hl.2.1 ?_
    simp only [act,hl.2.2,Bool.false_and,Bool.false_eq_true,if_false] at ha
    split at ha
    · split at ha <;> cases ha
      rfl
    · split at ha <;> cases ha
      rfl
  | _ => exact hl.elim

theorem unrecorded_step {ending : Bool} (hcm : CallMove cfg ctx command st o r st') (ha : act rep t o w r h = some w')
    (hredis : r ≠ .error .redis) (hplat : ∀ e, r = .error e → Faultless cfg o.cmd e) {c : Client}
    (hcut : ∀ e, r = .error e → e.isException = false → ¬ Leaky cfg w t ending o.cmd h)
    (hmade : MadeBy w t c.sandboxId) (hc : st.unrecorded cfg = some c) :
    Covered cfg w' c.sandboxId ∨ st'.unrecorded cfg = some c := by
  have hg := act_grows ha
  cases hcm with
  | created x u => exact .inr hc
  | createFailed x e st hl =>
    cases hc
    rcases harmless_cut hmade.box (hcut e rfl (hplat e rfl)) hg with hs | hr
    · exact .inl (.inl hs)
    · rw [act_pollCreate_reached hr ha]
      exact .inl (.inl (modify_settled hmade.box (fun _ => .inl rfl)))
  | policySet x u =>
    cases hc
    rw [act_setLifecyclePolicy ha]
    exact .inl (.inl (modify_settled hmade.box (fun _ => .inr (.inr rfl))))
  | policyFailed x e he =>
    cases hc
    rcases hplat e rfl with hi | hn
    · exact .inr (by simp [hi])
    · rw [he] at hn
      cases hn
  | policyCut x e st he hl =>
    cases hc
    rcases harmless_cut hmade.box (hcut e rfl he) hg with hs | hr
    · exact .inl (.inl hs)
    · rw [act_setLifecyclePolicy_reached hr ha]
      exact .inl (.inl (modify_settled hmade.box (fun _ => .inr (.inr rfl))))
  | published x r st hr hst =>
    simp only [Stage.unrecorded] at hc
    split at hc
    · rename_i hi
      subst hst
      simp only [hi,if_true]
      exact .inr hc
    · cases hc
  | publishCut x e st he hl =>
    simp only [Stage.unrecorded] at hc
    split at hc
    · cases hc
      rcases loose_or_settled hmade.box with hloose | hs
      · exact absurd ⟨hloose,hmade⟩ (hcut e rfl he)
      · exact .inl (.inl (hs.mono hg))
    · cases hc
  | recorded x r hr =>
    cases hc
    cases r with
    | ok u =>
      rw [act_set ha]
      exact .inl (.inr ⟨oidText ctx.userOid,ctx.sessionId,ctx.group.name,by simp [World.store]⟩)
    | error e =>
      rcases act_set_failed ha with rfl | he
      · exact absurd rfl hredis
      · rw [hr e rfl] at he
        cases he
  | recordCut x e st he hl =>
    cases hc
    rcases harmless_cut hmade.box (fun hn => hcut e rfl he ⟨_,rfl,hn⟩) hg with hs | hr
    · exact .inl (.inl hs)
    · rw [act_set_reached hr ha]
      exact .inl (.inr ⟨oidText ctx.userOid,ctx.sessionId,ctx.group.name,by simp [World.store]⟩)
  | _ => cases hc

def Job.ending : Job → Bool
  | .endSession _ _ => true
  | _ => false

structure Kept (cfg : Config) (jobs : Nat → Job) (w : World) (ph : Nat → Phase) : Prop where
  isolated : Isolated cfg w ph
  ends : ∀ t oid sid st, ph t = .ending oid sid st → jobs t = .endSession oid sid
  targets : ∀ t, ∀ x ∈ (ph t).targets, InGroup cfg w x.1 x.2
  doomed : ∀ t id, (ph t).forgets = some id → Settled w id
  cover : ∀ id b, w.boxes id = some b → Covered cfg w id ∨
    ∃ ctx command st c, ph b.creator = .call ctx command st ∧ st.unrecorded cfg = some c ∧ c.sandboxId = id

theorem made_inGroup {g : Group} {oid : Option Guid} {s : Option String}
    (hm : Made cfg w ph (routingKey (routed oid s g)) id) : InGroup cfg w g id := by
  obtain ⟨b,ctx,command,st,hb,_,hk,hn,_⟩ := hm
  have hg : ctx.group = g := (routingKey_parts hk).2.2
  exact ⟨b,hb,by rw [hn,hg]⟩

theorem targets_step (hi : Isolated cfg w ph) (hm : PhaseMove cfg p o r p') (ha : act rep t o w r h = some w')
    (hp : ∀ x ∈ p.targets, InGroup cfg w x.1 x.2) : ∀ x ∈ p'.targets, InGroup cfg w' x.1 x.2 := by
  have hg := act_grows ha
  have hold : ∀ x ∈ p.targets, InGroup cfg w' x.1 x.2 := fun x hx => (hp x hx).mono hg
  have hnone : ∀ {l : List (Group × String)}, l = [] → ∀ x ∈ l, InGroup cfg w' x.1 x.2 := by
    rintro l rfl x hx
    cases hx
  cases hm with
  | ending oid s st st' o r he =>
    cases he with
    | found g gs v id hv =>
      intro x hx
      cases List.mem_singleton.mp hx
      obtain ⟨hl,rfl⟩ := act_get ha
      rw [asText_some hv] at hl
      obtain ⟨e,he,hval,_⟩ := lookup_some hl.symm
      exact made_inGroup (hi.bound (routed oid s g) e id he hval)
    | unbound g id gs r st hs => rcases hs with rfl | rfl | rfl <;> exact hnone rfl
    | unindexed g id gs r st hs => rcases hs with rfl | rfl <;> exact hnone rfl
    | _ => exact hnone rfl
  | reap st st' o r hr =>
    have hdrop : ∀ {gs : List Group} {st : Reaping}, Dropping gs st → (Phase.reap st).targets = [] := by
      rintro gs st (rfl | rfl) <;> rfl
    cases hr with
    | claimed n r st hs => rcases hs with rfl | rfl <;> exact hnone rfl
    | listed g gs ids =>
      obtain ⟨rfl,rfl⟩ := act_list ha
      intro x hx
      simp only [Phase.targets,next_targets,List.mem_map] at hx
      obtain ⟨id,hid,rfl⟩ := hx
      exact listed_inGroup hid
    | managed g id ids gs oid s gr => exact hold
    | unmanaged g id ids gs =>
      intro x hx
      simp only [Phase.targets,next_targets] at hx
      exact hold x (List.mem_cons_of_mem _ hx)
    | alive g id key ids gs v hv =>
      intro x hx
      simp only [Phase.targets,next_targets] at hx
      exact hold x (List.mem_cons_of_mem _ hx)
    | orphan g id key ids gs v hv => exact hold
    | killed g id ids gs r hr => exact fun x hx => hold x (List.mem_cons_of_mem _ hx)
    | unindexed g id ids gs u =>
      intro x hx
      simp only [Phase.targets,next_targets] at hx
      exact hold x hx
    | listFailed g gs e st hs => exact hnone (hdrop hs)
    | bindingFailed g id ids gs r st hs => exact hnone (hdrop hs)
    | peekFailed g id key ids gs e st hs => exact hnone (hdrop hs)
    | killFailed g id ids gs e st he hs => exact hnone (hdrop hs)
    | unindexFailed g id ids gs e st hs => exact hnone (hdrop hs)
    | _ => exact hnone rfl
  | _ => exact hnone rfl

theorem doomed_step (hi : Kept cfg jobs w ph) (hm : PhaseMove cfg (ph t) o r p)
    (ha : act rep t o w r h = some w') (hplat : ∀ e, r = .error e → Faultless cfg o.cmd e)
    (hcut : ∀ e, r = .error e → e.isException = false → ¬ Leaky cfg w t (jobs t).ending o.cmd h)
    (hf : p.forgets = some id) : Settled w' id := by
  have hg := act_grows ha
  generalize hq : ph t = q at hm
  have hold : q.forgets = some id → Settled w' id := fun h => (hi.doomed t id (hq ▸ h)).mono hg
  have hin : ∀ x ∈ q.targets, InGroup cfg w x.1 x.2 := hq ▸ hi.targets t
  cases hm with
  | ending oid s st st' o r he =>
    cases he with
    | deleted g x gs r =>
      cases hf
      have hx : InGroup cfg w g id := hin (g,id) (List.mem_singleton.mpr rfl)
      by_cases hc : ∃ e, r = .error e ∧ e.isException = false
      · obtain ⟨e,rfl,he⟩ := hc
        have hjob : (jobs t).ending = true := by rw [hi.ends t oid s _ hq]; rfl
        exact act_beginDelete_cut ha hx he (fun hn => hcut e rfl he ⟨hjob,hn⟩)
      · refine act_beginDelete ha hx (fun e hr => ?_)
        rcases hplat e hr with hn | hn
        · exact hn
        · exact absurd ⟨e,hr,hn⟩ hc
    | unbound g x gs r st hs => rcases hs with rfl | rfl | rfl <;> first | exact hold hf | cases hf
    | unindexed g x gs r st hs => rcases hs with rfl | rfl <;> cases hf
    | _ => cases hf
  | reap st st' o r hr =>
    have hdrop : ∀ {gs : List Group} {st : Reaping}, Dropping gs st → (Phase.reap st).forgets = none := by
      rintro gs st (rfl | rfl) <;> rfl
    have hnext : ∀ (g : Group) (ids : List String) (gs : List Group),
        (Phase.reap (Reaping.next g ids gs)).forgets = none := by
      intro g ids gs
      cases ids <;> rfl
    cases hr with
    | killed g x ids gs r hr =>
      cases hf
      exact act_beginDelete ha (hin (g,id) List.mem_cons_self) hr
    | claimed n r st hs => rcases hs with rfl | rfl <;> cases hf
    | listed g gs ids => rw [hnext] at hf; cases hf
    | unmanaged g id ids gs => rw [hnext] at hf; cases hf
    | alive g id key ids gs v hv => rw [hnext] at hf; cases hf
    | unindexed g id ids gs u => rw [hnext] at hf; cases hf
    | listFailed g gs e st hs => rw [hdrop hs] at hf; cases hf
    | bindingFailed g id ids gs r st hs => rw [hdrop hs] at hf; cases hf
    | peekFailed g id key ids gs e st hs => rw [hdrop hs] at hf; cases hf
    | killFailed g id ids gs e st he hs => rw [hdrop hs] at hf; cases hf
    | unindexFailed g id ids gs e st hs => rw [hdrop hs] at hf; cases hf
    | _ => cases hf
  | _ => cases hf

theorem move_creates (hm : PhaseMove cfg p o r p') {g : String} {spec : Spec} (ho : o.cmd = .beginCreate g spec) :
    (∃ ctx command c, p' = .call ctx command (.poll c) ∧ Picks cfg ctx o r c) ∨ ∃ e, r = .error e := by
  cases hm with
  | call ctx command st st' o r hc =>
    cases hc with
    | began spec c hsp => exact .inl ⟨ctx,command,c,rfl,.create spec c hsp⟩
    | beginFailed spec e st hsp hl => exact .inr ⟨e,rfl⟩
    | prepared c r hp => cases ho; cases hp
    | prepFailed c r st hp hl => cases ho; cases hp
    | _ => cases ho
  | ending oid s st st' o r he => cases he <;> cases ho
  | reap st st' o r hr => cases hr <;> cases ho
  | resolveFailed v oid st e hv => cases st <;> cases ho
  | _ => cases ho

theorem created_step {ending : Bool} (hm : PhaseMove cfg p o r p') (ha : act rep t o w r h = some w') {b : Box}
    (hn : w.boxes id = none) (hb : w'.boxes id = some b) (hplat : ∀ e, r = .error e → Faultless cfg o.cmd e)
    (hcut : ∀ e, r = .error e → e.isException = false → ¬ Leaky cfg w t ending o.cmd h) :
    b.creator = t ∧ (Covered cfg w' id ∨
      ∃ ctx command st c, p' = .call ctx command st ∧ st.unrecorded cfg = some c ∧ c.sandboxId = id) := by
  obtain ⟨g,spec,ho,rfl⟩ := act_fresh ha hn hb
  refine ⟨rfl,?_⟩
  rcases move_creates hm ho with ⟨ctx,command,c,hp,hpick⟩ | ⟨e,hr⟩
  · cases hpick with
    | hit v id hv => cases ho
    | create spec c hsp =>
      obtain ⟨_,_,rfl⟩ := act_beginCreate ha
      refine .inr ⟨ctx,command,_,c,hp,rfl,?_⟩
      by_contra hne
      rw [create_boxes,if_neg (fun hid => hne hid.symm),hn] at hb
      cases hb
  · subst hr
    obtain ⟨c,timed⟩ := o
    cases ho
    exact absurd (create_reached ha hn hb) (hcut e rfl (hplat e rfl))

theorem cover_step (hi : Kept cfg jobs w ph) (hm : PhaseMove cfg (ph t) o r p)
    (ha : act rep t o w r h = some w') (hredis : r ≠ .error .redis)
    (hplat : ∀ e, r = .error e → Faultless cfg o.cmd e)
    (hcut : ∀ e, r = .error e → e.isException = false → ¬ Leaky cfg w t (jobs t).ending o.cmd h)
    {b' : Box} (hb' : w'.boxes id = some b') : Covered cfg w' id ∨
      ∃ ctx command st c, upd ph t p b'.creator = .call ctx command st ∧ st.unrecorded cfg = some c ∧
        c.sandboxId = id := by
  have hg := act_grows ha
  cases hb : w.boxes id with
  | none =>
    obtain ⟨rfl,hc⟩ := created_step hm ha hb hb' hplat hcut
    simpa using hc
  | some b =>
    obtain ⟨x,hx,hbx⟩ := hg id b hb
    rw [hb'] at hx
    cases hx
    rw [hbx.creator]
    rcases hi.cover id b hb with (hs | hx) | ⟨ctx,command,st,c,hp,hc,hid⟩
    · exact .inl (.inl (hs.mono hg))
    · by_cases hf : (ph t).forgets = some id
      · exact .inl (.inl ((hi.doomed t id hf).mono hg))
      · exact .inl (.inr (indexed_step hm ha hx hf))
    · by_cases hit : b.creator = t
      · rw [hit] at hp
        obtain ⟨st',hp',hcm⟩ := move_call hm hp
        have hmade : MadeBy w t c.sandboxId := ⟨b,by rw [hid]; exact hb,hit⟩
        rcases unrecorded_step hcm ha hredis hplat hcut hmade hc with hcov | hc'
        · exact .inl (hid ▸ hcov)
        · exact .inr ⟨ctx,command,st',c,by rw [hit,upd_same,hp'],hc',hid⟩
      · exact .inr ⟨ctx,command,st,c,by rw [upd_other ph p hit]; exact hp,hc,hid⟩

theorem Kept.step (hi : Kept cfg jobs w ph) (hm : PhaseMove cfg (ph t) o r p)
    (ha : act rep t o w r h = some w') (hredis : r ≠ .error .redis)
    (hplat : ∀ e, r = .error e → Faultless cfg o.cmd e)
    (hcut : ∀ e, r = .error e → e.isException = false → ¬ Leaky cfg w t (jobs t).ending o.cmd h) :
    Kept cfg jobs w' (upd ph t p) := by
  have hg := act_grows ha
  refine ⟨hi.isolated.step hm ha,?_,?_,?_,fun id b' hb' => cover_step hi hm ha hredis hplat hcut hb'⟩
  · refine forall_upd (P := fun i q => ∀ oid sid st, q = Phase.ending oid sid st → jobs i = .endSession oid sid) ?_ hi.ends
    intro oid sid st hp
    subst hp
    generalize hq : ph t = q at hm
    cases hm with
    | ending oid s st st' o r he => exact hi.ends t _ _ _ hq
  · exact forall_upd (P := fun _ q => ∀ x ∈ Phase.targets q, InGroup cfg w' x.1 x.2)
      (targets_step hi.isolated hm ha (hi.targets t)) (fun i x hx => (hi.targets i x hx).mono hg)
  · exact forall_upd (P := fun _ q => ∀ id, Phase.forgets q = some id → Settled w' id)
      (fun id hf => doomed_step hi hm ha hplat hcut hf) (fun i id hf => (hi.doomed i id hf).mono hg)

theorem Kept.env {e : Env} (hi : Kept cfg jobs w ph) (he : env e w = some w') : Kept cfg jobs w' ph := by
  have hg := env_grows he
  refine ⟨hi.isolated.env he,hi.ends,fun i x hx => (hi.targets i x hx).mono hg,
    fun i id hf => (hi.doomed i id hf).mono hg,?_⟩
  intro id b' hb'
  cases hb : w.boxes id with
  | none =>
    rw [env_fresh he hb] at hb'
    cases hb'
  | some b =>
    obtain ⟨x,hx,hbx⟩ := hg id b hb
    rw [hb'] at hx
    cases hx
    rw [hbx.creator]
    rcases hi.cover id b hb with (hs | ⟨oid,s,g,hx⟩) | hc
    · exact .inl (.inl (hs.mono hg))
    · exact .inl (.inr ⟨oid,s,g,by rw [env_redis he]; exact hx⟩)
    · exact .inr hc

end Invariant

section Runs

variable {cfg : Config} {jobs : Nat → Job} {rep : Nat → Nat} {now : Nat}

def Answered (cfg : Config) : Step → Prop
  | .task _ o (.error e) _ => e ≠ .redis ∧ Faultless cfg o.cmd e
  | _ => True

theorem answered_cut {t : Nat} {o : Op} {e : Exc} {h : Hint} (he : e.isException = false) :
    Answered cfg (.task t o (.error e) h) := by
  refine ⟨?_,?_⟩
  · rintro rfl
    cases he
  · cases hc : o.cmd <;> simp [Faultless,he]

-- Redis and the platform answer, and no call is cut off at an await that loses a sandbox.
def CutHarmless (cfg : Config) (jobs : Nat → Job) (s : System) (_ : Unit) (l : Step) : Prop :=
  Answered cfg l ∧ match l with
    | .task t o (.error e) h => e.isException = false → ¬ Leaky cfg s.world t (jobs t).ending o.cmd h
    | _ => True

theorem kept_run {s : System} {u : Unit} (hr : (machine rep).Run (CutHarmless cfg jobs) (fun _ _ u => u)
    (start cfg jobs now) () s u) :
    ∃ ph, Kept cfg jobs s.world ph ∧ ∀ t, Follows (PhaseMove cfg) (ph t) (s.pool t) Finished := by
  refine hr.tracked (I := fun w _ ph => Kept cfg jobs w ph) (fun t => (jobs t).phase cfg)
    (fun t => job_follows cfg (jobs t)) ?_ ?_ ?_
  · refine ⟨isolated_start (fun _ _ _ _ => start_call),?_,?_,?_,?_⟩
    · intro t oid sid st hp
      cases hj : jobs t <;> rw [hj] at hp <;> cases hp
      rfl
    · intro t x hx
      cases hj : jobs t <;> rw [hj] at hx
      · cases hx
      · cases hx
      · cases hx
      · simp only [Job.phase,Phase.targets,reapPhase,reapStart] at hx
        split at hx <;> cases hx
    · intro t id hf
      cases hj : jobs t <;> rw [hj] at hf
      · cases hf
      · cases hf
      · cases hf
      · simp only [Job.phase,reapPhase,reapStart] at hf
        split at hf <;> cases hf
    · intro id b hb
      cases hb
  · intro s u ph t o r h w p hi hph hadm hm ha
    refine hi.step hm ha ?_ ?_ ?_
    · rintro rfl
      exact hadm.1.1 rfl
    · rintro e rfl
      exact hadm.1.2
    · rintro e rfl he
      exact hadm.2 he
  · intro s u ph e w hi _ he
    exact hi.env he

theorem finished_unrecorded {ph : Phase} {x : Except Exc Out} (hf : Finished ph x) {ctx : SessionCtx}
    {command : Option String} {st : Stage} (hp : ph = .call ctx command st) : st.unrecorded cfg = none := by
  cases x with
  | error e =>
    cases hf ctx command st hp
    rfl
  | ok out =>
    cases out with
    | client c =>
      obtain ⟨_,_,hp'⟩ := hf
      rw [hp'] at hp
      cases hp
      rfl
    | result r =>
      obtain ⟨_,_,_,hp'⟩ := hf
      rw [hp'] at hp
      cases hp
      rfl
    | visited sid c r =>
      obtain ⟨_,_,_,hp'⟩ := hf
      rw [hp'] at hp
      cases hp
      rfl
    | done => exact absurd hp (hf ctx command st)

theorem no_leak {s : System} {u : Unit} (hr : (machine rep).Run (CutHarmless cfg jobs) (fun _ _ u => u)
    (start cfg jobs now) () s u) (id : String) (b : Box) (hb : s.world.boxes id = some b)
    (hexists : b.gone = false ∧ b.deleting = false) (hdone : (s.pool b.creator).outcome.isSome = true) :
    (∃ oid sid, ∃ g : Group, s.world.lookup (sessionKey cfg (oidText oid) sid g.name) = some (.text id)) ∨
      Indexed cfg s.world id ∨ b.policy = true := by
  obtain ⟨ph,hi,hph⟩ := kept_run hr
  rcases hi.cover id b hb with (⟨b',hb',hs⟩ | hx) | ⟨ctx,command,st,c,hp,hc,_⟩
  · rw [hb] at hb'
    cases hb'
    rw [hexists.1,hexists.2] at hs
    rcases hs with hs | hs | hs
    · cases hs
    · cases hs
    · exact .inr (.inr hs)
  · exact .inr (.inl hx)
  · obtain ⟨x,hx⟩ := Option.isSome_iff_exists.mp hdone
    have hf := (hph b.creator).outcome hx
    rw [finished_unrecorded hf hp] at hc
    cases hc

theorem no_leak_cold : ∃ s u,
    (machine (fun _ => 0)).Run (CutHarmless sampleConfig (fun t => .getOrCreate (sampleCalls t)))
      (fun _ _ u => u) (start sampleConfig (fun t => .getOrCreate (sampleCalls t)) 0) () s u ∧
    ((∃ oid sid, ∃ g : Group,
        s.world.lookup (sessionKey sampleConfig (oidText oid) sid g.name) = some (.text "b1")) ∨
      Indexed sampleConfig s.world "b1" ∨ (s.world.boxes "b1").map Box.policy = some true) := by
  obtain ⟨s,u,hr,hc⟩ : ∃ s u, (machine (fun _ => 0)).Run
      (CutHarmless sampleConfig (fun t => .getOrCreate (sampleCalls t))) (fun _ _ u => u)
      (start sampleConfig (fun t => .getOrCreate (sampleCalls t)) 0) () s u ∧
      ((s.world.boxes "b1").map (fun b => (b.creator,b.gone,b.deleting)),(s.pool 0).outcome.isSome) =
        (some (0,false,false),true) := by
    refine Machine.replay_reaches smooth (coldCall sampleConfig 0 (sampleCtx "s1" .action) "b1") ?_
      (by decide +kernel)
    intro s u l hl
    cases l with
    | task t o r h =>
      cases r with
      | ok a => exact ⟨trivial,trivial⟩
      | error e => cases hl
    | env e => exact ⟨trivial,trivial⟩
  obtain ⟨hbox,hdone⟩ := Prod.mk.inj hc
  obtain ⟨b,hb,hx⟩ := Option.map_eq_some_iff.mp hbox
  simp only [Prod.mk.injEq] at hx
  refine ⟨s,u,hr,?_⟩
  rw [hb]
  rcases no_leak hr "b1" b hb hx.2 (by rw [hx.1]; exact hdone) with h | h | h
  · exact .inl h
  · exact .inr (.inl h)
  · exact .inr (.inr (by rw [Option.map_some,h]))

def timedOutCreation (cfg : Config) (ctx : SessionCtx) (id : String) : List Step :=
  let c : Client := ⟨cfg.groupNames ctx.group,id⟩
  [answers 0 (.acquire (routingKey ctx)) (),answers 0 (.get (ctxKey cfg ctx)) none,
    answers 0 (.beginCreate (cfg.groupNames ctx.group) (sampleSpec cfg ctx)) c true,
    .task 0 ⟨.pollCreate c,true⟩ (.error .deadline) ⟨false,""⟩,answers 0 (.release (routingKey ctx)) (),
    .env (.built id)]

def onlyCuts {γ : Type} (_ : System) (_ : γ) : Step → Bool
  | .task _ _ (.error e) _ => !e.isException
  | _ => true

theorem leaks_after_timeout : ∃ s u,
    (machine (fun _ => 0)).Run (fun _ _ l => Answered sampleConfig l) (fun _ _ u => u)
      (start sampleConfig (fun t => .getOrCreate (sampleCalls t)) 0) () s u ∧
    ∃ id b, s.world.boxes id = some b ∧ b.ready = true ∧ (b.gone = false ∧ b.deleting = false) ∧
      (s.pool b.creator).outcome.isSome = true ∧
      ¬ ((∃ oid sid, ∃ g : Group,
          s.world.lookup (sessionKey sampleConfig (oidText oid) sid g.name) = some (.text id)) ∨
        Indexed sampleConfig s.world id ∨ b.policy = true) := by
  obtain ⟨s,u,hr,hc⟩ : ∃ s u, (machine (fun _ => 0)).Run (fun _ _ l => Answered sampleConfig l) (fun _ _ u => u)
      (start sampleConfig (fun t => .getOrCreate (sampleCalls t)) 0) () s u ∧
      (s.world.redis,(s.world.boxes "b1").map (fun b => (b.creator,b.gone,b.deleting,b.policy,b.ready)),
        (s.pool 0).outcome) = ((fun _ => none),some (0,false,false,false,true),some (.error .timeout)) := by
    refine Machine.replay_reaches onlyCuts (timedOutCreation sampleConfig (sampleCtx "s1" .action) "b1") ?_ rfl
    intro s u l hl
    cases l with
    | task t o r h =>
      cases r with
      | ok a => trivial
      | error e => exact answered_cut (by simpa [onlyCuts] using hl)
    | env e => trivial
  simp only [Prod.mk.injEq] at hc
  obtain ⟨hredis,hbox,hout⟩ := hc
  obtain ⟨b,hb,hx⟩ := Option.map_eq_some_iff.mp hbox
  simp only [Prod.mk.injEq] at hx
  obtain ⟨hcreator,hgone,hdeleting,hpolicy,hready⟩ := hx
  refine ⟨s,u,hr,"b1",b,hb,hready,⟨hgone,hdeleting⟩,by rw [hcreator,hout]; rfl,?_⟩
  rintro (⟨oid,sid,g,hl⟩ | ⟨oid,sid,g,hl⟩ | hp)
  · simp [World.lookup,hredis] at hl
  · simp [hredis] at hl
  · rw [hpolicy] at hp
    cases hp

end Runs

end IdentityAwareMcp
