import IdentityAwareMcp.Safety.Pass
import IdentityAwareMcp.Safety.Single

namespace IdentityAwareMcp

open Coop SandboxManager

section Condition

variable (cfg : Config)

-- A sandbox of one of the groups that is still there and that nobody has asked to delete.
def Standing (w : World) (id : String) : Prop :=
  ∃ b, w.boxes id = some b ∧ b.gone = false ∧ b.deleting = false ∧ ∃ g, b.groupName = cfg.groupNames g

-- Redis answers, deletions are accepted, and what was begun is created.
def Served (o : Op) (r : Except Exc o.Ans) : Prop :=
  ∀ e, r = .error e → match o.cmd with
    | .beginDelete _ => e = .notFound
    | .pollCreate _ => False
    | .unlockRedis _ => e = .notOwned
    | c => c.redis = false

def Foretold (w : World) (e : Env) : Prop :=
  e.spares w ∨ ∃ id, e = .vanish id ∧ w.lookup (indexKey cfg id) = none

-- A sandbox disappears only once its deletion was asked for or while it has no entry, and an
-- entry is written only for a sandbox that is still there.
def Tidy (s : System) (_ : Unit) : Step → Prop
  | .task _ o r _ => Served o r ∧ ∀ id v ex, o.cmd = .set (indexKey cfg id) v ex → Standing cfg s.world id
  | .env e => Foretold cfg s.world e

-- Every entry is a lasting binding of a sandbox that stands, or is about to be dropped.
def Filed (F : String → Prop) (w : World) : Prop :=
  ∀ id e, w.redis (indexKey cfg id) = some e →
    cfg.index = true ∧ (∃ oid s g, e = ⟨.binding oid s g,none⟩) ∧ (Standing cfg w id ∨ F id)

end Condition

section Steps

variable {cfg : Config} {rep : Nat → Nat} {t : Nat} {o : Op} {r : Except Exc o.Ans} {h : Hint} {w w' : World} {e : Env}
variable {p p' : Phase} {id : String} {F F' : String → Prop}

theorem Served.answered (hs : Served o r) (ho : o.cmd.redis = true) (hu : ∀ k, o.cmd ≠ .unlockRedis k) : ∃ a, r = .ok a := by
  obtain ⟨c,timed⟩ := o
  cases r with
  | ok a => exact ⟨a,rfl⟩
  | error e =>
    have he := hs e rfl
    cases c <;> first | exact absurd rfl (hu _) | cases ho.symm.trans he | cases ho

theorem standing_modify {i : String} {f : Box → Box}
    (hf : ∀ b, (f b).gone = b.gone ∧ (f b).deleting = b.deleting ∧ (f b).groupName = b.groupName)
    (hst : Standing cfg w id) : Standing cfg (w.modifyBox i f) id := by
  obtain ⟨b,hb,hgone,hdel,g,hg⟩ := hst
  obtain ⟨hfg,hfd,hfn⟩ := hf b
  rw [Standing,modifyBox_boxes,hb]
  split
  · exact ⟨f b,rfl,hfg.trans hgone,hfd.trans hdel,g,hfn.trans hg⟩
  · exact ⟨b,rfl,hgone,hdel,g,hg⟩

theorem standing_congr (hb : w'.boxes id = w.boxes id) (hst : Standing cfg w id) : Standing cfg w' id := by
  rw [Standing,hb]
  exact hst

theorem Standing.act (hst : Standing cfg w id) (ha : act rep t o w r h = some w') (hs : Served o r) :
    Standing cfg w' id ∨ ∃ c, o.cmd = .beginDelete c ∧ c.sandboxId = id := by
  obtain ⟨c,timed⟩ := o
  have hsteady : (∀ x, c ≠ .beginDelete x) → (∀ x, c ≠ .pollCreate x) → Standing cfg w' id := by
    intro hd hp
    obtain ⟨b,hb,hgone,hdel,g,hg⟩ := hst
    obtain ⟨b',hb',hdel',hgone'⟩ := act_steady ha hd hp hb
    obtain ⟨x,hx,hbx⟩ := act_grows ha id b hb
    cases hb'.symm.trans hx
    exact ⟨b',hb',hgone'.trans hgone,hdel'.trans hdel,g,hbx.groupName.trans hg⟩
  cases c with
  | beginDelete c =>
    by_cases hid : c.sandboxId = id
    · exact .inr ⟨c,rfl,hid⟩
    · refine .inl ?_
      rcases act_deletes ha with rfl | rfl
      · exact hst
      · refine standing_congr ?_ hst
        rw [modifyBox_boxes,if_neg (Ne.symm hid)]
  | pollCreate c =>
    refine .inl ?_
    cases r with
    | ok u =>
      obtain ⟨_,rfl⟩ := act_pollCreate ha
      exact standing_modify (fun _ => ⟨rfl,rfl,rfl⟩) hst
    | error e => exact (hs e rfl).elim
  | _ => exact .inl (hsteady (by simp) (by simp))

theorem Standing.env (hst : Standing cfg w id) (he : env e w = some w') (hs : Foretold cfg w e)
    (hl : w.lookup (indexKey cfg id) ≠ none) : Standing cfg w' id := by
  obtain ⟨b,hb,hgone,hdel,g,hg⟩ := hst
  rcases hs with hs | ⟨i,rfl,hn⟩
  · obtain ⟨b',hb',hdel',hgone'⟩ := env_boxes he hs hb hdel
    obtain ⟨x,hx,hbx⟩ := env_grows he id b hb
    cases hb'.symm.trans hx
    exact ⟨b',hb',hgone'.trans hgone,hdel',g,hbx.groupName.trans hg⟩
  · have hi : id ≠ i := by
      rintro rfl
      exact hl hn
    simp only [IdentityAwareMcp.env] at he
    split at he <;> cases he
    exact ⟨b,(upd_other _ _ hi).trans hb,hgone,hdel,g,hg⟩

theorem move_deletes (hm : PhaseMove cfg p o r p') {c : Client} (ho : o.cmd = .beginDelete c) (hs : Served o r) :
    p'.forgets = some c.sandboxId := by
  cases hm with
  | call ctx command st st' o r hc =>
    cases hc with
    | prepared c r hp => cases ho; cases hp
    | prepFailed c r st hp hl => cases ho; cases hp
    | _ => cases ho
  | ending oid s st st' o r he =>
    cases he with
    | deleted g id gs r =>
      cases ho
      rfl
    | _ => cases ho
  | reap st st' o r hr =>
    cases hr with
    | killed g id ids gs r hr =>
      cases ho
      rfl
    | killFailed g id ids gs e st he hd => exact absurd (hs e rfl) he
    | _ => cases ho
  | resolveFailed v oid st e hv => cases st <;> cases ho
  | _ => cases ho

theorem move_records (hm : PhaseMove cfg p o r p') {v : Value} {ex : Option Nat}
    (ho : o.cmd = .set (indexKey cfg id) v ex) :
    ∃ ctx command c, c.sandboxId = id ∧ p = .call ctx command (.record c) ∧
      v = .binding (oidText ctx.userOid) ctx.sessionId ctx.group.name ∧ ex = none := by
  cases hm with
  | call ctx command st st' o r hc =>
    cases hc with
    | recorded c r hr =>
      injection ho with hk hv hx
      exact ⟨ctx,command,c,indexKey_injective cfg hk,rfl,hv.symm,hx.symm⟩
    | recordCut c e st he hl =>
      injection ho with hk hv hx
      exact ⟨ctx,command,c,indexKey_injective cfg hk,rfl,hv.symm,hx.symm⟩
    | prepared c r hp => cases ho; cases hp
    | prepFailed c r st hp hl => cases ho; cases hp
    | _ => cases ho
  | ending oid s st st' o r he => cases he <;> cases ho
  | reap st st' o r hr => cases hr <;> cases ho
  | resolveFailed v oid st e hv => cases st <;> cases ho
  | _ => cases ho

theorem writes_index {now : Nat} {x : Entry} (hm : PhaseMove cfg p o r p') (hw : Writes t now o.cmd (indexKey cfg id) x) :
    ∃ ctx command c v ex, c.sandboxId = id ∧ o.cmd = .set (indexKey cfg id) v ex ∧ p = .call ctx command (.record c) ∧
      x = ⟨.binding (oidText ctx.userOid) ctx.sessionId ctx.group.name,none⟩ := by
  cases ho : o.cmd with
  | set k v ex =>
    rw [ho] at hw
    obtain ⟨rfl,rfl⟩ := hw
    obtain ⟨ctx,command,c,hc,hp,rfl,rfl⟩ := move_records hm ho
    exact ⟨ctx,command,c,_,_,hc,rfl,hp,rfl⟩
  | setNx k v ex =>
    rw [ho] at hw
    obtain ⟨rfl,_⟩ := move_claims hm ho
    exact absurd hw.1.symm (key_ne (by simp))
  | lockRedis k ttl =>
    rw [ho] at hw
    obtain ⟨ctx,command,rfl⟩ := move_locks hm ho
    obtain ⟨_,_,hc⟩ := move_call hm rfl
    cases hc <;> cases ho <;> exact absurd hw.1 (lockKey_ne (head_indexKey cfg id))
  | _ =>
    rw [ho] at hw
    cases hw

theorem forget_step (hm : PhaseMove cfg p o r p') (hf : p.forgets = some id) (hs : Served o r) (hi : cfg.index = true) :
    p'.forgets = some id ∨ o.cmd = .del (indexKey cfg id) ∧ ∃ a, r = .ok a := by
  cases hm with
  | ending oid s st st' o r he =>
    cases he with
    | unbound g i gs r st hst hidx =>
      cases hf
      obtain ⟨a,rfl⟩ := hs.answered rfl (by simp)
      rw [hidx a rfl hi]
      exact .inl rfl
    | unindexed g i gs r st hst =>
      cases hf
      exact .inr ⟨rfl,hs.answered rfl (by simp)⟩
    | _ => cases hf
  | reap st st' o r hr =>
    cases hr with
    | unindexed g i ids gs u =>
      cases hf
      exact .inr ⟨rfl,u,rfl⟩
    | unindexFailed g i ids gs e st hd =>
      cases hf
      exact .inr ⟨rfl,hs.answered rfl (by simp)⟩
    | _ => cases hf
  | _ => cases hf

theorem move_into_record {ctx : SessionCtx} {command : Option String} {c : Client} (hm : PhaseMove cfg p o r p')
    (hp : p' = .call ctx command (.record c)) : cfg.index = true := by
  rcases move_into hm hp with ⟨st,_,hc⟩ | ⟨hst,_⟩
  · generalize hq : Stage.record c = q at hc
    cases hc with
    | published c' r st hr hst =>
      by_contra hi
      rw [if_neg hi] at hst
      cases hq.trans hst
    | _ =>
      first
        | (cases hq; done)
        | (rename_i hl; rcases hl with rfl | rfl <;> cases hq)
  · cases hst

theorem Filed.step (hi : Filed cfg F w) (hm : PhaseMove cfg p o r p') (ha : act rep t o w r h = some w') (hs : Served o r)
    (hrec : ∀ ctx command c, p = .call ctx command (.record c) → cfg.index = true)
    (hset : ∀ id v ex, o.cmd = .set (indexKey cfg id) v ex → Standing cfg w id)
    (hkeep : ∀ id, F id → F' id ∨ p.forgets = some id) (hnew : ∀ id, p'.forgets = some id → F' id) :
    Filed cfg F' w' := by
  intro id x hx
  have hstand : Standing cfg w id → Standing cfg w' id ∨ F' id := by
    intro hst
    rcases hst.act ha hs with hst | ⟨c,ho,rfl⟩
    · exact .inl hst
    · exact .inr (hnew _ (move_deletes hm ho hs))
  rcases act_entry ha hx with hold | hw
  · obtain ⟨hidx,hbind,hst | hf⟩ := hi id x hold
    · exact ⟨hidx,hbind,hstand hst⟩
    · rcases hkeep id hf with hf | hf
      · exact ⟨hidx,hbind,.inr hf⟩
      · rcases forget_step hm hf hs hidx with hf | ⟨ho,a,hr⟩
        · exact ⟨hidx,hbind,.inr (hnew id hf)⟩
        · obtain ⟨c,timed⟩ := o
          cases ho
          subst hr
          rw [act_del ha] at hx
          exact absurd rfl (erase_redis hx).1
  · obtain ⟨ctx,command,c,v,ex,-,ho,hp,rfl⟩ := writes_index hm hw
    exact ⟨hrec ctx command c hp,⟨_,_,_,rfl⟩,hstand (hset id v ex ho)⟩

theorem Filed.entry (hi : Filed cfg F w) {x : Entry} (hx : w.redis (indexKey cfg id) = some x) :
    w.lookup (indexKey cfg id) = some x.val := by
  obtain ⟨-,⟨oid,s,g,rfl⟩,-⟩ := hi id x hx
  exact lookup_entry hx rfl

theorem Filed.env (hi : Filed cfg F w) (he : env e w = some w') (hs : Foretold cfg w e) : Filed cfg F w' := by
  intro id x hx
  rw [env_redis he] at hx
  obtain ⟨hidx,hbind,hst | hf⟩ := hi id x hx
  · refine ⟨hidx,hbind,.inl (hst.env he hs ?_)⟩
    rw [hi.entry hx]
    simp
  · exact ⟨hidx,hbind,.inr hf⟩

end Steps

section Runs

variable {cfg : Config} {jobs : Nat → Job} {rep : Nat → Nat} {now t : Nat} {o : Op} {r : Except Exc o.Ans} {h : Hint}
variable {w w' : World} {ph : Nat → Phase} {p : Phase} {s : System} {u : Unit}

structure Catalogued (cfg : Config) (w : World) (ph : Nat → Phase) : Prop where
  listed : w.made.Nodup ∧ ∀ id, id ∈ w.made ↔ w.boxes id ≠ none
  records : ∀ t ctx command c, ph t = .call ctx command (.record c) → cfg.index = true
  filed : Filed cfg (fun id => ∃ t, (ph t).forgets = some id) w

theorem Catalogued.step (hi : Catalogued cfg w ph) (hm : PhaseMove cfg (ph t) o r p) (ha : act rep t o w r h = some w')
    (hs : Served o r) (hset : ∀ id v ex, o.cmd = .set (indexKey cfg id) v ex → Standing cfg w id) :
    Catalogued cfg w' (upd ph t p) where
  listed := listed_act ha hi.listed
  records := forall_upd (P := fun _ q => ∀ ctx command c, q = Phase.call ctx command (.record c) → cfg.index = true)
    (fun _ _ _ hp => move_into_record hm hp) hi.records
  filed := by
    refine hi.filed.step hm ha hs (hi.records t) hset ?_ (fun id hf => ⟨t,by rwa [upd_same]⟩)
    rintro id ⟨i,hf⟩
    by_cases hit : i = t
    · exact .inr (hit ▸ hf)
    · exact .inl ⟨i,by rwa [upd_other _ _ hit]⟩

theorem listed_env {e : Env} (he : env e w = some w') (hi : w.made.Nodup ∧ ∀ id, id ∈ w.made ↔ w.boxes id ≠ none) :
    w'.made.Nodup ∧ ∀ id, id ∈ w'.made ↔ w'.boxes id ≠ none := by
  rw [env_made he]
  refine ⟨hi.1,fun id => (hi.2 id).trans (not_congr ⟨env_fresh he,fun hn => ?_⟩)⟩
  cases hb : w.boxes id with
  | none => rfl
  | some b =>
    obtain ⟨b',hb',_⟩ := env_grows he id b hb
    rw [hn] at hb'
    cases hb'

theorem job_settles (j : Job) :
    Follows (PhaseMove cfg) (j.phase cfg) (j.task cfg) (fun ph _ => ph.forgets = none) := by
  have hcall : ∀ {α : Type} {ctx : SessionCtx} {command : Option String} {q : M α} {f : α → M Out}
      {Q : Stage → Except Exc α → Prop}, Follows (CallMove cfg ctx command) .start q Q → (∀ a, ∃ x, f a = .ret x) →
      Follows (PhaseMove cfg) (.call ctx command .start) (q.bind f) (fun ph _ => ph.forgets = none) := by
    intro α ctx command q f Q hq hf
    refine (call_follows cfg hq).bind ?_ ?_
    · rintro _ a ⟨st,rfl,-⟩
      obtain ⟨x,hx⟩ := hf a
      rw [hx]
      rfl
    · rintro _ e ⟨st,rfl,-⟩
      rfl
  cases j with
  | getOrCreate ctx => exact hcall (getOrCreate_follows cfg ctx none) (fun c => ⟨_,rfl⟩)
  | exec ctx command => exact hcall (exec_follows cfg ctx command) (fun c => ⟨_,rfl⟩)
  | endSession oid sessionId =>
    refine ((endGroups_follows cfg oid sessionId Group.all).lift (Phase.ending oid sessionId)
      (fun _ _ _ _ hm => .ending oid sessionId _ _ _ _ hm)).bind ?_ ?_
    · rintro _ u ⟨st,rfl,rfl | rfl⟩ <;> rfl
    · rintro _ e ⟨st,rfl,rfl | rfl⟩ <;> rfl
  | reaperRound =>
    refine ((reaperRound_follows cfg).lift Phase.reap (fun _ _ _ _ hm => .reap _ _ _ _ hm)).bind ?_ ?_
    · rintro _ u ⟨st,rfl,rfl | rfl | rfl⟩ <;> rfl
    · rintro _ e ⟨st,rfl,rfl | rfl | rfl⟩ <;> rfl

theorem forgets_deletes {p' : Phase} (hm : PhaseMove cfg p o r p') {id : String} (hf : p.forgets = some id) :
    ∃ k, o.cmd = .del k := by
  cases hm with
  | ending oid s st st' o r he => cases he <;> first | exact ⟨_,rfl⟩ | cases hf
  | reap st st' o r hr => cases hr <;> first | exact ⟨_,rfl⟩ | cases hf
  | _ => cases hf

theorem index_run (hr : (machine rep).Run (Tidy cfg) (fun _ _ u => u) (start cfg jobs now) () s u) :
    ∃ ph, Catalogued cfg s.world ph ∧ ∀ t, Follows (PhaseMove cfg) (ph t) (s.pool t) (fun ph _ => ph.forgets = none) := by
  refine hr.tracked (I := fun w _ ph => Catalogued cfg w ph) (fun t => (jobs t).phase cfg) (fun t => job_settles (jobs t))
    ⟨⟨List.nodup_nil,by simp [start,World.empty]⟩,?_,?_⟩ ?_ ?_
  · intro t ctx command c hp
    cases hj : jobs t <;> rw [hj] at hp <;> cases hp
  · intro id x hx
    cases hx
  · intro s u ph t o r h w p hi hph hadm hm ha
    exact hi.step hm ha hadm.1 hadm.2
  · intro s u ph e w hi hadm he
    exact ⟨listed_env he hi.listed,hi.records,hi.filed.env he hadm⟩

end Runs

section Passing

variable {cfg : Config} {rep : Nat → Nat} {t : Nat} {o : Op} {r : Except Exc o.Ans} {h : Hint} {w w' : World} {id : String}
variable {st st' : Reaping}

-- The entry leads to a forward key that holds the sandbox.
def Matched (cfg : Config) (w : World) (id : String) : Prop :=
  ∃ oid s g, w.redis (indexKey cfg id) = some ⟨.binding oid s g,none⟩ ∧ w.lookup (sessionKey cfg oid s g) = some (.text id)

-- What a pass has yet to look at.
def Reaping.due : Reaping → Group → String → Prop
  | .list gs, g, _ => g ∈ gs
  | .binding g₀ i ids gs, g, id => g ∈ gs ∨ g = g₀ ∧ id ∈ i :: ids
  | .peek g₀ i _ ids gs, g, id => g ∈ gs ∨ g = g₀ ∧ id ∈ i :: ids
  | .kill g₀ i ids gs, g, id => g ∈ gs ∨ g = g₀ ∧ id ∈ i :: ids
  | .unindex g₀ i ids gs, g, id => g ∈ gs ∨ g = g₀ ∧ id ∈ i :: ids
  | _, _, _ => True

structure Sweeping (cfg : Config) (w : World) (st : Reaping) : Prop where
  listed : w.made.Nodup ∧ ∀ id, id ∈ w.made ↔ w.boxes id ≠ none
  filed : Filed cfg (fun id => (Phase.reap st).forgets = some id) w
  due : ∀ g id, id ∈ w.listed (cfg.groupNames g) → w.redis (indexKey cfg id) ≠ none → Matched cfg w id ∨ st.due g id
  read : ∀ g id key ids gs, st = .peek g id key ids gs → ∀ x, w.redis (indexKey cfg id) = some x →
    ∃ oid s gr, x = ⟨.binding oid s gr,none⟩ ∧ key = sessionKey cfg oid s gr

-- Between two calls of a pass sandboxes may disappear and time may pass, but no session expires.
def Drifts (cfg : Config) (w w' : World) : Prop :=
  ∃ e, env e w = some w' ∧ Foretold cfg w e ∧
    ∀ oid s g, w'.lookup (sessionKey cfg oid s g) = w.lookup (sessionKey cfg oid s g)

def Drift (cfg : Config) : World → World → Prop := Relation.ReflTransGen (Drifts cfg)

theorem listed_back {g : String} (hg : w.Grows w') (hn : w.boxes id = none → w'.boxes id = none)
    (hl : ∀ id, id ∈ w.made ↔ w.boxes id ≠ none) (hid : id ∈ w'.listed g) : id ∈ w.listed g := by
  obtain ⟨b',hb',hname,hgone⟩ := present_box (List.mem_filter.mp hid).2
  cases hb : w.boxes id with
  | none =>
    rw [hn hb] at hb'
    cases hb'
  | some b =>
    obtain ⟨x,hx,hbx⟩ := hg id b hb
    cases hb'.symm.trans hx
    have hgone' : b.gone = false := by
      by_contra hx
      rw [hbx.gone (by simpa using hx)] at hgone
      cases hgone
    exact List.mem_filter.mpr ⟨(hl id).mpr (by simp [hb]),by simp [World.present,hb,hgone',← hbx.groupName,hname]⟩

theorem Standing.listed (hst : Standing cfg w id) (hl : ∀ id, id ∈ w.made ↔ w.boxes id ≠ none) :
    ∃ g, id ∈ w.listed (cfg.groupNames g) := by
  obtain ⟨b,hb,hgone,-,g,hg⟩ := hst
  exact ⟨g,List.mem_filter.mpr ⟨(hl id).mpr (by simp [hb]),by simp [World.present,hb,hgone,hg]⟩⟩

theorem Matched.congr (hb : Matched cfg w id) (hx : w'.redis (indexKey cfg id) = w.redis (indexKey cfg id))
    (hs : ∀ oid s g, w'.lookup (sessionKey cfg oid s g) = w.lookup (sessionKey cfg oid s g)) : Matched cfg w' id := by
  obtain ⟨oid,s,g,he,hl⟩ := hb
  exact ⟨oid,s,g,hx.trans he,(hs oid s g).trans hl⟩

theorem Sweeping.drift (hi : Sweeping cfg w st) (hd : Drift cfg w w') : Sweeping cfg w' st := by
  induction hd with
  | refl => exact hi
  | tail _ hstep ih =>
    obtain ⟨e,he,hs,hl⟩ := hstep
    have hr := env_redis he
    refine ⟨listed_env he ih.listed,ih.filed.env he hs,fun g id hid hx => ?_,?_⟩
    · rw [hr] at hx
      exact (ih.due g id (listed_back (env_grows he) (env_fresh he) ih.listed.2 hid) hx).imp_left
        (fun hb => hb.congr (by rw [hr]) hl)
    · rw [hr]
      exact ih.read

theorem next_due {g₀ g : Group} {ids : List String} {gs : List Group} (hd : g ∈ gs ∨ g = g₀ ∧ id ∈ ids) :
    (Reaping.next g₀ ids gs).due g id := by
  cases ids with
  | nil => exact hd.resolve_right (by simp)
  | cons i ids => exact hd

theorem due_rest {g₀ g : Group} {i : String} {ids : List String} {gs : List Group} (hne : id ≠ i)
    (hd : g ∈ gs ∨ g = g₀ ∧ id ∈ i :: ids) : (Reaping.next g₀ ids gs).due g id :=
  next_due (hd.imp_right (fun ⟨hg,hid⟩ => ⟨hg,(List.mem_cons.mp hid).resolve_left hne⟩))

theorem reported_served (hf : Reported (fun _ => False) ⟨o,r⟩) : Served o r := by
  obtain ⟨c,timed⟩ := o
  rintro e rfl
  cases c with
  | beginDelete c =>
    rcases hf with ⟨hx,_⟩ | ⟨_,he⟩
    · exact hx.elim
    · exact he e rfl
  | _ => cases hf

theorem reap_sessions (hm : ReapMove cfg st o r st') (ha : act rep t o w r h = some w') (oid s : Option String) (g : String) :
    w'.lookup (sessionKey cfg oid s g) = w.lookup (sessionKey cfg oid s g) := by
  refine lookup_congr (act_untouched ha (fun ht => ?_)) (act_now ha)
  cases hm with
  | claimed n r st hs => exact absurd ht.1 (key_ne (by simp))
  | unindexed g i ids gs u => exact absurd ht (key_ne (by simp))
  | unindexFailed g i ids gs e st hs => exact absurd ht (key_ne (by simp))
  | resigned n r => exact absurd ht.1 (key_ne (by simp))
  | _ => exact ht

section Step

variable (hi : Sweeping cfg w st) (hm : ReapMove cfg st o r st') (ha : act rep t o w r h = some w')
variable (hf : Reported (fun _ => False) ⟨o,r⟩)
include hi hm ha hf

theorem sweep_filed : Filed cfg (fun id => (Phase.reap st').forgets = some id) w' := by
  refine hi.filed.step (.reap st st' o r hm) ha (reported_served hf) ?_ ?_ (fun _ hx => .inr hx) (fun _ hx => hx)
  · rintro ctx command c ⟨⟩
  · intro id v ex ho
    cases hm <;> cases ho

theorem sweep_read {g : Group} {key : String} {ids : List String} {gs : List Group} (hst : st' = .peek g id key ids gs)
    {x : Entry} (hx : w'.redis (indexKey cfg id) = some x) : ∃ oid s gr, x = ⟨.binding oid s gr,none⟩ ∧ key = sessionKey cfg oid s gr := by
  have hold := reap_index hm ha hx
  cases hm with
  | managed g i ids gs oid s gr =>
    cases hst
    obtain ⟨hl,-⟩ := act_get ha
    rw [hi.filed.entry hold] at hl
    obtain ⟨-,⟨oid',s',gr',rfl⟩,-⟩ := hi.filed _ _ hold
    cases hl
    exact ⟨oid,s,gr,rfl,rfl⟩
  | listed g gs ids => cases ids <;> cases hst
  | unmanaged g i ids gs => cases ids <;> cases hst
  | alive g i key ids gs v hv => cases ids <;> cases hst
  | unindexed g i ids gs u => cases ids <;> cases hst
  | claimed n r st hs =>
    rcases hs with rfl | rfl
    · unfold reapStart at hst
      split at hst <;> cases hst
    · cases hst
  | _ =>
    first
      | (cases hst; done)
      | (rename_i hd; rcases hd with rfl | rfl <;> cases hst)

theorem sweep_due {g : Group} {x : Entry} (hid : id ∈ w.listed (cfg.groupNames g)) (hx : w.redis (indexKey cfg id) = some x)
    (hx' : w'.redis (indexKey cfg id) = some x) (hd : st.due g id) : Matched cfg w id ∨ st'.due g id := by
  have hlook := hi.filed.entry hx
  have hok : ∀ {c : Cmd} {b : Bool} {e : Exc}, (∀ x, c ≠ .beginDelete x) →
      ¬ Reported (fun _ => False) ⟨⟨c,b⟩,.error e⟩ := by
    intro c b e hc hf
    obtain ⟨_,ha⟩ := reported_ok hf hc
    cases ha
  cases hm with
  | drew n => exact .inr trivial
  | drawFailed e => exact .inr trivial
  | claimed n r st hs =>
    rcases hs with rfl | rfl
    · refine .inr ?_
      rw [reapStart,if_pos (hi.filed _ _ hx).1]
      cases g <;> simp [Reaping.due,Group.all]
    · exact .inr trivial
  | listed g₀ gs ids =>
    obtain ⟨rfl,-⟩ := act_list ha
    refine .inr (next_due ?_)
    rcases List.mem_cons.mp hd with rfl | hd
    · exact .inr ⟨rfl,hid⟩
    · exact .inl hd
  | listFailed g gs e st hs => exact absurd hf (hok (by simp))
  | managed g i ids gs oid s gr => exact .inr hd
  | unmanaged g₀ i ids gs =>
    refine .inr (due_rest ?_ hd)
    rintro rfl
    obtain ⟨hl,-⟩ := act_get ha
    rw [hlook] at hl
    cases hl
  | bindingFailed g i ids gs r st hs hbad =>
    obtain ⟨v,rfl⟩ := reported_ok hf (by simp)
    obtain ⟨y,rfl,hy⟩ := hbad v rfl
    obtain ⟨hl,-⟩ := act_get ha
    obtain ⟨z,hz,rfl,-⟩ := lookup_some hl.symm
    obtain ⟨-,⟨oid,s,gr,rfl⟩,-⟩ := hi.filed _ _ hz
    exact absurd rfl (hy oid s gr)
  | alive g₀ i key ids gs v hv =>
    by_cases hne : id = i
    · subst hne
      obtain ⟨oid,s,gr,rfl,rfl⟩ := hi.read _ _ _ _ _ rfl x hx
      obtain ⟨hl,-⟩ := act_get ha
      exact .inl ⟨oid,s,gr,hx,by rw [← hl]; exact asText_some hv⟩
    · exact .inr (due_rest hne hd)
  | orphan g i key ids gs v hv => exact .inr hd
  | peekFailed g i key ids gs e st hs => exact absurd hf (hok (by simp))
  | killed g i ids gs r hr => exact .inr hd
  | killFailed g i ids gs e st he hs => exact absurd (reported_served hf e rfl) he
  | unindexed g₀ i ids gs u =>
    refine .inr (due_rest ?_ hd)
    rintro rfl
    rw [act_del ha] at hx'
    exact (erase_redis hx').1 rfl
  | unindexFailed g i ids gs e st hs => exact absurd hf (hok (by simp))
  | resigned n r => exact .inr trivial

theorem Sweeping.act : Sweeping cfg w' st' where
  listed := listed_act ha hi.listed
  filed := sweep_filed hi hm ha hf
  read := fun g id key ids gs hst x hx => sweep_read hi hm ha hf hst hx
  due := by
    intro g id hid hx'
    obtain ⟨x,hx'⟩ := Option.ne_none_iff_exists'.mp hx'
    have hx := reap_index hm ha hx'
    have hback : w.boxes id = none → w'.boxes id = none := by
      intro hn
      cases hb : w'.boxes id with
      | none => rfl
      | some b =>
        obtain ⟨g,spec,ho,-⟩ := act_fresh ha hn hb
        cases hm <;> cases ho
    have hl := listed_back (act_grows ha) hback hi.listed.2 hid
    have hkeep : Matched cfg w id → Matched cfg w' id :=
      fun hb => hb.congr (hx'.trans hx.symm) (reap_sessions hm ha)
    rcases hi.due g id hl (by simp [hx]) with hb | hd
    · exact .inl (hkeep hb)
    · exact (sweep_due hi hm ha hf hl hx hx' hd).imp_left hkeep

end Step

theorem reapOrphans_sweeps {tr : Task.Played Op Op.Ans Exc} {res : Except Exc Unit} (hi : Sweeping cfg w (reapStart cfg))
    (ha : (machine rep).Alone (Drift cfg) t w (reapOrphans cfg) tr w' res)
    (hf : ∀ x ∈ tr, Reported (fun _ => False) x) : Sweeping cfg w' (.list []) := by
  have hdrift : ∀ st w w₁, Sweeping cfg w st → Drift cfg w w₁ → Sweeping cfg w₁ st ∧ Drift cfg w w₁ :=
    fun _ _ _ hi hd => ⟨hi.drift hd,hd⟩
  obtain ⟨_,hsweep,rfl,-⟩ := Machine.Alone.followed (I := fun w st => Sweeping cfg w st) hdrift
    (fun st st' w w' o r h hi hm hf ha => hi.act hm ha hf) (reapOrphans_follows cfg) hi ha hf
  exact hsweep

end Passing

section Resting

variable {cfg : Config} {jobs : Nat → Job} {rep : Nat → Nat} {now t : Nat} {s : System} {u : Unit} {w : World}
variable {tr : Task.Played Op Op.Ans Exc} {res : Except Exc Unit}

theorem job_opens (j : Job) {o : Op} (hn : (j.task cfg).next = some o) (k : String) : o.cmd ≠ .del k := by
  cases j with
  | getOrCreate ctx => cases hn; simp
  | exec ctx command => cases hn; simp
  | endSession oid sessionId => cases hn; simp
  | reaperRound =>
    obtain ⟨_,hm⟩ := (job_settles .reaperRound).next hn (.error .other)
    generalize hp : Job.reaperRound.phase cfg = p at hm
    simp only [Job.phase,reapPhase,reapStart] at hp
    subst hp
    split at hm
    · split at hm <;> cases hm with
      | reap st st' o r hr => cases hr; simp
    · cases hm with
      | reap st st' o r hr => cases hr; simp

-- No task is between its first call and its return.
def AtRest (cfg : Config) (jobs : Nat → Job) (s : System) : Prop :=
  ∀ t, (s.pool t).outcome.isSome = true ∨ s.pool t = (jobs t).task cfg

theorem rest_settled (hrest : AtRest cfg jobs s) {t : Nat} {p : Phase}
    (hp : Follows (PhaseMove cfg) p (s.pool t) (fun ph _ => ph.forgets = none)) : p.forgets = none := by
  rcases hrest t with hout | hstart
  · obtain ⟨x,hx⟩ := Option.isSome_iff_exists.mp hout
    exact hp.outcome hx
  · cases hn : (s.pool t).next with
    | some o =>
      obtain ⟨p',hm⟩ := hp.next hn (.error .other)
      by_contra hf
      obtain ⟨id,hid⟩ := Option.ne_none_iff_exists'.mp hf
      obtain ⟨k,hk⟩ := forgets_deletes hm hid
      exact job_opens (jobs t) (hstart ▸ hn) k hk
    | none =>
      cases hq : s.pool t with
      | ret x =>
        rw [hq] at hp
        exact hp
      | raise e =>
        rw [hq] at hp
        exact hp
      | call o k =>
        rw [hq] at hn
        cases hn

theorem rest_sweeping (hr : (machine rep).Run (Tidy cfg) (fun _ _ u => u) (start cfg jobs now) () s u)
    (hrest : AtRest cfg jobs s) : Sweeping cfg s.world (reapStart cfg) := by
  obtain ⟨ph,hi,hph⟩ := index_run hr
  have hfiled : ∀ F, Filed cfg F s.world := by
    intro F id x hx
    obtain ⟨hidx,hbind,hst⟩ := hi.filed id x hx
    refine ⟨hidx,hbind,.inl (hst.resolve_right ?_)⟩
    rintro ⟨i,hf⟩
    rw [rest_settled hrest (hph i)] at hf
    cases hf
  refine ⟨hi.listed,hfiled _,fun g id hid hx => .inr ?_,fun g id key ids gs hst => ?_⟩
  · obtain ⟨x,hx⟩ := Option.ne_none_iff_exists'.mp hx
    rw [reapStart,if_pos (hi.filed id x hx).1]
    cases g <;> simp [Reaping.due,Group.all]
  · unfold reapStart at hst
    split at hst <;> cases hst

-- After a pass over a system at rest the index holds exactly what the platform lists and a forward key binds.
theorem index_swept (hr : (machine rep).Run (Tidy cfg) (fun _ _ u => u) (start cfg jobs now) () s u)
    (hrest : AtRest cfg jobs s) (ha : (machine rep).Alone (Drift cfg) t s.world (reapOrphans cfg) tr w res)
    (hf : ∀ x ∈ tr, Reported (fun _ => False) x) :
    (∀ id v, w.lookup (indexKey cfg id) = some v → ∃ g, id ∈ w.listed (cfg.groupNames g)) ∧
      ∀ g id v, id ∈ w.listed (cfg.groupNames g) → w.lookup (indexKey cfg id) = some v →
        ∃ oid sid gr, v = .binding oid sid gr ∧ w.lookup (sessionKey cfg oid sid gr) = some (.text id) := by
  have hsweep := reapOrphans_sweeps (rest_sweeping hr hrest) ha hf
  refine ⟨fun id v hv => ?_,fun g id v hid hv => ?_⟩
  · obtain ⟨x,hx,-,-⟩ := lookup_some hv
    obtain ⟨-,-,hst | hforgets⟩ := hsweep.filed id x hx
    · exact hst.listed hsweep.listed.2
    · cases hforgets
  · obtain ⟨x,hx,rfl,-⟩ := lookup_some hv
    rcases hsweep.due g id hid (by simp [hx]) with ⟨oid,sid,gr,he,hl⟩ | hd
    · cases hx.symm.trans he
      exact ⟨oid,sid,gr,rfl,hl⟩
    · cases hd

end Resting

section Schedules

def onlyCalls : Nat → Job := fun t => .getOrCreate (sampleCalls t)

def ofFirst : Step → Bool
  | .task t _ _ _ => t == 0
  | .env _ => true

-- Every command is answered, and an entry is written only for a sandbox that is still there.
def tidyFirst (s : System) (_ : Unit) : Step → Bool
  | .task t o (.ok _) _ => t == 0 && match o.cmd with
    | .set k _ _ => decide (store k = store (indexKey sampleConfig "b1") → k = indexKey sampleConfig "b1" ∧
        (s.world.boxes "b1").any (fun b => !b.gone && !b.deleting && b.groupName == "sg-action") = true)
    | _ => true
  | .env (.tick _) => true
  | _ => false

theorem tidyFirst_tidy {s : System} {u : Unit} {l : Step} (hl : tidyFirst s u l = true) :
    Tidy sampleConfig s u l ∧ ofFirst l = true := by
  cases l with
  | env e =>
    cases e with
    | tick ms => exact ⟨.inl trivial,rfl⟩
    | _ => cases hl
  | task t o r h =>
    cases r with
    | error e => cases hl
    | ok a =>
      simp only [tidyFirst,Bool.and_eq_true] at hl
      refine ⟨⟨by rintro e ⟨⟩,fun id v ex ho => ?_⟩,hl.1⟩
      rw [ho] at hl
      obtain ⟨hk,hbox⟩ := of_decide_eq_true hl.2 (by simp)
      cases indexKey_injective sampleConfig hk
      obtain ⟨b,hb,hx⟩ := (Option.any_eq_true _ _).mp hbox
      simp only [Bool.and_eq_true,Bool.not_eq_true',beq_iff_eq] at hx
      exact ⟨b,hb,hx.1.1,hx.1.2,.action,hx.2⟩

theorem first_rests {adm : System → Unit → Step → Prop} {s : System} {u : Unit}
    (hadm : ∀ s u l, adm s u l → ofFirst l = true)
    (hr : (machine id).Run adm (fun _ _ u => u) (start sampleConfig onlyCalls 0) () s u)
    (hout : (s.pool 0).outcome.isSome = true) : AtRest sampleConfig onlyCalls s := by
  intro t
  by_cases ht : t = 0
  · exact .inl (ht ▸ hout)
  · refine .inr (hr.idle (fun s u o r h ha => ht ?_))
    simpa [ofFirst] using hadm _ _ _ ha

def livePass : List (Σ o : Op, Except Exc o.Ans × Hint) :=
  [plain (.listSandboxes "sg-diagnose") (.ok []),plain (.listSandboxes "sg-action") (.ok ["b1"]),
    plain (.get (indexKey sampleConfig "b1")) (.ok (some (.binding none (some "s1") "action"))),
    plain (.get (sessionKey sampleConfig none (some "s1") "action")) (.ok (some (.text "b1")))]

theorem livePass_reported : ∀ x ∈ Machine.played livePass, Reported (fun _ => False) x := by
  simp [Machine.played,livePass,plain,Reported,Except.isOk,Except.toBool]

theorem eq_drift (cfg : Config) (w w₁ : World) (h : w = w₁) : Drift cfg w w₁ := h ▸ .refl

theorem index_swept_live : ∃ s u w, (machine id).Run (Tidy sampleConfig) (fun _ _ u => u) (start sampleConfig onlyCalls 0) () s u ∧
    (machine id).Alone (Drift sampleConfig) 1 s.world (reapOrphans sampleConfig) (Machine.played livePass) w (.ok ()) ∧
    (∀ id v, w.lookup (indexKey sampleConfig id) = some v → ∃ g, id ∈ w.listed (sampleConfig.groupNames g)) ∧
      ∀ g id v, id ∈ w.listed (sampleConfig.groupNames g) → w.lookup (indexKey sampleConfig id) = some v →
        ∃ oid sid gr, v = .binding oid sid gr ∧ w.lookup (sessionKey sampleConfig oid sid gr) = some (.text id) := by
  obtain ⟨s,u,hr,hc⟩ : ∃ s u, (machine id).Run (fun s u l => Tidy sampleConfig s u l ∧ ofFirst l = true) (fun _ _ u => u)
      (start sampleConfig onlyCalls 0) () s u ∧ ((s.pool 0).outcome.isSome,
        ((machine id).alone 1 (reapOrphans sampleConfig) s.world livePass).map Prod.snd) = (true,some (.ok ())) :=
    Machine.replay_reaches tidyFirst (coldCall sampleConfig 0 (sampleCtx "s1" .action) "b1")
      (fun _ _ _ hl => tidyFirst_tidy hl) (by decide +kernel)
  obtain ⟨hout,hpass⟩ := Prod.mk.inj hc
  obtain ⟨⟨w,res⟩,hx,rfl⟩ := Option.map_eq_some_iff.mp hpass
  have hrun : (machine id).Run (Tidy sampleConfig) (fun _ _ u => u) (start sampleConfig onlyCalls 0) () s u :=
    hr.strengthen (fun _ _ _ _ h => h.1)
  have ha := (Machine.alone_of_play hx).mono (eq_drift sampleConfig)
  exact ⟨s,u,w,hrun,ha,index_swept hrun (first_rests (fun _ _ _ h => h.2) hr hout) ha livePass_reported⟩

def barePass : List (Σ o : Op, Except Exc o.Ans × Hint) :=
  [plain (.listSandboxes "sg-diagnose") (.ok []),plain (.listSandboxes "sg-action") (.ok [])]

-- A session expires, the platform deletes its idle sandbox, and no pass ever sees the entry again.
theorem index_keeps_dead : ∃ s u w, (machine id).Run (fun s u l => smooth s u l = true) (fun _ _ u => u)
      (start sampleConfig onlyCalls 0) () s u ∧ AtRest sampleConfig onlyCalls s ∧
    (machine id).Alone Eq 1 s.world (reapOrphans sampleConfig) (Machine.played barePass) w (.ok ()) ∧
    (∀ x ∈ Machine.played barePass, Reported (fun _ => False) x) ∧
    w.lookup (indexKey sampleConfig "b1") = some (.binding none (some "s1") "action") ∧
    ∀ g, "b1" ∉ w.listed (sampleConfig.groupNames g) := by
  obtain ⟨s,u,hr,hc⟩ : ∃ s u, (machine id).Run (fun s u l => smooth s u l = true ∧ ofFirst l = true) (fun _ _ u => u)
      (start sampleConfig onlyCalls 0) () s u ∧ ((s.pool 0).outcome.isSome,
        ((machine id).alone 1 (reapOrphans sampleConfig) s.world barePass).any (fun x => x.2 = .ok () ∧
          x.1.lookup (indexKey sampleConfig "b1") = some (.binding none (some "s1") "action") ∧
          x.1.listed "sg-diagnose" = [] ∧ x.1.listed "sg-action" = [])) = (true,true) :=
    Machine.replay_reaches (fun s u l => smooth s u l && ofFirst l)
      (coldCall sampleConfig 0 (sampleCtx "s1" .action) "b1" ++ [.env (.tick 3600000),.env (.vanish "b1")])
      (fun _ _ _ hl => by simpa using hl) (by decide +kernel)
  obtain ⟨hout,hpass⟩ := Prod.mk.inj hc
  obtain ⟨⟨w,res⟩,hx,hw⟩ := (Option.any_eq_true _ _).mp hpass
  obtain ⟨rfl,hentry,hdiag,hact⟩ := of_decide_eq_true hw
  refine ⟨s,u,w,hr.strengthen (fun _ _ _ _ h => h.1),first_rests (fun _ _ _ h => h.2) hr hout,Machine.alone_of_play hx,
    by simp [Machine.played,barePass,plain,Reported,Except.isOk,Except.toBool],hentry,?_⟩
  rintro (_ | _)
  · exact hdiag ▸ List.not_mem_nil
  · exact hact ▸ List.not_mem_nil

end Schedules

end IdentityAwareMcp
