import IdentityAwareMcp.Safety.Mutex

namespace IdentityAwareMcp

open Coop SandboxManager

section Invariant

variable {cfg : Config} {rep : Nat → Nat} {t : Nat} {o : Op} {r : Except Exc o.Ans} {h : Hint} {w w' : World}
variable {ph : Nat → Phase} {p p' : Phase} {ctx : SessionCtx} {command : Option String} {st st' : Stage}

def Up (w : World) (id : String) : Prop := ∃ b, w.boxes id = some b ∧ b.bootstrapped = true

theorem Up.mono {id : String} (hu : Up w id) (hg : w.Grows w') : Up w' id := by
  obtain ⟨b,hb,hup⟩ := hu
  obtain ⟨b',hb',hbb⟩ := hg id b hb
  exact ⟨b',hb',hbb.bootstrapped hup⟩

def MadeBy (w : World) (t : Nat) (id : String) : Prop := ∃ b, w.boxes id = some b ∧ b.creator = t

theorem MadeBy.mono {id : String} (hu : MadeBy w t id) (hg : w.Grows w') : MadeBy w' t id := by
  obtain ⟨b,hb,ht⟩ := hu
  obtain ⟨b',hb',hbb⟩ := hg id b hb
  exact ⟨b',hb',hbb.creator.trans ht⟩

@[simp] def Stage.ready : Stage → Option Client
  | .refresh c => some c
  | .wake c => some c
  | .mark c => some c
  | .done c => some c
  | .unlock res => res
  | .leave res => res
  | .left res => res
  | _ => none

@[simp] def Stage.fresh : Stage → Option Client
  | .poll c => some c
  | .policy c => some c
  | .publish c => some c
  | .record c => some c
  | .flag c => some c
  | .boot c => some c
  | _ => none

-- The routing key may map to a sandbox that is not bootstrapped.
@[simp] def Stage.exposes (id : String) : Stage → Prop
  | .record c => c.sandboxId = id
  | .flag c => c.sandboxId = id
  | .boot c => c.sandboxId = id
  | .rollback => True
  | _ => False

theorem exposes_inside {id : String} (he : st.exposes id) : st.inside = true := by
  cases st <;> first | rfl | cases he

theorem leaving_ready {res : Option Client} (hl : Leaving res st) : st.ready = res := by
  rcases hl with rfl | rfl <;> rfl

theorem leaving_fresh {res : Option Client} (hl : Leaving res st) : st.fresh = none := by
  rcases hl with rfl | rfl <;> rfl

theorem act_bootstrap {c : Client} {timed : Bool} {res : RawResult}
    (ha : act rep t ⟨.exec c bootstrapCommand,timed⟩ w (.ok res) h = some w') (h0 : res.boots = true) :
    Up w' c.sandboxId := by
  simp only [act] at ha
  split at ha
  · rename_i hp
    simp only [h0,decide_true,Bool.and_true,if_true] at ha
    cases ha
    simp only [World.present] at hp
    split at hp
    · rename_i b hb
      refine ⟨{ b with bootstrapped := true },?_,rfl⟩
      rw [modifyBox_boxes,if_pos rfl,hb]
      rfl
    · cases hp
  · cases ha

-- What is no Exception reaches an await by cancellation, or by a timer around it.
theorem act_cut {e : Exc} (ha : act rep t o w (.error e) h = some w') (he : e.isException = false)
    (ho : o.timed = false) : e = .cancelled := by
  cases e with
  | cancelled => rfl
  | deadline =>
    obtain ⟨c,b⟩ := o
    cases ho
    cases c <;> simp [act,Op.interrupts,redisFails,platformFails] at ha
  | _ => cases he

-- A call makes the sandbox it sets up.
def Fresh (w : World) (ph : Nat → Phase) : Prop :=
  ∀ t ctx command st c, ph t = .call ctx command st → st.fresh = some c → MadeBy w t c.sandboxId

theorem fresh_call (hi : Fresh w ph) (hp : ph t = .call ctx command st)
    (hcm : CallMove cfg ctx command st o r st') (ha : act rep t o w r h = some w') {c : Client}
    (hc : st'.fresh = some c) : MadeBy w' t c.sandboxId := by
  have hg := act_grows ha
  have hold : st.fresh = some c → MadeBy w' t c.sandboxId := fun hs => (hi t ctx command st c hp hs).mono hg
  cases hcm with
  | began spec x hsp =>
    cases hc
    obtain ⟨_,_,rfl⟩ := act_beginCreate ha
    exact ⟨_,by rw [create_boxes,if_pos rfl],rfl⟩
  | published x r st hr hst =>
    subst hst
    split at hc <;> exact hold hc
  | _ =>
    first
      | exact hold hc
      | cases hc
      | (rename_i hl; rw [leaving_fresh hl] at hc; cases hc)

theorem Fresh.step (hi : Fresh w ph) (hm : PhaseMove cfg (ph t) o r p) (ha : act rep t o w r h = some w') :
    Fresh w' (upd ph t p) := by
  intro i ctx command st c hp hc
  by_cases hit : i = t
  · subst hit
    rcases move_into hm (by simpa using hp) with ⟨st₀,hst₀,hcm⟩ | ⟨rfl,_⟩
    · exact fresh_call hi hst₀ hcm ha hc
    · cases hc
  · exact (hi i ctx command st c (by simpa [hit] using hp) hc).mono (act_grows ha)

structure Ready (cfg : Config) (rep : Nat → Nat) (w : World) (ph : Nat → Phase) : Prop where
  excludes : Excludes rep w ph
  flags : ∀ id e, w.redis (flagKey cfg id) = some e → e.val = .flag true → Up w id
  chosen : ∀ t ctx command st c, ph t = .call ctx command st → st.ready = some c → Up w c.sandboxId
  fresh : Fresh w ph
  bound : ∀ ctx e id, w.redis (ctxKey cfg ctx) = some e → e.val = .text id → Up w id ∨
    ∃ t ctx' command st, ph t = .call ctx' command st ∧ routingKey ctx' = routingKey ctx ∧ st.exposes id ∧
      MadeBy w t id

-- The routing key maps to a sandbox that task t made and has not bootstrapped.
def Unready (cfg : Config) (w : World) (t : Nat) (ctx : SessionCtx) : Prop :=
  ∃ e id, w.redis (ctxKey cfg ctx) = some e ∧ e.val = .text id ∧ MadeBy w t id ∧ ¬ Up w id

theorem hit_up (hrep : ∀ i j, rep i = rep j) (hi : Ready cfg rep w ph) (hp : ph t = .call ctx command .look)
    {id : String} (hl : w.lookup (ctxKey cfg ctx) = some (.text id)) : Up w id := by
  obtain ⟨e,he,hv,_⟩ := lookup_some hl
  rcases hi.bound ctx e id he hv with hu | ⟨i,ctx',command',st,hpi,hk,hex,_⟩
  · exact hu
  · have hmine := hi.excludes t ctx command .look hp rfl
    have htheirs := hi.excludes i ctx' command' st hpi (exposes_inside hex)
    rw [hk,hrep i t,hmine] at htheirs
    cases htheirs
    rw [hp] at hpi
    cases hpi
    cases hex

theorem flagged_up (hi : Ready cfg rep w ph) {id : String}
    (hl : w.lookup (flagKey cfg id) = some (.flag true)) : Up w id := by
  obtain ⟨e,he,hv,_⟩ := lookup_some hl
  exact hi.flags id e he hv

theorem chosen_step (hrep : ∀ i j, rep i = rep j) (hi : Ready cfg rep w ph)
    (hp : ph t = .call ctx command st) (hcm : CallMove cfg ctx command st o r st')
    (ha : act rep t o w r h = some w') {c : Client} (hc : st'.ready = some c) : Up w' c.sandboxId := by
  have hg := act_grows ha
  have hold : st.ready = some c → Up w' c.sandboxId := fun hs => (hi.chosen t ctx command st c hp hs).mono hg
  cases hcm with
  | hit v id hv =>
    obtain ⟨hl,rfl⟩ := act_get ha
    cases hc
    rw [asText_some hv] at hl
    exact hit_up hrep hi hp hl.symm
  | flagged x st hl =>
    rw [leaving_ready hl] at hc
    cases hc
    exact (flagged_up hi (act_get ha).1.symm).mono hg
  | booted x res h0 =>
    cases hc
    exact act_bootstrap ha h0
  | published x r st hr hst =>
    subst hst
    split at hc <;> cases hc
  | _ =>
    first
      | exact hold hc
      | cases hc
      | (rename_i hl; rw [leaving_ready hl] at hc; first | exact hold hc | cases hc)

theorem act_del {k : String} {timed : Bool} {u : Unit} (ha : act rep t ⟨.del k,timed⟩ w (.ok u) h = some w') :
    w' = w.erase k := by
  cases ha
  rfl

theorem act_del_failed {k : String} {timed : Bool} {e : Exc}
    (ha : act rep t ⟨.del k,timed⟩ w (.error e) h = some w') : e = .redis ∨ e.isException = false := by
  cases e <;> first | exact .inl rfl | exact .inr rfl | simp [act,redisFails,Op.interrupts] at ha

theorem exposed_step (hi : Ready cfg rep w ph) (hcm : CallMove cfg ctx command st o r st')
    (ha : act rep t o w r h = some w') (hredis : r ≠ .error .redis)
    (hcut : r = .error .cancelled → ¬ Unready cfg w' t ctx) {e : Entry} {id : String} (hex : st.exposes id)
    (hmade : MadeBy w t id) (he : w'.redis (ctxKey cfg ctx) = some e) (hv : e.val = .text id) :
    Up w' id ∨ st'.exposes id := by
  have hg := act_grows ha
  have hcancel : r = .error .cancelled → Up w' id := by
    intro hr
    by_contra hu
    exact hcut hr ⟨e,id,he,hv,hmade.mono hg,hu⟩
  cases hcm with
  | recorded c r hr => exact .inr hex
  | recordCut c x st hx hl =>
    cases act_cut ha hx rfl
    exact .inl (hcancel rfl)
  | flagged c st hl =>
    cases hex
    exact .inl ((flagged_up hi (act_get ha).1.symm).mono hg)
  | unflagged c v hv => exact .inr hex
  | flagFailed c x hx => exact .inr hex
  | flagCut c x st hx hl =>
    cases act_cut ha hx rfl
    exact .inl (hcancel rfl)
  | booted c res h0 =>
    cases hex
    exact .inl (act_bootstrap ha h0)
  | bootRefused c res h0 => exact .inr trivial
  | bootFailed c x hx => exact .inr trivial
  | bootCut c x st hx hl =>
    cases act_cut ha hx rfl
    exact .inl (hcancel rfl)
  | rolledBack r st hl =>
    cases r with
    | ok u =>
      rw [act_del ha] at he
      exact absurd rfl (erase_redis he).1
    | error x =>
      rcases act_del_failed ha with rfl | hx
      · exact absurd rfl hredis
      · cases act_cut ha hx rfl
        exact .inl (hcancel rfl)
  | _ => cases hex

-- A sandbox just published is exposed, unless the publication was cut off.
theorem published_step {c : Client} (hcm : CallMove cfg ctx command (.publish c) o r st')
    (ha : act rep t o w r h = some w') (hcut : r = .error .cancelled → ¬ Unready cfg w' t ctx) {e : Entry}
    (hmade : MadeBy w t c.sandboxId) (he : w'.redis (ctxKey cfg ctx) = some e)
    (hv : e.val = .text c.sandboxId) : Up w' c.sandboxId ∨ st'.exposes c.sandboxId := by
  cases hcm with
  | published c r st hr hst =>
    subst hst
    refine .inr ?_
    split <;> rfl
  | publishCut c x st hx hl =>
    cases act_cut ha hx rfl
    refine .inl ?_
    by_contra hu
    exact hcut rfl ⟨e,_,he,hv,hmade.mono (act_grows ha),hu⟩

theorem move_flags (hm : PhaseMove cfg p o r p') {k : String} {ex : Option Nat}
    (ho : o.cmd = .set k (.flag true) ex) :
    ∃ ctx command c, p = .call ctx command (.mark c) ∧ k = flagKey cfg c.sandboxId := by
  cases hm with
  | call ctx command st st' o r hc =>
    cases hc with
    | marked c r st hr hl => cases ho; exact ⟨ctx,command,c,rfl,rfl⟩
    | markCut c e st he hl => cases ho; exact ⟨ctx,command,c,rfl,rfl⟩
    | prepared c r hp => cases ho; cases hp
    | prepFailed c r st hp hl => cases ho; cases hp
    | _ => cases ho
  | ending oid s st st' o r he => cases he <;> cases ho
  | reap st st' o r hr => cases hr <;> cases ho
  | resolveFailed v oid st e hv => cases st <;> cases ho
  | _ => cases ho

theorem flags_step (hi : Ready cfg rep w ph) (hm : PhaseMove cfg (ph t) o r p)
    (ha : act rep t o w r h = some w') {id : String} {e : Entry} (he : w'.redis (flagKey cfg id) = some e)
    (hv : e.val = .flag true) : Up w' id := by
  have hg := act_grows ha
  rcases act_entry ha he with he | hw
  · exact (hi.flags id e he hv).mono hg
  · cases ho : o.cmd with
    | set k v ex =>
      rw [ho] at hw
      obtain ⟨rfl,rfl⟩ := hw
      cases hv
      obtain ⟨ctx,command,c,hp,hk⟩ := move_flags hm ho
      cases flagKey_injective cfg hk
      exact (hi.chosen t ctx command _ c hp rfl).mono hg
    | setNx k v ex =>
      rw [ho] at hw
      obtain ⟨_,n,rfl⟩ := move_claims hm ho
      rw [hw.2] at hv
      cases hv
    | lockRedis k ttl =>
      rw [ho] at hw
      rw [hw.2] at hv
      cases hv
    | _ =>
      rw [ho] at hw
      cases hw

theorem Ready.step (hrep : ∀ i j, rep i = rep j) (hi : Ready cfg rep w ph) (hm : PhaseMove cfg (ph t) o r p)
    (ha : act rep t o w r h = some w') (hredis : r ≠ .error .redis)
    (hcut : ∀ ctx command st, ph t = .call ctx command st → r = .error .cancelled → ¬ Unready cfg w' t ctx) :
    Ready cfg rep w' (upd ph t p) := by
  have hg := act_grows ha
  refine ⟨hi.excludes.step hm ha,fun id e he hv => flags_step hi hm ha he hv,?_,hi.fresh.step hm ha,?_⟩
  · intro i ctx command st c hp hc
    by_cases hit : i = t
    · subst hit
      rcases move_into hm (by simpa using hp) with ⟨st₀,hst₀,hcm⟩ | ⟨rfl,_⟩
      · exact chosen_step hrep hi hst₀ hcm ha hc
      · cases hc
    · exact (hi.chosen i ctx command st c (by simpa [hit] using hp) hc).mono hg
  · intro ctx e id he hv
    rcases act_entry ha he with hold | hw
    · rcases hi.bound ctx e id hold hv with hu | ⟨i,ctx',command,st,hp,hk,hex,hmade⟩
      · exact .inl (hu.mono hg)
      · by_cases hit : i = t
        · subst hit
          obtain ⟨st',hp',hcm⟩ := move_call hm hp
          have hkey : ctxKey cfg ctx' = ctxKey cfg ctx := by rw [ctxKey_eq,ctxKey_eq,hk]
          rcases exposed_step hi hcm ha hredis (hcut _ _ _ hp) hex hmade (hkey ▸ he) hv with hu | hex'
          · exact .inl hu
          · exact .inr ⟨i,ctx',command,st',by simp [hp'],hk,hex',hmade.mono hg⟩
        · exact .inr ⟨i,ctx',command,st,by simpa [hit] using hp,hk,hex,hmade.mono hg⟩
    · obtain ⟨_,ctx',command,st,c,hp,hk,rfl,hst⟩ := writes_text hm hw hv
      rcases hst with rfl | rfl
      · exact .inl ((hi.chosen t ctx' command _ c hp rfl).mono hg)
      · obtain ⟨st',hp',hcm⟩ := move_call hm hp
        have hkey : ctxKey cfg ctx' = ctxKey cfg ctx := by rw [ctxKey_eq,ctxKey_eq,hk]
        have hmade := hi.fresh t ctx' command _ c hp rfl
        rcases published_step hcm ha (hcut _ _ _ hp) hmade (hkey ▸ he) hv with hu | hex'
        · exact .inl hu
        · exact .inr ⟨t,ctx',command,st',by simp [hp'],hk,hex',hmade.mono hg⟩

theorem Ready.env {e : Env} (hi : Ready cfg rep w ph) (he : env e w = some w') : Ready cfg rep w' ph := by
  have hg := env_grows he
  refine ⟨?_,?_,?_,?_,?_⟩
  · intro i ctx command st hp hst
    rw [env_locks he]
    exact hi.excludes i ctx command st hp hst
  · intro id x hx hv
    rw [env_redis he] at hx
    exact (hi.flags id x hx hv).mono hg
  · intro i ctx command st c hp hc
    exact (hi.chosen i ctx command st c hp hc).mono hg
  · intro i ctx command st c hp hc
    exact (hi.fresh i ctx command st c hp hc).mono hg
  · intro ctx x id hx hv
    rw [env_redis he] at hx
    rcases hi.bound ctx x id hx hv with hu | ⟨i,ctx',command,st,hp,hk,hex,hmade⟩
    · exact .inl (hu.mono hg)
    · exact .inr ⟨i,ctx',command,st,hp,hk,hex,hmade.mono hg⟩

end Invariant

section Runs

variable {cfg : Config} {calls : Nat → SessionCtx} {now : Nat}

-- One replica, Redis answering, and no call cancelled at an await that leaves its
-- routing key mapped to a sandbox which it made and has not bootstrapped.
def CutSafely (cfg : Config) (calls : Nat → SessionCtx) (s : System) (_ : Unit) : Step → Prop
  | .task t o (.error e) h => e ≠ .redis ∧ (e = .cancelled → ∀ w, act (fun _ => 0) t o s.world (.error e) h = some w →
      ¬ Unready cfg w t (calls t))
  | _ => True

theorem ready_run {s : System} {u : Unit}
    (hr : (machine (fun _ => 0)).Run (CutSafely cfg calls) (fun _ _ u => u)
      (start cfg (fun t => .getOrCreate (calls t)) now) () s u) :
    ∃ ph, (Ready cfg (fun _ => 0) s.world ph ∧ ∀ t, (Job.getOrCreate (calls t)).At (ph t)) ∧
      ∀ t, Follows (PhaseMove cfg) (ph t) (s.pool t) Finished := by
  refine hr.tracked (I := fun w _ ph => Ready cfg (fun _ => 0) w ph ∧ ∀ t, (Job.getOrCreate (calls t)).At (ph t))
    (fun t => (Job.getOrCreate (calls t)).phase cfg) (fun t => job_follows cfg _) ?_ ?_ ?_
  · refine ⟨⟨?_,?_,?_,?_,?_⟩,fun t => job_at_phase _⟩
    · intro t ctx command st hp hst
      cases start_call hp
      cases hst
    · intro id e he
      cases he
    · intro t ctx command st c hp hc
      cases start_call hp
      cases hc
    · intro t ctx command st c hp hc
      cases start_call hp
      cases hc
    · intro ctx e id he
      cases he
  · intro s u ph t o r h w p hi hph hadm hm ha
    refine ⟨hi.1.step (fun _ _ => rfl) hm ha ?_ ?_,forall_upd (job_at_move (hi.2 t) hm) hi.2⟩
    · rintro rfl
      exact hadm.1 rfl
    · intro ctx command st hp hr
      subst hr
      have hctx := (hi.2 t).2 _ _ _ hp
      cases hctx
      exact hadm.2 rfl w ha
  · intro s u ph e w hi _ he
    exact ⟨hi.1.env he,hi.2⟩

theorem handed_out_bootstrapped {s : System} {u : Unit}
    (hr : (machine (fun _ => 0)).Run (CutSafely cfg calls) (fun _ _ u => u)
      (start cfg (fun t => .getOrCreate (calls t)) now) () s u) (t : Nat) (c : Client)
    (hc : (s.pool t).outcome = some (.ok (.client c))) :
    ∃ b, s.world.boxes c.sandboxId = some b ∧ b.bootstrapped = true := by
  obtain ⟨ph,hi,hph⟩ := ready_run hr
  obtain ⟨ctx,command,hp⟩ := (hph t).outcome hc
  exact hi.1.chosen t ctx command _ c hp rfl

end Runs

section Schedules

def smooth {γ : Type} (_ : System) (_ : γ) : Step → Bool
  | .task _ _ (.error _) _ => false
  | _ => true

def redisAnswers {γ : Type} (_ : System) (_ : γ) : Step → Bool
  | .task _ _ (.error e) _ => decide (e ≠ .redis)
  | _ => true

def sampleCalls : Nat → SessionCtx := fun _ => sampleCtx "s1" .action

theorem handed_out_bootstrapped_cold : ∃ s u,
    (machine (fun _ => 0)).Run (CutSafely sampleConfig sampleCalls) (fun _ _ u => u)
      (start sampleConfig (fun t => .getOrCreate (sampleCalls t)) 0) () s u ∧
    (s.pool 0).outcome = some (.ok (.client ⟨"sg-action","b1"⟩)) ∧
    ∃ b, s.world.boxes "b1" = some b ∧ b.bootstrapped = true := by
  obtain ⟨s,u,hr,hc⟩ : ∃ s u, (machine (fun _ => 0)).Run (CutSafely sampleConfig sampleCalls) (fun _ _ u => u)
      (start sampleConfig (fun t => .getOrCreate (sampleCalls t)) 0) () s u ∧
      (s.pool 0).outcome = some (.ok (.client ⟨"sg-action","b1"⟩)) := by
    refine Machine.replay_reaches smooth (coldCall sampleConfig 0 (sampleCtx "s1" .action) "b1") ?_
      (by decide +kernel)
    intro s u l hl
    cases l with
    | task t o r h =>
      cases r with
      | ok a => trivial
      | error e => cases hl
    | env e => trivial
  exact ⟨s,u,hr,hc,handed_out_bootstrapped hr 0 _ hc⟩

-- A call cancelled while its bootstrap runs leaves the routing key behind; the next
-- call of the session is handed the sandbox.
def cutBootstrap (cfg : Config) (ctx : SessionCtx) (id : String) : List Step :=
  let c : Client := ⟨cfg.groupNames ctx.group,id⟩
  [answers 0 (.acquire (routingKey ctx)) (),answers 0 (.get (ctxKey cfg ctx)) none] ++ creation cfg 0 ctx id ++
    (publication cfg 0 ctx id).take 3 ++
    [.task 0 ⟨.exec c bootstrapCommand,false⟩ (.error .cancelled) ⟨false,""⟩,
      answers 0 (.release (routingKey ctx)) (),answers 1 (.acquire (routingKey ctx)) (),
      answers 1 (.get (ctxKey cfg ctx)) (some (.text id)),
      answers 1 (.set (ctxKey cfg ctx) (.text id) cfg.sessions.ttl) (),answers 1 (.ensureRunning c) (),
      answers 1 (.release (routingKey ctx)) ()]

theorem handed_out_unbootstrapped : ∃ s u,
    (machine (fun _ => 0)).Run (fun s u l => redisAnswers s u l = true) (fun _ _ u => u)
      (start sampleConfig (fun t => .getOrCreate (sampleCalls t)) 0) () s u ∧
    ∃ c, (s.pool 1).outcome = some (.ok (.client c)) ∧
      (s.world.boxes c.sandboxId).map Box.bootstrapped = some false := by
  obtain ⟨s,u,hr,hc⟩ : ∃ s u, (machine (fun _ => 0)).Run (fun s u l => redisAnswers s u l = true) (fun _ _ u => u)
      (start sampleConfig (fun t => .getOrCreate (sampleCalls t)) 0) () s u ∧
      ((s.pool 1).outcome,(s.world.boxes "b1").map Box.bootstrapped) =
        (some (.ok (.client ⟨"sg-action","b1"⟩)),some false) :=
    Machine.replay_reaches redisAnswers (cutBootstrap sampleConfig (sampleCtx "s1" .action) "b1")
      (fun _ _ _ hl => hl) (by decide +kernel)
  obtain ⟨hout,hbox⟩ := Prod.mk.inj hc
  exact ⟨s,u,hr,_,hout,hbox⟩

end Schedules

end IdentityAwareMcp
