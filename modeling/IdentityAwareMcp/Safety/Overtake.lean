import IdentityAwareMcp.Safety.Refresh

namespace IdentityAwareMcp

open Coop SandboxManager

section History

def Answers : Step → Prop
  | .task _ _ r _ => ∀ e, r = .error e → e ≠ .redis
  | .env _ => True

-- The sandbox id a call has last read or written under its routing key, and until when
-- another id, which another call has put in its place, lasts.
structure Claim where
  own : Option String
  rival : Option Nat

variable (cfg : Config) (jobs : Nat → Job)

def routes (i : Nat) (k : String) : Bool := decide ((jobs i).ctx.map (ctxKey cfg) = some k)

def Claim.written (c : Claim) (mine : Bool) (id : String) (expiry : Option Nat) : Claim :=
  if mine = true ∨ c.own = some id then ⟨some id,none⟩ else ⟨c.own,expiry⟩

def overtake (s : System) (l : Step) (g : Nat → Claim) : Nat → Claim :=
  match l with
  | .task t ⟨.get k,_⟩ (.ok v) _ =>
    match v.bind Value.asText with
    | some id => if routes cfg jobs t k then upd g t ⟨some id,none⟩ else g
    | none => g
  | .task t ⟨.set k (.text id) ex,_⟩ r h => fun i =>
    if applied r h && routes cfg jobs i k then
      (g i).written (decide (i = t)) id (ex.map (fun n => s.world.now + n * 1000))
    else g i
  | .task _ ⟨.del k,_⟩ r h => fun i => if applied r h && routes cfg jobs i k then ⟨(g i).own,none⟩ else g i
  | _ => g

-- The stages in which the call has read or written its routing key.
@[simp] def Stage.claims : Stage → Bool
  | .refresh _ => true
  | .wake _ => true
  | .unbind => true
  | .record _ => true
  | .flag _ => true
  | .boot _ => true
  | .rollback => true
  | _ => false

def Claim.Stands (c : Claim) (e : Option Entry) : Prop := ∀ id, c.own = some id →
  match c.rival with
  | none => ∀ x, e = some x → x.val = .text id
  | some d => ∃ id', id' ≠ id ∧ e = some ⟨.text id',some d⟩

structure Claiming (w : World) (g : Nat → Claim) (ph : Nat → Phase) : Prop where
  posts : ∀ t, (jobs t).At (ph t)
  calls : ∀ t ctx, (jobs t).ctx = some ctx → ∃ command st, ph t = .call ctx command st
  chosen : ∀ t ctx command st, ph t = .call ctx command st → st.claims = true → (g t).own ≠ none
  stands : ∀ i k, routes cfg jobs i k = true → (g i).Stands (w.redis k)

end History

section Steps

variable {cfg : Config} {jobs : Nat → Job} {rep : Nat → Nat} {t : Nat} {o : Op} {r : Except Exc o.Ans} {h : Hint}
variable {w w' : World} {ph : Nat → Phase} {p p' : Phase} {g : Nat → Claim} {ctx : SessionCtx} {command : Option String}
variable {st st' : Stage}

theorem store_same {k : String} {v : Value} {ex : Option Nat} :
    (w.store k v ex).redis k = some ⟨v,ex.map (fun n => w.now + n * 1000)⟩ := upd_same _ _ _

theorem erase_same {k : String} : (w.erase k).redis k = none := upd_same _ _ _

theorem touch_kinds (hm : PhaseMove cfg p o r p') {x : SessionCtx} (ht : Touches t w o.cmd (ctxKey cfg x)) :
    (∃ id, o.cmd = .set (ctxKey cfg x) (.text id) cfg.sessions.ttl) ∨ o.cmd = .del (ctxKey cfg x) := by
  rcases touches_ctx hm ht with ⟨_,_,_,c,_,_,ho,_⟩ | ⟨_,_,_,_,_,ho,_⟩ | ⟨oid,sid,st,rfl⟩
  · exact .inl ⟨_,ho⟩
  · exact .inr ho
  · cases hm with
    | ending _ _ _ _ _ _ he =>
      cases he with
      | unbound g id gs r st hst => exact .inr (congrArg Cmd.del ht)
      | unindexed g id gs r st hst => exact .inr (congrArg Cmd.del ht)
      | _ => exact ht.elim

theorem routes_unique {i : Nat} {k k' : String} (hk : routes cfg jobs i k = true) (hk' : routes cfg jobs i k' = true) :
    k' = k := by
  simp only [routes,decide_eq_true_eq] at hk hk'
  exact Option.some.inj (hk'.symm.trans hk)

theorem routes_ctx {i : Nat} {k : String} (hk : routes cfg jobs i k = true) :
    ∃ x, (jobs i).ctx = some x ∧ k = ctxKey cfg x := by
  simp only [routes,decide_eq_true_eq,Option.map_eq_some_iff] at hk
  obtain ⟨x,hx,rfl⟩ := hk
  exact ⟨x,hx,rfl⟩

theorem stands_read {id : String} {e : Option Entry} (he : ∀ x, e = some x → x.val = .text id) :
    (Claim.mk (some id) none).Stands e := by
  intro id' hid
  cases hid
  exact he

theorem written_stands {c : Claim} {mine : Bool} {id : String} {d : Nat} :
    (c.written mine id (some d)).Stands (some ⟨.text id,some d⟩) := by
  unfold Claim.written
  split
  · refine stands_read ?_
    rintro x ⟨⟩
    rfl
  · rename_i hno
    intro id' hid
    refine ⟨id,?_,rfl⟩
    rintro rfl
    exact hno (.inr hid)

theorem erased_stands {c : Claim} : (Claim.mk c.own none).Stands none := by
  intro id _ x hx
  cases hx

theorem stands_step {s : System} (hi : ∀ i k, routes cfg jobs i k = true → (g i).Stands (s.world.redis k))
    (hm : PhaseMove cfg (ph t) o r p) (ha : act rep t o s.world r h = some w') {i : Nat} {k : String}
    (hk : routes cfg jobs i k = true) : (overtake cfg jobs s (.task t o r h) g i).Stands (w'.redis k) := by
  have hold := hi i k hk
  obtain ⟨x,hx,rfl⟩ := routes_ctx hk
  obtain ⟨c,timed⟩ := o
  by_cases ht : Touches t s.world c (ctxKey cfg x)
  · rcases touch_kinds hm ht with ⟨id,ho⟩ | ho
    · cases ho
      rw [act_set_applied ha]
      simp only [overtake,hk,Bool.and_true]
      split
      · rw [store_same]
        exact written_stands
      · exact hold
    · cases ho
      rw [act_del_applied ha]
      simp only [overtake,hk,Bool.and_true]
      split
      · rw [erase_same]
        exact erased_stands
      · exact hold
  · rw [act_untouched ha ht]
    cases c with
    | get k =>
      cases r with
      | error e => exact hold
      | ok v =>
        cases hv : Option.bind v Value.asText with
        | none =>
          simp only [overtake,hv]
          exact hold
        | some id =>
          simp only [overtake,hv]
          split
          · rename_i hr
            by_cases hit : i = t
            · subst hit
              cases routes_unique hk hr
              obtain ⟨hl,_⟩ := act_get ha
              rw [asText_some hv] at hl
              obtain ⟨e,he,hval,_⟩ := lookup_some hl.symm
              rw [upd_same,he]
              refine stands_read ?_
              rintro y ⟨⟩
              exact hval
            · rw [upd_other _ _ hit]
              exact hold
          · exact hold
    | set k v ex =>
      cases v with
      | text id =>
        simp only [overtake]
        split
        · rename_i hr
          simp only [Bool.and_eq_true] at hr
          exact absurd (routes_unique hk hr.2) ht
        · exact hold
      | _ => exact hold
    | del k =>
      simp only [overtake]
      split
      · rename_i hr
        simp only [Bool.and_eq_true] at hr
        exact absurd (routes_unique hk hr.2) ht
      · exact hold
    | _ => exact hold

theorem own_kept {s : System} {i : Nat} (hi : (g i).own ≠ none) :
    (overtake cfg jobs s (.task t o r h) g i).own ≠ none := by
  obtain ⟨c,timed⟩ := o
  cases c with
  | get k =>
    cases r with
    | error e => exact hi
    | ok v =>
      cases hv : Option.bind v Value.asText with
      | none =>
        simp only [overtake,hv]
        exact hi
      | some id =>
        simp only [overtake,hv]
        split
        · by_cases hit : i = t
          · subst hit
            rw [upd_same]
            exact Option.some_ne_none _
          · rwa [upd_other _ _ hit]
        · exact hi
  | set k v ex =>
    cases v with
    | text id =>
      simp only [overtake,Claim.written]
      split
      · split
        · exact Option.some_ne_none _
        · exact hi
      · exact hi
    | _ => exact hi
  | del k =>
    simp only [overtake]
    split <;> exact hi
  | _ => exact hi

theorem set_answered {k : String} {v : Value} {ex : Option Nat} {e : Exc}
    (ha : act rep t ⟨.set k v ex,false⟩ w (.error e) h = some w') (he : e ≠ .redis) : e.isException = false := by
  simp only [act] at ha
  split at ha
  · rename_i hf
    cases e <;> first | rfl | simp_all [redisFails,Op.interrupts]
  · cases ha

-- A call comes to such a stage from another one, or by reading or writing its key.
theorem call_claims {s : System} (hm : CallMove cfg ctx command st o r st') (ha : act rep t o s.world r h = some w')
    (hr : ∀ e, r = .error e → e ≠ .redis) (hk : routes cfg jobs t (ctxKey cfg ctx) = true) (hst' : st'.claims = true) :
    st.claims = true ∨ (overtake cfg jobs s (.task t o r h) g t).own ≠ none := by
  cases hm with
  | hit v id hv =>
    refine .inr ?_
    simp only [overtake,hv,hk,if_true,upd_same]
    exact Option.some_ne_none _
  | published c r st hx hst =>
    refine .inr ?_
    cases r with
    | error e => exact absurd (set_answered ha (hr e rfl)) (by simp [hx e rfl])
    | ok u =>
      simp only [overtake,applied,hk,Claim.written]
      simp
  | refreshed c u => exact .inl rfl
  | stale c => exact .inl rfl
  | recorded c r hx => exact .inl rfl
  | unflagged c v hv => exact .inl rfl
  | flagFailed c e he => exact .inl rfl
  | bootRefused c res hb => exact .inl rfl
  | bootFailed c e he => exact .inl rfl
  | _ =>
    first
      | cases hst'
      | (rename_i hl; rcases hl with rfl | rfl <;> cases hst')

theorem Claiming.step {s : System} (hi : Claiming cfg jobs s.world g ph) (hm : PhaseMove cfg (ph t) o r p)
    (ha : act rep t o s.world r h = some w') (hr : ∀ e, r = .error e → e ≠ .redis) :
    Claiming cfg jobs w' (overtake cfg jobs s (.task t o r h) g) (upd ph t p) := by
  have hposts : ∀ i, (jobs i).At (upd ph t p i) := by
    intro i
    by_cases hit : i = t
    · subst hit
      rw [upd_same]
      exact job_at_move (hi.posts i) hm
    · rw [upd_other _ _ hit]
      exact hi.posts i
  refine ⟨hposts,fun i ctx hctx => ?_,?_,fun i k hk => stands_step hi.stands hm ha hk⟩
  · obtain ⟨command,st,hp⟩ := hi.calls i ctx hctx
    by_cases hit : i = t
    · subst hit
      obtain ⟨st',rfl,_⟩ := move_call hm hp
      exact ⟨command,st',upd_same _ _ _⟩
    · exact ⟨command,st,(upd_other _ _ hit).trans hp⟩
  intro i ctx command st hp hst
  by_cases hit : i = t
  · subst hit
    have hk : routes cfg jobs i (ctxKey cfg ctx) = true := by
      simp only [routes,(hposts i).2 _ _ _ hp,Option.map_some,decide_true]
    rw [upd_same] at hp
    rcases move_into hm hp with ⟨st₀,hst₀,hcm⟩ | ⟨rfl,_⟩
    · rcases call_claims (g := g) hcm ha hr hk hst with hc | hc
      · exact own_kept (hi.chosen i ctx command st₀ hst₀ hc)
      · exact hc
    · cases hst
  · rw [upd_other _ _ hit] at hp
    exact own_kept (hi.chosen i ctx command st hp hst)

theorem job_calls {j : Job} (hj : j.ctx = some ctx) : ∃ command st, j.phase cfg = .call ctx command st := by
  cases j with
  | getOrCreate x =>
    cases hj
    exact ⟨_,_,rfl⟩
  | exec x command =>
    cases hj
    exact ⟨_,_,rfl⟩
  | _ => cases hj

theorem claiming_run {now : Nat} {s : System}
    (hr : (machine rep).Run (fun _ _ l => Answers l) (overtake cfg jobs) (start cfg jobs now) (fun _ => ⟨none,none⟩) s g) :
    ∃ ph, Claiming cfg jobs s.world g ph ∧ ∀ t, Follows (PhaseMove cfg) (ph t) (s.pool t) Finished := by
  refine hr.tracked (I := Claiming cfg jobs) (fun t => (jobs t).phase cfg) (fun t => job_follows cfg (jobs t)) ?_ ?_ ?_
  · refine ⟨fun t => job_at_phase (jobs t),fun t ctx hctx => job_calls hctx,fun t ctx command st hp hst => ?_,fun i k _ id hid => by cases hid⟩
    cases start_call hp
    cases hst
  · intro s g ph t o r h w p hi _ hadm hm ha
    exact hi.step hm ha hadm
  · intro s g ph e w hi _ he
    refine ⟨hi.posts,hi.calls,hi.chosen,fun i k hk => ?_⟩
    rw [env_redis he]
    exact hi.stands i k hk

theorem call_deletes (hm : CallMove cfg ctx command st o r st') {k : String} (ho : o.cmd = .del k) :
    k = ctxKey cfg ctx ∧ st.claims = true := by
  cases hm with
  | prepared c r hp => cases ho; cases hp
  | prepFailed c r st hp hl => cases ho; cases hp
  | unbound u => cases ho; exact ⟨rfl,rfl⟩
  | unbindFailed e he => cases ho; exact ⟨rfl,rfl⟩
  | unbindCut e st he hl => cases ho; exact ⟨rfl,rfl⟩
  | rolledBack r st hl => cases ho; exact ⟨rfl,rfl⟩
  | _ => cases ho

theorem stands_lookup {c : Claim} {k id : String} (hid : c.own = some id) (hs : c.Stands (w.redis k)) :
    (∀ v, w.lookup k = some v → v = .text id) ↔ ∀ d, c.rival = some d → d ≤ w.now := by
  have hc := hs id hid
  cases hx : c.rival with
  | none =>
    rw [hx] at hc
    refine ⟨fun _ d hd => (by cases hd),fun _ v hv => ?_⟩
    obtain ⟨e,he,rfl,_⟩ := lookup_some hv
    exact hc e he
  | some d =>
    rw [hx] at hc
    obtain ⟨id',hne,he⟩ := hc
    constructor
    · rintro hv d' ⟨⟩
      by_contra hlt
      have hl := lookup_entry he (decide_eq_true (Nat.lt_of_not_le hlt))
      cases hv _ hl
      exact hne rfl
    · intro hd v hv
      obtain ⟨e,he',_,hlive⟩ := lookup_some hv
      cases he.symm.trans he'
      exact absurd (hd d rfl) (Nat.not_le_of_lt (of_decide_eq_true hlive))

-- What the DEL of a call may remove, by the history of its routing key.
theorem deletes_own {now : Nat} {s : System}
    (hr : (machine rep).Run (fun _ _ l => Answers l) (overtake cfg jobs) (start cfg jobs now) (fun _ => ⟨none,none⟩) s g)
    (hctx : (jobs t).ctx = some ctx) {k : String} {timed : Bool} (hn : (s.pool t).next = some ⟨.del k,timed⟩) :
    k = ctxKey cfg ctx ∧ ∃ id, (g t).own = some id ∧
      ((∀ v, s.world.lookup k = some v → v = .text id) ↔ ∀ d, (g t).rival = some d → d ≤ s.world.now) := by
  obtain ⟨ph,hi,hph⟩ := claiming_run hr
  obtain ⟨command,st,hp⟩ := hi.calls t ctx hctx
  obtain ⟨p,hm⟩ := (hph t).next hn (.ok ())
  obtain ⟨st',rfl,hcm⟩ := move_call hm hp
  obtain ⟨rfl,hst⟩ := call_deletes hcm rfl
  obtain ⟨id,hid⟩ := Option.ne_none_iff_exists'.mp (hi.chosen t ctx command st hp hst)
  refine ⟨rfl,id,hid,stands_lookup hid (hi.stands t _ ?_)⟩
  simp only [routes,hctx,Option.map_some,decide_true]

end Steps

section Schedules

-- The call has published its sandbox when the bootstrap script is refused.
def refused (cfg : Config) (t : Nat) (ctx : SessionCtx) (id : String) : List Step :=
  (publication cfg t ctx id).take 3 ++ [answers t (.exec ⟨cfg.groupNames ctx.group,id⟩ bootstrapCommand) ⟨1,some [],some []⟩]

def entering (cfg : Config) (t : Nat) (ctx : SessionCtx) (got : Bool) (id : String) : List Step :=
  opening cfg t ctx got none ++ creation cfg t ctx id

def failing (cfg : Config) (ctx : SessionCtx) : List Step :=
  entering cfg 0 ctx true "b1" ++ refused cfg 0 ctx "b1"

-- On another replica a second call has waited for the lock in vain and goes on without it:
-- it finds no sandbox either, and rebinds the session meanwhile.
def overtaking (cfg : Config) (ctx : SessionCtx) : List Step :=
  entering cfg 0 ctx true "b1" ++ entering cfg 1 ctx false "b2" ++ (refused cfg 0 ctx "b1").take 3 ++
    publication cfg 1 ctx "b2" ++ (refused cfg 0 ctx "b1").drop 3

def succeeding (_ : System) (_ : Nat → Claim) (l : Step) : Bool := succeeds l

theorem succeeding_answers (s : System) (g : Nat → Claim) (l : Step) (hl : succeeding s g l = true) : Answers l := by
  match l with
  | .env e => trivial
  | .task t o (.ok a) h => simp [Answers]

def sampleRoute : String := ctxKey lockingConfig (sampleCtx "s1" .action)

theorem deletes_another : ∃ s s' g, (machine id).Run (fun _ _ l => Answers l) (overtake lockingConfig sampleExec)
      (start lockingConfig sampleExec 0) (fun _ => ⟨none,none⟩) s g ∧
    (s.pool 0).next = some ⟨.del sampleRoute,false⟩ ∧ (g 0).own = some "b1" ∧ (g 1).own = some "b2" ∧
    s.world.lookup sampleRoute = some (.text "b2") ∧
    (machine id).fire (answers 0 (.del sampleRoute) ()) s = some s' ∧ s'.world.lookup sampleRoute = none := by
  obtain ⟨s,g,hr,hn⟩ : ∃ s g, (machine id).Run (fun _ _ l => Answers l) (overtake lockingConfig sampleExec)
      (start lockingConfig sampleExec 0) (fun _ => ⟨none,none⟩) s g ∧
      (((s.pool 0).next,(g 0).own,(g 1).own),s.world.lookup sampleRoute,
        ((machine id).fire (answers 0 (.del sampleRoute) ()) s).map (fun s => s.world.lookup sampleRoute)) =
      ((some ⟨.del sampleRoute,false⟩,some "b1",some "b2"),some (.text "b2"),some none) :=
    Machine.replay_reaches succeeding (overtaking lockingConfig (sampleCtx "s1" .action)) succeeding_answers
      (by decide +kernel)
  simp only [Prod.mk.injEq,Option.map_eq_some_iff] at hn
  obtain ⟨⟨hnext,h₀,h₁⟩,hl,s',hf,hl'⟩ := hn
  exact ⟨s,s',g,hr,hnext,h₀,h₁,hl,hf,hl'⟩

theorem deletes_own_alone : ∃ s g, (machine id).Run (fun _ _ l => Answers l) (overtake lockingConfig sampleExec)
      (start lockingConfig sampleExec 0) (fun _ => ⟨none,none⟩) s g ∧
    (s.pool 0).next = some ⟨.del sampleRoute,false⟩ ∧ s.world.lookup sampleRoute = some (.text "b1") ∧
    ∃ id, (g 0).own = some id ∧
      ((∀ v, s.world.lookup sampleRoute = some v → v = .text id) ↔ ∀ d, (g 0).rival = some d → d ≤ s.world.now) := by
  obtain ⟨s,g,hr,hn⟩ : ∃ s g, (machine id).Run (fun _ _ l => Answers l) (overtake lockingConfig sampleExec)
      (start lockingConfig sampleExec 0) (fun _ => ⟨none,none⟩) s g ∧
      ((s.pool 0).next,s.world.lookup sampleRoute) = (some ⟨.del sampleRoute,false⟩,some (.text "b1")) :=
    Machine.replay_reaches succeeding (failing lockingConfig (sampleCtx "s1" .action)) succeeding_answers
      (by decide +kernel)
  obtain ⟨hnext,hl⟩ := Prod.mk.inj hn
  exact ⟨s,g,hr,hnext,hl,(deletes_own hr (show (sampleExec 0).ctx = some (sampleCtx "s1" .action) from rfl) hnext).2⟩

end Schedules

end IdentityAwareMcp
