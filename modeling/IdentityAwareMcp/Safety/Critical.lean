import IdentityAwareMcp.Safety.Stay

namespace IdentityAwareMcp

open Coop SandboxManager

section Spells

-- Whether a call stands between its session lookup and the release of its lock, and
-- since when it has held the Redis lock.
structure Spell where
  within : Bool
  lock : Option Nat

def Spell.idle : Spell := ⟨false,none⟩

variable (cfg : Config) (jobs : Nat → Job) (ctx : SessionCtx)

def Spell.after (w : World) (u : Spell) (o : Op) (r : Except Exc o.Ans) : Spell :=
  match o, r with
  | ⟨.lockRedis _ _,_⟩, .ok got => if got then { u with lock := some w.now } else u
  | ⟨.unlockRedis _,_⟩, _ => .idle
  | ⟨.get k,_⟩, .ok _ => if k = ctxKey cfg ctx then { u with within := true } else u
  | ⟨.release k,_⟩, _ => if k = routingKey ctx then { u with within := false } else u
  | _, _ => u

def enter (s : System) (l : Step) (g : Nat → Spell) : Nat → Spell :=
  match l with
  | .task t o r _ => upd g t ((g t).after cfg ctx s.world o r)
  | .env _ => g

-- Redis answers, nothing is cancelled, no wait for the lock is given up, no sandbox vanishes.
def Unbroken : Step → Prop
  | .task _ ⟨.lockRedis _ _,_⟩ (.ok got) _ => got = true
  | .task _ _ r _ => r ≠ .error .redis ∧ r ≠ .error .cancelled
  | .env (.vanish _) => False
  | .env _ => True

structure Favourable (s : System) (g : Nat → Spell) (l : Step) : Prop where
  unbroken : Unbroken l
  brief : ∀ t d, (g t).lock = some d → s.world.now < d + cfg.lockTtl * 1000
  lasting : ∀ e, s.world.redis (ctxKey cfg ctx) = some e → e.live s.world.now = true

-- All tasks are calls for one routing key.
def Party : Prop := ∀ t, ∃ x, jobs t = .getOrCreate x ∧ routingKey x = routingKey ctx

-- The stages at which the call holds every lock it takes.
@[simp] def Stage.within : Stage → Bool
  | .start => false
  | .wait => false
  | .leave _ => false
  | .left _ => false
  | .done _ => false
  | _ => true

end Spells

section Answers

variable {rep : Nat → Nat} {t : Nat} {o : Op} {h : Hint} {w w' : World} {e : Exc} {s : System} {g : Nat → Spell}

theorem unbroken_redis {r : Except Exc o.Ans} (ha : act rep t o w r h = some w') (hans : Unbroken (.task t o r h)) :
    ∀ e, r = .error e → o.cmd.redis = true → o.timed = false → e = .notOwned := by
  rintro e rfl hc ht
  have hne : e ≠ .redis ∧ e ≠ .cancelled := by
    obtain ⟨c,timed⟩ := o
    cases c <;> simpa [Unbroken] using hans
  obtain ⟨c,timed⟩ := o
  cases ht
  cases e <;> first | rfl | exact absurd rfl hne.1 | exact absurd rfl hne.2 |
    (cases c <;> first | (cases hc; done) | (simp [act,redisFails,Op.interrupts] at ha))

theorem unbroken_cut {r : Except Exc o.Ans} (ha : act rep t o w r h = some w') (hans : Unbroken (.task t o r h))
    (he : r = .error e) (ho : o.timed = false) : e.isException = true := by
  subst he
  cases hx : e.isException with
  | true => rfl
  | false =>
    cases act_cut ha hx ho
    obtain ⟨c,timed⟩ := o
    cases c <;> simp [Unbroken] at hans

end Answers

section Grips

variable {cfg : Config} {jobs : Nat → Job} {rep : Nat → Nat} {t : Nat} {o : Op} {r : Except Exc o.Ans} {h : Hint}
variable {s : System} {w' : World} {g : Nat → Spell} {ph : Nat → Phase} {ctx x : SessionCtx} {command : Option String}
variable {st st' : Stage} {u : Spell}

-- What one step of a call does to the Redis lock k.
inductive Grip (cfg : Config) (k : String) (s : System) (u : Spell) (t : Nat) (w' : World) : Stage → Stage → Spell → Prop
  | took : s.world.lookup k = none → w'.redis k = some ⟨.token t,some (s.world.now + cfg.lockTtl * 1000)⟩ →
      Grip cfg k s u t w' .wait .look { u with lock := some s.world.now }
  | dropped (res : Option Client) : s.world.lookup k = some (.token t) ∨ w'.redis k = s.world.redis k →
      Grip cfg k s u t w' (.unlock res) (.leave res) .idle
  | found (st' : Stage) : w'.redis k = s.world.redis k → st'.within = true →
      Grip cfg k s u t w' .look st' { u with within := true }
  | parted (res : Option Client) (st' : Stage) : w'.redis k = s.world.redis k → st'.inside = false →
      Grip cfg k s u t w' (.leave res) st' { u with within := false }
  | alone : w'.redis k = s.world.redis k → Grip cfg k s u t w' .start .look u
  | calm (st st' : Stage) : w'.redis k = s.world.redis k → (st'.within = true → st.within = true) →
      (st.inside = true → st'.inside = true) → Grip cfg k s u t w' st st' u

theorem within_inside (hst : st.within = true) : st.inside = true := by
  cases st <;> first | rfl | cases hst

theorem after_tame_spell {c : Cmd} {timed : Bool} {r : Except Exc c.Ans} (hc : Tame cfg ctx c)
    (hl : ∀ k ttl, c ≠ .lockRedis k ttl) (hu : ∀ k, c ≠ .unlockRedis k) (hr : c ≠ .release (routingKey ctx)) :
    u.after cfg ctx s.world ⟨c,timed⟩ r = u := by
  cases c with
  | get k =>
    have hk := hc.get k rfl
    cases r with
    | ok v => simp only [Spell.after,hk,if_false]
    | error e => rfl
  | lockRedis k ttl => exact absurd rfl (hl k ttl)
  | unlockRedis k => exact absurd rfl (hu k)
  | release k =>
    have hk : k ≠ routingKey ctx := by
      rintro rfl
      exact hr rfl
    simp only [Spell.after,hk,if_false]
  | _ => cases r <;> rfl

theorem call_grips (hcm : CallMove cfg x command st o r st') (ht : Touches t w' o.cmd (lockKey x)) :
    o.cmd = .lockRedis (lockKey x) cfg.lockTtl ∨ o.cmd = .unlockRedis (lockKey x) := by
  have hctx : ctxKey cfg x ≠ lockKey x := (lockKey_ne (head_ctxKey cfg x)).symm
  have hindex : ∀ {id : String}, indexKey cfg id ≠ lockKey x := fun {id} => (lockKey_ne (head_indexKey cfg id)).symm
  have hflag : ∀ {id : String}, flagKey cfg id ≠ lockKey x := fun {id} => (lockKey_ne (head_flagKey cfg id)).symm
  cases hcm with
  | prepared c r hp => cases c <;> first | exact ht.elim | exact hp.elim
  | prepFailed c r st hp hl => cases c <;> first | exact ht.elim | exact hp.elim
  | _ =>
    first
      | exact ht.elim
      | exact .inl rfl
      | exact .inr rfl
      | exact absurd ht hctx
      | exact absurd ht hindex
      | exact absurd ht hflag

theorem preparing_unlocked {c : Cmd} (hp : Preparing cfg x c) :
    (∀ k ttl, c ≠ .lockRedis k ttl) ∧ (∀ k, c ≠ .unlockRedis k) ∧ c ≠ .release (routingKey x) := by
  refine ⟨?_,?_,?_⟩
  · rintro k ttl rfl
    exact hp
  · rintro k rfl
    exact hp
  · rintro rfl
    exact setUpKey_ne ⟨_,hp⟩ x rfl

-- Only the owner's release takes the lock away.
theorem unlock_owner {k : String} {r : Except Exc Unit} (ha : act rep t ⟨.unlockRedis k,false⟩ s.world r h = some w') :
    s.world.lookup k = some (.token t) ∨ w'.redis k = s.world.redis k := by
  by_cases hl : s.world.lookup k = some (.token t)
  · exact .inl hl
  · exact .inr (act_untouched ha (fun ht => hl ht.2))

theorem call_grip (hcm : CallMove cfg x none st o r st') (ha : act rep t o s.world r h = some w')
    (hun : Unbroken (.task t o r h)) : Grip cfg (lockKey x) s u t w' st st' (u.after cfg x s.world o r) := by
  have hno : ∀ {e : Exc}, r = .error e → o.cmd.redis = true → o.timed = false → (∀ k, o.cmd ≠ .unlockRedis k) → False := by
    intro e he hc ht hu
    obtain ⟨k,hk⟩ := redis_refuses ha (unbroken_redis ha hun) he hc ht
    exact hu k hk
  have hsame : (∀ k ttl, o.cmd ≠ .lockRedis k ttl) → (∀ k, o.cmd ≠ .unlockRedis k) →
      w'.redis (lockKey x) = s.world.redis (lockKey x) := by
    intro hl hu
    refine act_untouched ha (fun ht => ?_)
    rcases call_grips hcm ht with ho | ho
    · exact hl _ _ ho
    · exact hu _ ho
  have hcalm : u.after cfg x s.world o r = u → (∀ k ttl, o.cmd ≠ .lockRedis k ttl) → (∀ k, o.cmd ≠ .unlockRedis k) →
      (st'.within = true → st.within = true) → (st.inside = true → st'.inside = true) →
      Grip cfg (lockKey x) s u t w' st st' (u.after cfg x s.world o r) := by
    intro hu hl hun hw hin
    rw [hu]
    exact .calm _ _ (hsame hl hun) hw hin
  have hflag : ∀ {id : String}, flagKey cfg id ≠ ctxKey cfg x := key_ne (by simp)
  cases hcm with
  | acquired a => exact hcalm rfl (by simp) (by simp) (by simp) (by simp)
  | acquiredAlone a => exact .alone (hsame (by simp) (by simp))
  | gaveUp e => exact hcalm rfl (by simp) (by simp) (by simp) (by simp)
  | locked got =>
    have hgot : got = true := hun
    subst hgot
    simp only [act,if_true] at ha
    split at ha
    · rename_i hl
      cases ha
      exact .took hl (upd_same _ _ _)
    · cases ha
  | lockFailed e he => exact (hno rfl rfl rfl (by simp)).elim
  | lockCut e he => exact (hno rfl rfl rfl (by simp)).elim
  | hit v id hv =>
    simp only [Spell.after,if_true]
    exact .found _ (hsame (by simp) (by simp)) rfl
  | miss v hv =>
    simp only [Spell.after,if_true]
    exact .found _ (hsame (by simp) (by simp)) rfl
  | lookFailed e he => exact (hno rfl rfl rfl (by simp)).elim
  | lookCut e st he hl => exact (hno rfl rfl rfl (by simp)).elim
  | prepared c r hp =>
    obtain ⟨hl,hu,hr⟩ := preparing_unlocked hp
    exact hcalm (after_tame_spell (tame_preparing hp) hl hu hr) hl hu (by simp) (by simp)
  | prepFailed c r st hp hl =>
    obtain ⟨hl',hu,hr⟩ := preparing_unlocked hp
    exact hcalm (after_tame_spell (tame_preparing hp) hl' hu hr) hl' hu (by simp) (fun _ => leaving_inside hl)
  | unlocked res r hx => exact .dropped res (unlock_owner ha)
  | unlockCut res e he => exact absurd (unbroken_cut ha hun rfl rfl) (by simp [he])
  | released res a =>
    simp only [Spell.after,if_true]
    exact .parted res _ (hsame (by simp) (by simp)) rfl
  | releaseFailed res e =>
    simp only [Spell.after,if_true]
    exact .parted res _ (hsame (by simp) (by simp)) rfl
  | flagged c st hl => exact hcalm (by simp only [Spell.after,hflag,if_false]) (by simp) (by simp) (by simp) (fun _ => leaving_inside hl)
  | unflagged c v hv => exact hcalm (by simp only [Spell.after,hflag,if_false]) (by simp) (by simp) (by simp) (by simp)
  | published c r st hx hst => exact hcalm rfl (by simp) (by simp) (by simp) (by rw [hst]; split <;> simp)
  | ran c cmd res hcmd => cases hcmd
  | runFailed c cmd e hcmd => cases hcmd
  | _ =>
    refine hcalm rfl (by simp) (by simp) (by simp) ?_
    first
      | exact fun _ => rfl
      | exact fun _ => leaving_inside (by assumption)

end Grips

section Locks

variable (cfg : Config) (jobs : Nat → Job) (rep : Nat → Nat) (ctx : SessionCtx)

def Locking : Prop := cfg.distributedLock = true ∧ cfg.redisClient = true

structure Locked (s : System) (g : Nat → Spell) (ph : Nat → Phase) : Prop where
  posts : ∀ t, ∃ x st, ph t = .call x none st ∧ routingKey x = routingKey ctx ∧ ∀ c, st ≠ .done c
  fresh : ∀ t x, ph t = .call x none .start → jobs t = .getOrCreate x ∧ s.pool t = (jobs t).task cfg
  excludes : Excludes rep s.world ph
  entry : ∀ t d, (g t).lock = some d →
    s.world.redis (lockKey ctx) = some ⟨.token t,some (d + cfg.lockTtl * 1000)⟩
  taken : Locking cfg → ∀ t x st, ph t = .call x none st → st.within = true ∨ (g t).within = true → (g t).lock ≠ none
  inside : ∀ t x st, ph t = .call x none st → (g t).within = true → st.inside = true

variable {cfg} {jobs} {rep} {ctx} {t : Nat} {o : Op} {r : Except Exc o.Ans} {h : Hint} {s : System} {w' : World}
variable {g : Nat → Spell} {ph : Nat → Phase} {p : Phase} {x : SessionCtx} {st st' : Stage} {u : Spell}

-- The lock of the replicas comes right after that of the process.
theorem lock_next {k : Except Exc Unit → M Out} (hs : Locking cfg)
    (hk : Job.task cfg (.getOrCreate x) = .call ⟨.acquire (routingKey x),false⟩ k) (a : Unit) :
    (k (.ok a)).next = some ⟨.lockRedis (lockKey x) cfg.lockTtl,false⟩ := by
  obtain ⟨hd,hc⟩ := hs
  change Task.call _ _ = _ at hk
  injection hk with _ hk
  rw [← hk]
  simp only [withDlock,hd,hc,Bool.not_true,Bool.or_false]
  rfl

theorem lock_first {k : Except Exc o.Ans → M Out} (hi : Locked cfg jobs rep ctx s g ph) (hs : Locking cfg)
    (hp : ph t = .call x none .start) (hcall : s.pool t = .call o k)
    (hf : Follows (PhaseMove cfg) (.call x none .look) (k r) Finished) : ¬ CallMove cfg x none .start o r .look := by
  intro hcm
  cases hcm with
  | acquiredAlone a =>
    obtain ⟨hj,hpool⟩ := hi.fresh t x hp
    rw [hj] at hpool
    obtain ⟨p,hm⟩ := hf.next (lock_next hs (hpool.symm.trans hcall) a) (.error .other)
    obtain ⟨_,_,hw⟩ := move_locks hm rfl
    cases hw

theorem call_begun (hcm : CallMove cfg x none st o r st') : st' ≠ .start := by
  rintro rfl
  cases hcm with
  | prepFailed c r st hp hl => rcases hl with hl | hl <;> cases hl
  | published c r st hr hst => split at hst <;> cases hst
  | _ => rename_i hl; rcases hl with hl | hl <;> cases hl

theorem after_congr (hk : routingKey x = routingKey ctx) (w : World) :
    u.after cfg x w o r = u.after cfg ctx w o r := by
  simp only [Spell.after,ctxKey_congr hk,hk]

-- Two calls are never both between the session lookup and the release of the lock.
theorem Locked.alone (hi : Locked cfg jobs rep ctx s g ph) (hd : Locking cfg ∨ ∀ i j, rep i = rep j) {i j : Nat}
    {y : SessionCtx} (hpi : ph i = .call x none st) (hpj : ph j = .call y none st')
    (hin : st.within = true ∨ (g i).within = true) (hjn : st'.within = true ∨ (g j).within = true) : i = j := by
  rcases hd with hs | hrep
  · obtain ⟨d,hd⟩ := Option.ne_none_iff_exists'.mp (hi.taken hs i x st hpi hin)
    obtain ⟨d',hd'⟩ := Option.ne_none_iff_exists'.mp (hi.taken hs j y st' hpj hjn)
    have he := (hi.entry i d hd).symm.trans (hi.entry j d' hd')
    simp only [Option.some.injEq,Entry.mk.injEq,Value.token.injEq] at he
    exact he.1
  · obtain ⟨x',st₁,hx,hkx,_⟩ := hi.posts i
    obtain ⟨y',st₂,hy,hky,_⟩ := hi.posts j
    cases hpi.symm.trans hx
    cases hpj.symm.trans hy
    have hl := hi.excludes i x none st hpi (hin.elim within_inside (hi.inside i x st hpi))
    have hl' := hi.excludes j y none st' hpj (hjn.elim within_inside (hi.inside j y st' hpj))
    rw [hkx,hrep i j,← hky,hl'] at hl
    cases hl
    rfl

theorem grip_entry (hi : Locked cfg jobs rep ctx s g ph) (hg : Grip cfg (lockKey ctx) s (g t) t w' st st' u)
    (hfav : ∀ t d, (g t).lock = some d → s.world.now < d + cfg.lockTtl * 1000) {i d : Nat}
    (hl : (upd g t u i).lock = some d) :
    w'.redis (lockKey ctx) = some ⟨.token i,some (d + cfg.lockTtl * 1000)⟩ := by
  have hheld : ∀ {i d}, (g i).lock = some d → s.world.lookup (lockKey ctx) = some (.token i) := by
    intro i d hl
    exact lookup_entry (hi.entry i d hl) (decide_eq_true (hfav i d hl))
  have hkeep : ∀ {u : Spell}, (upd g t u i).lock = some d → u.lock = (g t).lock →
      w'.redis (lockKey ctx) = s.world.redis (lockKey ctx) → w'.redis (lockKey ctx) = some ⟨.token i,some (d + cfg.lockTtl * 1000)⟩ := by
    intro u hl hu hk
    rw [hk]
    by_cases hit : i = t
    · subst hit
      rw [upd_same,hu] at hl
      exact hi.entry i d hl
    · rw [upd_other _ _ hit] at hl
      exact hi.entry i d hl
  cases hg with
  | took hnone hnew =>
    by_cases hit : i = t
    · subst hit
      rw [upd_same] at hl
      cases hl
      exact hnew
    · rw [upd_other _ _ hit] at hl
      rw [hheld hl] at hnone
      cases hnone
  | dropped res hk =>
    have hit : i ≠ t := by
      rintro rfl
      rw [upd_same] at hl
      cases hl
    rw [upd_other _ _ hit] at hl
    rcases hk with hk | hk
    · rw [hheld hl] at hk
      cases hk
      exact absurd rfl hit
    · rw [hk]
      exact hi.entry i d hl
  | found st' hk hst => exact hkeep hl rfl hk
  | parted res st' hk hst => exact hkeep hl rfl hk
  | alone hk => exact hkeep hl rfl hk
  | calm st st' hk hw hin => exact hkeep hl rfl hk

theorem Locked.call {k : Except Exc o.Ans → M Out} (hi : Locked cfg jobs rep ctx s g ph) (hp : ph t = .call x none st)
    (hcall : s.pool t = .call o k) (hcm : CallMove cfg x none st o r st')
    (hf : Follows (PhaseMove cfg) (.call x none st') (k r) Finished) (ha : act rep t o s.world r h = some w')
    (hfav : Favourable cfg ctx s g (.task t o r h)) :
    Locked cfg jobs rep ctx ⟨w',upd s.pool t (k r)⟩ (upd g t ((g t).after cfg ctx s.world o r))
      (upd ph t (.call x none st')) := by
  obtain ⟨x',st₀,hx,hk,hdone⟩ := hi.posts t
  cases hp.symm.trans hx
  have hm := call_move hp hcm
  have hgrip := call_grip (u := g t) hcm ha hfav.unbroken
  have hlk : lockKey x = lockKey ctx := by simp only [lockKey,hk]
  rw [after_congr hk,hlk] at hgrip
  have hmoved : ∀ {i y s₀}, upd ph t (.call x none st') i = .call y none s₀ →
      i = t ∧ y = x ∧ s₀ = st' ∨ i ≠ t ∧ ph i = .call y none s₀ := by
    intro i y s₀ hpi
    rcases upd_eq hpi with ⟨rfl,⟨⟩⟩ | hold
    · exact .inl ⟨rfl,rfl,rfl⟩
    · exact .inr hold
  constructor
  case posts =>
    refine forall_upd (P := fun _ (p : Phase) => ∃ x st, p = .call x none st ∧ routingKey x = routingKey ctx ∧ ∀ c, st ≠ .done c)
      ⟨x,st',rfl,hk,?_⟩ hi.posts
    rintro c rfl
    cases hcm with
    | ran c cmd res hcmd => cases hcmd
    | prepFailed c r st hp hl => rcases hl with hl | hl <;> cases hl
    | published c r st hr hst => split at hst <;> cases hst
    | _ => rename_i hl; rcases hl with hl | hl <;> cases hl
  case fresh =>
    intro i y hpi
    rcases hmoved hpi with ⟨rfl,rfl,rfl⟩ | ⟨hit,hpi⟩
    · exact absurd rfl (call_begun hcm)
    · simp only [upd_other _ _ hit]
      exact hi.fresh i y hpi
  case excludes => exact hi.excludes.step hm ha
  case entry => exact fun i d hl => grip_entry hi hgrip hfav.brief hl
  case taken =>
    intro hs i y s₀ hpi hin
    rcases hmoved hpi with ⟨rfl,rfl,rfl⟩ | ⟨hit,hpi⟩
    · rw [upd_same] at hin ⊢
      generalize (g i).after cfg ctx s.world o r = u at hgrip hin ⊢
      cases hgrip with
      | took hnone hnew => simp
      | dropped res hlost => rcases hin with hin | hin <;> cases hin
      | found st' hsame hst => exact hi.taken hs i y _ hp (.inl rfl)
      | parted res st' hsame hst =>
        rcases hin with hin | hin
        · rw [within_inside hin] at hst
          cases hst
        · cases hin
      | alone hsame => exact absurd hcm (lock_first hi hs hp hcall hf)
      | calm st st' hsame hw hin' => exact hi.taken hs i y _ hp (hin.imp_left hw)
    · rw [upd_other _ _ hit] at hin ⊢
      exact hi.taken hs i y s₀ hpi hin
  case inside =>
    intro i y s₀ hpi hin
    rcases hmoved hpi with ⟨rfl,rfl,rfl⟩ | ⟨hit,hpi⟩
    · rw [upd_same] at hin
      generalize (g i).after cfg ctx s.world o r = u at hgrip hin
      cases hgrip with
      | took hnone hnew => rfl
      | dropped res hlost => cases hin
      | found st' hsame hst => exact within_inside hst
      | parted res st' hsame hst => cases hin
      | alone hsame => rfl
      | calm st st' hsame hw hin' => exact hin' (hi.inside i y _ hp hin)
    · rw [upd_other _ _ hit] at hin
      exact hi.inside i y s₀ hpi hin

end Locks

end IdentityAwareMcp
