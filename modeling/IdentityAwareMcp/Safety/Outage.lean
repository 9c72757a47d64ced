import IdentityAwareMcp.Safety.Sticky

namespace IdentityAwareMcp

open Coop SandboxManager

section Tones

-- Redis may fail as it likes, with an Exception; the platform serves every call, though a
-- sandbox to be woken may be gone.
def served : (o : Op) → Except Exc o.Ans → Bool
  | ⟨.ensureRunning _,_⟩, .error e => decide (e = .notFound)
  | ⟨.exec _ command,_⟩, .ok res => command != bootstrapCommand || res.boots
  | ⟨c,_⟩, .error e => c.redis && e.isException
  | _, .ok _ => true

variable (cfg : Config) (oid : Option Guid)

def losesProfile (o : Op) : Except Exc o.Ans → Bool
  | .error _ => decide (∃ g ∈ oid, o.cmd = .get (cfg.profiles.k (UserProfileCache.key g.text)))
  | .ok _ => false

-- How a call stands: unharmed, bound to fail for want of the profile, or past an answer outside `served`.
inductive Tone where
  | fine
  | hurt
  | beyond

def Tone.after (s : Tone) (o : Op) (r : Except Exc o.Ans) : Tone :=
  match s with
  | .beyond => .beyond
  | s => if served o r then if losesProfile cfg oid o r then .hurt else s else .beyond

abbrev hears (s : Tone) (o : Op) (r : Except Exc o.Ans) (s' : Tone) : Prop := s' = s.after cfg oid o r

def Keeps {α : Type} (s : Tone) (s' : Tone) (r : Except Exc α) : Prop :=
  s' = .beyond ∨ s' = s ∧ ∃ a, r = .ok a

def Bears {α : Type} (s : Tone) (s' : Tone) (r : Except Exc α) : Prop :=
  s' = .beyond ∨ s' = s ∧ ∀ e, r = .error e → e.isException = true

def Suffers {α : Type} (s' : Tone) (r : Except Exc α) : Prop :=
  match s' with
  | .fine => ∃ a, r = .ok a
  | .hurt => ∃ e, r = .error e
  | .beyond => True

variable {cfg oid} {α β : Type} {s : Tone}

theorem keeps_suffers {s' : Tone} {r : Except Exc α} (h : Keeps .fine s' r) : Suffers s' r := by
  rcases h with rfl | ⟨rfl,ha⟩
  · trivial
  · exact ha

theorem beyond_follows (p : M α) : Follows (hears cfg oid) .beyond p (fun s _ => s = .beyond) := by
  induction p with
  | ret a => rfl
  | raise e => rfl
  | call o k ih => exact fun r => ⟨_,rfl,ih r⟩

theorem after_beyond {o : Op} {r : Except Exc o.Ans} (hs : served o r = false) :
    s.after cfg oid o r = .beyond := by
  cases s <;> simp [Tone.after,hs]

theorem after_same {o : Op} {r : Except Exc o.Ans} (hs : served o r = true)
    (hl : losesProfile cfg oid o r = false) : s.after cfg oid o r = s := by
  cases s <;> simp [Tone.after,hs,hl]

theorem platform_keeps {c : Cmd} (hr : c.redis = false) (hw : ∀ x, c ≠ .ensureRunning x) :
    Follows (hears cfg oid) s (perform c) (Keeps s) := by
  refine Follows.perform (fun r => ⟨_,rfl,?_⟩)
  cases hs : served ⟨c,false⟩ r with
  | false => exact .inl (after_beyond hs)
  | true =>
    cases r with
    | ok a => exact .inr ⟨after_same hs rfl,a,rfl⟩
    | error e => cases c <;> first | exact absurd rfl (hw _) | cases hs | cases hr

theorem redis_bears {c : Cmd} (hr : c.redis = true)
    (hp : ∀ g : Guid, c ≠ .get (cfg.profiles.k (UserProfileCache.key g.text))) :
    Follows (hears cfg oid) s (perform c) (Bears s) := by
  refine Follows.perform (fun r => ⟨_,rfl,?_⟩)
  cases hs : served ⟨c,false⟩ r with
  | false => exact .inl (after_beyond hs)
  | true =>
    refine .inr ⟨after_same hs ?_,?_⟩
    · cases r with
      | ok a => rfl
      | error e => simp [losesProfile,hp]
    · rintro e rfl
      cases c <;> first | cases hr; done | exact hs

theorem keeps_bind {p : M α} {f : α → M β} {Q : Tone → Except Exc β → Prop} (hq : ∀ r, Q .beyond r)
    (hp : Follows (hears cfg oid) s p (Keeps s)) (hf : ∀ a, Follows (hears cfg oid) s (f a) Q) :
    Follows (hears cfg oid) s (p.bind f) Q := by
  refine hp.bind (fun s' a h => ?_) (fun s' e h => ?_)
  · rcases h with rfl | ⟨rfl,_⟩
    · exact (beyond_follows (f a)).mono (fun s' r h => by cases h; exact hq r)
    · exact hf a
  · rcases h with rfl | ⟨_,a,ha⟩
    · exact hq _
    · cases ha

theorem bears_bind {p : M α} {f : α → M β} (hp : Follows (hears cfg oid) s p (Bears s))
    (hf : ∀ a, Follows (hears cfg oid) s (f a) (Bears s)) : Follows (hears cfg oid) s (p.bind f) (Bears s) := by
  refine hp.bind (fun s' a h => ?_) (fun s' e h => ?_)
  · rcases h with rfl | ⟨rfl,_⟩
    · exact (beyond_follows (f a)).mono (fun s' r h => .inl h)
    · exact hf a
  · rcases h with rfl | ⟨rfl,he⟩
    · exact .inl rfl
    · refine .inr ⟨rfl,?_⟩
      rintro e' ⟨⟩
      exact he e rfl

theorem except_keeps {p : M α} {h : Exc → M α} (hp : Follows (hears cfg oid) s p (Bears s))
    (hh : ∀ e, Follows (hears cfg oid) s (h e) (Keeps s)) :
    Follows (hears cfg oid) s (exceptException p h) (Keeps s) := by
  refine follows_except hp (fun s' a hq => ?_) (fun s' e he hq => ?_) (fun s' e he hq => ?_)
  · rcases hq with rfl | ⟨rfl,_⟩
    · exact .inl rfl
    · exact .inr ⟨rfl,a,rfl⟩
  · rcases hq with rfl | ⟨rfl,_⟩
    · exact (beyond_follows (h e)).mono (fun s' r h => .inl h)
    · exact hh e
  · rcases hq with rfl | ⟨_,hx⟩
    · exact .inl rfl
    · rw [hx e rfl] at he
      cases he

theorem keeps_except {p : M α} {h : Exc → M α} (hp : Follows (hears cfg oid) s p (Keeps s)) :
    Follows (hears cfg oid) s (exceptException p h) (Keeps s) := by
  refine follows_except hp (fun s' a hq => hq) (fun s' e he hq => ?_) (fun s' e he hq => ?_)
  · rcases hq with rfl | ⟨_,a,ha⟩
    · exact (beyond_follows (h e)).mono (fun s' r h => .inl h)
    · cases ha
  · rcases hq with rfl | ⟨_,a,ha⟩
    · exact .inl rfl
    · cases ha

theorem suffers_bind {p : M α} {f : α → M β} (hp : Follows (hears cfg oid) .fine p Suffers)
    (hf : ∀ a, Follows (hears cfg oid) .fine (f a) Suffers) : Follows (hears cfg oid) .fine (p.bind f) Suffers := by
  refine hp.bind (fun s' a h => ?_) (fun s' e h => ?_)
  · cases s' with
    | fine => exact hf a
    | hurt =>
      obtain ⟨e,he⟩ := h
      cases he
    | beyond => exact (beyond_follows (f a)).mono (fun s' r h => by cases h; trivial)
  · cases s' with
    | fine =>
      obtain ⟨a,ha⟩ := h
      cases ha
    | hurt => exact ⟨e,rfl⟩
    | beyond => trivial

theorem keeps_bears {p : M α} (hp : Follows (hears cfg oid) s p (Keeps s)) : Follows (hears cfg oid) s p (Bears s) := by
  refine hp.mono (fun s' r h => ?_)
  rcases h with rfl | ⟨rfl,a,rfl⟩
  · exact .inl rfl
  · exact .inr ⟨rfl,by rintro e ⟨⟩⟩

theorem ret_keeps (a : α) : Follows (hears cfg oid) s (.ret a) (Keeps s) := .inr ⟨rfl,a,rfl⟩

theorem safe_keeps {p : M α} {d : α} (hp : Follows (hears cfg oid) s p (Bears s)) :
    Follows (hears cfg oid) s (redisSafe p d) (Keeps s) := except_keeps hp (fun _ => ret_keeps d)

-- A finally block that keeps on does not change how the body ends.
theorem ensuring_keeps {p : M α} {fin : M Unit} {Q : Tone → Except Exc α → Prop} (hq : ∀ r, Q .beyond r)
    (hp : Follows (hears cfg oid) s p Q) (hf : ∀ s, Follows (hears cfg oid) s fin (Keeps s)) :
    Follows (hears cfg oid) s (p.ensuring fin) Q := by
  refine hp.ensuring (fun s' r h => (hf s').mono (fun s'' u hu => ?_))
  rcases hu with rfl | ⟨rfl,x,rfl⟩
  · cases u <;> exact hq _
  · exact h

theorem withLock_keeps {key : String} {p : M α} {Q : Tone → Except Exc α → Prop} (hq : ∀ r, Q .beyond r)
    (hp : Follows (hears cfg oid) s p Q) : Follows (hears cfg oid) s (withLock key p) Q :=
  keeps_bind hq (platform_keeps rfl (by simp))
    (fun _ => ensuring_keeps hq hp (fun _ => platform_keeps rfl (by simp)))

theorem after_timed (o : Op) (r : Except Exc o.Ans) :
    s.after cfg oid ⟨o.cmd,true⟩ r = s.after cfg oid o r := by
  obtain ⟨c,timed⟩ := o
  have hs : served ⟨c,true⟩ r = served ⟨c,timed⟩ r := by cases c <;> cases r <;> rfl
  have hl : losesProfile cfg oid ⟨c,true⟩ r = losesProfile cfg oid ⟨c,timed⟩ r := by cases r <;> rfl
  simp only [Tone.after,hs,hl]

theorem waitFor_suffers {p : M α} (hp : Follows (hears cfg oid) s p Suffers) :
    Follows (hears cfg oid) s (waitFor p) Suffers := by
  refine follows_waitFor (Q := Suffers) ?_ (fun s' a h => h) (fun s' e h => ?_)
  · refine (hp.lift id (fun s o r s' h => ?_)).mono ?_
    · exact h.trans (after_timed o r).symm
    · rintro s' r ⟨_,rfl,h⟩
      exact h
  · cases s' with
    | fine =>
      obtain ⟨a,ha⟩ := h
      cases ha
    | hurt => exact ⟨_,rfl⟩
    | beyond => trivial

end Tones

section Programs

variable {cfg : Config} {oid : Option Guid} {s : Tone} (ctx : SessionCtx)

theorem profile_ne {k : String} (h : store k ≠ "mcp:pr".toList) (g : Guid) :
    Cmd.get k ≠ .get (cfg.profiles.k (UserProfileCache.key g.text)) := by
  rintro ⟨⟩
  exact h (store_profileKey cfg g.text)

theorem get_bears {k : String} (h : store k ≠ "mcp:pr".toList) :
    Follows (hears cfg oid) s (perform (.get k)) (Bears s) := redis_bears rfl (profile_ne h)

theorem set_bears (k : String) (v : Value) (ex : Option Nat) :
    Follows (hears cfg oid) s (perform (.set k v ex)) (Bears s) := redis_bears rfl (by simp)

theorem del_keeps (x : SessionCtx) : Follows (hears cfg oid) s
    (redisSafe (SessionSandboxCache.delete cfg.sessions (oidText x.userOid) x.sessionId x.group.name) ())
    (Keeps s) := safe_keeps (redis_bears rfl (by simp))

theorem ret_bears {α : Type} (a : α) : Follows (hears cfg oid) s (.ret a) (Bears s) := keeps_bears (ret_keeps a)

theorem keeps_beyond {α : Type} (r : Except Exc α) : Keeps s .beyond r := .inl rfl

theorem wake_keeps (c : Client) : Follows (hears cfg oid) s
    (Task.handle (do
      perform (.ensureRunning c)
      return some c) (fun e =>
        if e = .notFound then do
          redisSafe (SessionSandboxCache.delete cfg.sessions (oidText ctx.userOid) ctx.sessionId
            ctx.group.name) ()
          return none
        else .raise e)) (Keeps s) := by
  intro r
  refine ⟨_,rfl,?_⟩
  cases hs : served ⟨.ensureRunning c,false⟩ r with
  | false =>
    rw [after_beyond hs]
    exact (beyond_follows _).mono (fun s' r h => .inl h)
  | true =>
    cases r with
    | ok u =>
      rw [after_same hs rfl]
      exact ret_keeps (some c)
    | error e =>
      have he : e = .notFound := by simpa [served] using hs
      rw [after_same hs (by simp [losesProfile])]
      simp only [he,Task.bind_eq,Task.raise_bind,Task.handle,if_true]
      exact keeps_bind keeps_beyond (del_keeps ctx) (fun _ => ret_keeps none)

theorem reuse_keeps : Follows (hears cfg oid) s (reuse cfg ctx) (Keeps s) := by
  refine keeps_bind keeps_beyond (safe_keeps ?_) (fun found => ?_)
  · refine bears_bind (get_bears (k := ctxKey cfg ctx) (by simp)) (fun v => ?_)
    cases v.bind Value.asText with
    | none => exact ret_bears none
    | some id => exact bears_bind (set_bears _ _ _) (fun _ => ret_bears (some id))
  · cases found with
    | none => exact ret_keeps none
    | some id => exact wake_keeps ctx _

theorem reuseDiskImage_keeps (g : String) : Follows (hears cfg oid) s (reuseDiskImage g) (Keeps s) := by
  refine keeps_bind keeps_beyond (platform_keeps rfl (by simp)) (fun images => ?_)
  cases List.find? usable images with
  | none => exact ret_keeps none
  | some img => exact keeps_bind keeps_beyond (platform_keeps rfl (by simp)) (fun _ => ret_keeps _)

theorem ensureDiskImage_keeps (g : Group) (image : String) :
    Follows (hears cfg oid) s (ensureDiskImage cfg g image) (Keeps s) := by
  refine withLock_keeps keeps_beyond (keeps_bind keeps_beyond (platform_keeps rfl (by simp)) (fun built => ?_))
  split
  · refine keeps_bind keeps_beyond
      (keeps_except (reuseDiskImage_keeps _)) (fun found => ?_)
    cases found with
    | some id => exact ret_keeps id
    | none =>
      refine keeps_bind keeps_beyond (platform_keeps rfl (by simp)) (fun id => ?_)
      refine keeps_bind keeps_beyond (platform_keeps rfl (by simp)) (fun _ => ?_)
      exact keeps_bind keeps_beyond (platform_keeps rfl (by simp)) (fun _ => ret_keeps _)
  · exact ret_keeps _

theorem resolveDisk_keeps (g : Group) : Follows (hears cfg oid) s (resolveDisk cfg g) (Keeps s) := by
  unfold resolveDisk
  split
  · exact ret_keeps _
  · split
    · exact keeps_bind keeps_beyond (ensureDiskImage_keeps g _) (fun _ => ret_keeps _)
    · exact ret_keeps _

theorem ensureVolume_keeps (g : Group) (container : String) :
    Follows (hears cfg oid) s (ensureVolume cfg g container) (Keeps s) := by
  refine keeps_bind keeps_beyond (platform_keeps rfl (by simp)) (fun seen => ?_)
  split
  · exact ret_keeps ()
  · refine withLock_keeps keeps_beyond (keeps_bind keeps_beyond (platform_keeps rfl (by simp)) (fun seen => ?_))
    split
    · exact ret_keeps ()
    · refine keeps_bind keeps_beyond ?_ (fun _ => platform_keeps rfl (by simp))
      refine Follows.handle (Q := Keeps s) (platform_keeps rfl (by simp)) (fun s' a h => h) (fun s' e h => ?_)
      rcases h with rfl | ⟨_,a,ha⟩
      · exact (beyond_follows _).mono (fun s' r h => .inl h)
      · cases ha

theorem workspaceVolumes_keeps (g : Group) : Follows (hears cfg oid) s (workspaceVolumes cfg g) (Keeps s) := by
  unfold workspaceVolumes
  split
  · exact ret_keeps none
  · exact keeps_bind keeps_beyond (ensureVolume_keeps g _) (fun _ => ret_keeps _)

-- The one read of Redis that nothing guards.
theorem userSubscription_suffers : Follows (hears cfg oid) .fine (userSubscription cfg oid) Suffers := by
  cases oid with
  | none => exact ⟨_,rfl⟩
  | some g =>
    intro r
    refine ⟨_,rfl,?_⟩
    cases hs : served ⟨.get (cfg.profiles.k (UserProfileCache.key g.text)),false⟩ r with
    | false =>
      rw [after_beyond hs]
      exact (beyond_follows _).mono (fun s' r h => by cases h; trivial)
    | true =>
      cases r with
      | error e =>
        have hl : losesProfile cfg (some g) ⟨.get (cfg.profiles.k (UserProfileCache.key g.text)),false⟩
            (.error e) = true := by simp [losesProfile]
        simp only [Tone.after,hs,hl,if_true]
        exact ⟨e,rfl⟩
      | ok v =>
        rw [after_same hs rfl]
        have hret : ∀ x : String, Follows (hears cfg (some g)) .fine (.ret x : M String) Suffers := fun x => ⟨x,rfl⟩
        match v with
        | some (.profile (some x)) =>
          by_cases hx : x = ""
          · subst hx
            exact hret _
          · simp only [Task.pure_eq,Task.ret_bind,hx,if_false]
            exact hret x
        | some (.profile none) => exact hret _
        | some (.text _) => exact hret _
        | some (.flag _) => exact hret _
        | some (.binding _ _ _) => exact hret _
        | some (.names _) => exact hret _
        | some (.token _) => exact hret _
        | none => exact hret _

theorem suffers_beyond {α : Type} (r : Except Exc α) : Suffers .beyond r := trivial

theorem createSandbox_suffers (g : Group) :
    Follows (hears cfg ctx.userOid) .fine (createSandbox cfg ctx g) Suffers := by
  refine keeps_bind suffers_beyond (resolveDisk_keeps g) (fun disk => ?_)
  refine suffers_bind userSubscription_suffers (fun subscription => ?_)
  refine keeps_bind suffers_beyond (workspaceVolumes_keeps g) (fun volumes => ?_)
  refine keeps_bind suffers_beyond (platform_keeps rfl (by simp)) (fun client => ?_)
  refine keeps_bind suffers_beyond (platform_keeps rfl (by simp)) (fun _ => ?_)
  exact keeps_bind suffers_beyond (keeps_except (platform_keeps rfl (by simp))) (fun _ => ⟨_,rfl⟩)

theorem bootstrap_keeps (c : Client) : Follows (hears cfg oid) s (bootstrap c) (Keeps s) := by
  intro r
  refine ⟨_,rfl,?_⟩
  cases hs : served ⟨.exec c bootstrapCommand,false⟩ r with
  | false =>
    rw [after_beyond hs]
    exact (beyond_follows _).mono (fun s' r h => .inl h)
  | true =>
    cases r with
    | error e => cases hs
    | ok res =>
      rw [after_same hs rfl]
      obtain ⟨code,out,err⟩ := res
      simp only [served,bne_self_eq_false,Bool.false_or,RawResult.boots,Bool.and_eq_true,decide_eq_true_eq] at hs
      obtain ⟨rfl,hout⟩ := hs
      obtain ⟨x,rfl⟩ := Option.isSome_iff_exists.mp hout
      exact ret_keeps ()

theorem afterRecord_keeps (c : Client) : Follows (hears cfg oid) s
    (do
      let already ← redisSafe (SessionSandboxCache.isBootstrapped cfg.sessions c.sandboxId) false
      if already then return c
      else
        bootstrap c
        redisSafe (SessionSandboxCache.markBootstrapped cfg.sessions c.sandboxId) ()
        return c) (Keeps s) := by
  refine keeps_bind keeps_beyond (safe_keeps ?_) (fun already => ?_)
  · exact bears_bind (get_bears (k := flagKey cfg c.sandboxId) (by simp)) (fun _ => ret_bears _)
  · cases already with
    | true => exact ret_keeps c
    | false =>
      refine keeps_bind keeps_beyond (bootstrap_keeps c) (fun _ => ?_)
      exact keeps_bind keeps_beyond (safe_keeps (set_bears _ _ _)) (fun _ => ret_keeps c)

theorem setUp_keeps (c : Client) : Follows (hears cfg oid) s (setUp cfg ctx c) (Keeps s) := by
  refine keeps_bind keeps_beyond (safe_keeps (set_bears _ _ _)) (fun _ => ?_)
  cases cfg.index with
  | true => exact keeps_bind keeps_beyond (safe_keeps (set_bears _ _ _)) (fun _ => afterRecord_keeps c)
  | false => exact afterRecord_keeps c

theorem withDlock_suffers {α : Type} {key : String} {p : M α} (hp : Follows (hears cfg oid) .fine p Suffers) :
    Follows (hears cfg oid) .fine (withDlock cfg key p) Suffers := by
  unfold withDlock
  split
  · exact hp
  · refine keeps_bind suffers_beyond (except_keeps (redis_bears rfl (by simp)) (fun _ => ret_keeps false))
      (fun got => ensuring_keeps suffers_beyond hp (fun s => ?_))
    split
    · exact except_keeps (redis_bears rfl (by simp)) (fun _ => ret_keeps ())
    · exact ret_keeps ()

theorem getOrCreate_suffers : Follows (hears cfg ctx.userOid) .fine (getOrCreate cfg ctx) Suffers := by
  refine withLock_keeps suffers_beyond (withDlock_suffers ?_)
  refine keeps_bind suffers_beyond (reuse_keeps ctx) (fun found => ?_)
  cases found with
  | some c => exact ⟨c,rfl⟩
  | none =>
    refine suffers_bind (waitFor_suffers (createSandbox_suffers ctx ctx.group)) (fun c => ?_)
    exact (keeps_except (setUp_keeps ctx c)).mono (fun s' r h => keeps_suffers h)

end Programs

section Traces

variable {cfg : Config} {oid : Option Guid} {ctx : SessionCtx} {command : String}
variable {tr : Task.Played Op Op.Ans Exc}

def Tone.along (cfg : Config) (oid : Option Guid) (s : Tone) (tr : Task.Played Op Op.Ans Exc) : Tone :=
  tr.foldl (fun s x => s.after cfg oid x.1 x.2) s

theorem over_hurt (hs : ∀ x ∈ tr, served x.1 x.2 = true) : Tone.along cfg oid .hurt tr = .hurt := by
  induction tr with
  | nil => rfl
  | cons x tr ih =>
    have hx : Tone.after cfg oid .hurt x.1 x.2 = .hurt := by simp [Tone.after,hs x (List.mem_cons_self ..)]
    simp only [Tone.along,List.foldl_cons,hx]
    exact ih (fun y hy => hs y (List.mem_cons_of_mem x hy))

theorem over_fine (hs : ∀ x ∈ tr, served x.1 x.2 = true) : Tone.along cfg oid .fine tr =
    if tr.any (fun x => losesProfile cfg oid x.1 x.2) then .hurt else .fine := by
  induction tr with
  | nil => rfl
  | cons x tr ih =>
    have hx := hs x (List.mem_cons_self ..)
    have hrest : ∀ y ∈ tr, served y.1 y.2 = true := fun y hy => hs y (List.mem_cons_of_mem x hy)
    cases hl : losesProfile cfg oid x.1 x.2 with
    | true =>
      have ha : Tone.after cfg oid .fine x.1 x.2 = .hurt := by simp [Tone.after,hx,hl]
      simp only [Tone.along,List.foldl_cons,ha,List.any_cons,hl,Bool.true_or,if_true]
      exact over_hurt hrest
    | false =>
      simp only [Tone.along,List.foldl_cons,after_same hx hl,List.any_cons,hl,Bool.false_or]
      exact ih hrest

theorem plays_call {α : Type} {o : Op} {k : Except Exc o.Ans → M α} {res : Except Exc α}
    (hp : Task.Plays (.call o k) tr res) : ∃ r tr', tr = ⟨o,r⟩ :: tr' ∧ Task.Plays (k r) tr' res := by
  cases hp with
  | call _ _ r tr' _ hk => exact ⟨r,tr',rfl,hk⟩

theorem plays_ret {α : Type} {a : α} {res : Except Exc α} (hp : Task.Plays (.ret a : M α) tr res) :
    tr = [] ∧ res = .ok a := by
  cases hp
  exact ⟨rfl,rfl⟩

-- The call returns what its own command printed exactly when it does not lose the profile.
theorem exec_survives {res : Except Exc ExecResult} (hp : Task.Plays (exec cfg ctx command) tr res)
    (hs : ∀ x ∈ tr, served x.1 x.2 = true) :
    (∃ c raw, tr.getLast? = some ⟨⟨.exec c (wrap cfg ctx command),false⟩,.ok raw⟩ ∧ res = .ok (capped cfg raw)) ↔
      ∀ x ∈ tr, losesProfile cfg ctx.userOid x.1 x.2 = false := by
  rcases Task.plays_bind hp with ⟨tr₁,tr₂,c,rfl,h₁,h₂⟩ | ⟨e,h,rfl⟩
  · obtain ⟨r,tr₃,rfl,hk⟩ := plays_call h₂
    have hs₁ : ∀ x ∈ tr₁, served x.1 x.2 = true := fun x hx => hs x (List.mem_append_left _ hx)
    have hr := hs ⟨_,r⟩ (List.mem_append_right _ (List.mem_cons_self ..))
    cases r with
    | error e => cases hr
    | ok raw =>
      have hret : Task.Plays (.ret (capped cfg raw) : M ExecResult) tr₃ res := hk
      obtain ⟨rfl,rfl⟩ := plays_ret hret
      have htone : Suffers (Tone.along cfg ctx.userOid .fine tr₁) (.ok c) := (getOrCreate_suffers ctx).plays h₁
      rw [over_fine hs₁] at htone
      have hl : tr₁.any (fun x => losesProfile cfg ctx.userOid x.1 x.2) = false := by
        cases hany : tr₁.any (fun x => losesProfile cfg ctx.userOid x.1 x.2) with
        | false => rfl
        | true =>
          simp only [hany,if_true] at htone
          obtain ⟨e,he⟩ := htone
          cases he
      constructor
      · rintro - x hx
        rcases List.mem_append.mp hx with hx | hx
        · exact Bool.eq_false_iff.mpr (List.any_eq_false.mp hl x hx)
        · cases List.mem_singleton.mp hx
          rfl
      · rintro -
        exact ⟨c,raw,List.getLast?_concat,rfl⟩
  · have htone : Suffers (Tone.along cfg ctx.userOid .fine tr) (.error e : Except Exc Client) :=
      (getOrCreate_suffers ctx).plays h
    rw [over_fine hs] at htone
    constructor
    · rintro ⟨_,_,_,hres⟩
      cases hres
    · intro hl
      have hany : tr.any (fun x => losesProfile cfg ctx.userOid x.1 x.2) = false :=
        List.any_eq_false.mpr (fun x hx => by rw [hl x hx]; exact Bool.false_ne_true)
      simp only [hany,Bool.false_eq_true,if_false] at htone
      obtain ⟨a,ha⟩ := htone
      cases ha

end Traces

section Schedules

abbrev Play := Task.Played Op Op.Ans Exc

def plays (c : Cmd) (a : c.Ans) (timed : Bool := false) : Σ o : Op, Except Exc o.Ans := ⟨⟨c,timed⟩,.ok a⟩

def loses (c : Cmd) (timed : Bool := false) : Σ o : Op, Except Exc o.Ans := ⟨⟨c,timed⟩,.error .redis⟩

-- A cold call of an unknown user, with Redis down throughout.
def coldOutage (cfg : Config) (ctx : SessionCtx) (id command : String) : Play :=
  let c : Client := ⟨cfg.groupNames ctx.group,id⟩
  [plays (.acquire (routingKey ctx)) (),loses (.get (ctxKey cfg ctx)),
    plays (.beginCreate (cfg.groupNames ctx.group) (sampleSpec cfg ctx)) c true,plays (.pollCreate c) () true,
    plays (.setLifecyclePolicy c cfg.autoDeleteSeconds) () true,
    loses (.set (ctxKey cfg ctx) (.text id) cfg.sessions.ttl),
    loses (.set (indexKey cfg id) (.binding (oidText ctx.userOid) ctx.sessionId ctx.group.name) none),
    loses (.get (flagKey cfg id)),plays (.exec c bootstrapCommand) ⟨0,some [],none⟩,
    loses (.set (flagKey cfg id) (.flag true) cfg.sessions.ttl),plays (.release (routingKey ctx)) (),
    plays (.exec c (wrap cfg ctx command)) ⟨0,some ['o','k'],none⟩]

theorem exec_survives_cold : ∃ (tr : Play) (res : Except Exc ExecResult),
    Task.Plays (exec sampleConfig (sampleCtx "s1" .action) sampleCommand) tr res ∧
    (∀ x ∈ tr, served x.1 x.2 = true) ∧ (∀ x ∈ tr, x.1.cmd.redis = true → x.2.isOk = false) ∧
    ∃ c raw, tr.getLast? = some ⟨⟨.exec c (wrap sampleConfig (sampleCtx "s1" .action) sampleCommand),false⟩,.ok raw⟩ ∧
      res = .ok (capped sampleConfig raw) := by
  have hp : Task.Plays (exec sampleConfig (sampleCtx "s1" .action) sampleCommand)
      (coldOutage sampleConfig (sampleCtx "s1" .action) "b1" sampleCommand)
      (.ok (capped sampleConfig ⟨0,some ['o','k'],none⟩)) := Task.plays_of_play (by decide +kernel)
  have hs : ∀ x ∈ coldOutage sampleConfig (sampleCtx "s1" .action) "b1" sampleCommand, served x.1 x.2 = true := by
    decide +kernel
  exact ⟨_,_,hp,hs,by decide +kernel,(exec_survives hp hs).mpr (by decide +kernel)⟩

-- A cold call of a known user: the read of its profile is the one that is not guarded.
def profileOutage (cfg : Config) (ctx : SessionCtx) : Play :=
  [plays (.acquire (routingKey ctx)) (),loses (.get (ctxKey cfg ctx)),
    loses (.get (cfg.profiles.k (UserProfileCache.key sampleOid.text))) true,plays (.release (routingKey ctx)) ()]

theorem exec_fails_with_redis : ∃ (tr : Play),
    Task.Plays (exec sampleConfig (sampleSession .action) sampleCommand) tr (.error .redis) ∧
    ∀ x ∈ tr, served x.1 x.2 = true :=
  ⟨profileOutage sampleConfig (sampleSession .action),Task.plays_of_play (by decide +kernel),by decide +kernel⟩

end Schedules

end IdentityAwareMcp
