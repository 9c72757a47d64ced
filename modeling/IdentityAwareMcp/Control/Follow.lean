import IdentityAwareMcp.Control.Phase

namespace IdentityAwareMcp

open Coop SandboxManager

section Combinators

variable {Ph α : Type} {mv : Ph → (o : Op) → Except Exc o.Ans → Ph → Prop}

theorem follows_except {ph : Ph} {p : M α} {h : Exc → M α} {Q R : Ph → Except Exc α → Prop}
    (hp : Follows mv ph p Q) (hok : ∀ ph a, Q ph (.ok a) → R ph (.ok a))
    (hexc : ∀ ph e, e.isException = true → Q ph (.error e) → Follows mv ph (h e) R)
    (hcut : ∀ ph e, e.isException = false → Q ph (.error e) → R ph (.error e)) :
    Follows mv ph (exceptException p h) R := by
  refine hp.handle hok (fun ph e hq => ?_)
  cases he : e.isException with
  | true => exact hexc ph e he hq
  | false => exact hcut ph e he hq

theorem follows_call {c : Cmd} {ph : Ph} {f : c.Ans → M α} {Q : Ph → Except Exc α → Prop}
    (hok : ∀ a, ∃ ph', mv ph ⟨c,false⟩ (.ok a) ph' ∧ Follows mv ph' (f a) Q)
    (herr : ∀ e, ∃ ph', mv ph ⟨c,false⟩ (.error e) ph' ∧ Q ph' (.error e)) :
    Follows mv ph ((perform c).bind f) Q := by
  intro r
  cases r with
  | ok a => exact hok a
  | error e => exact herr e

theorem follows_safe {ph : Ph} {p : M α} {d : α} {Q R : Ph → Except Exc α → Prop}
    (hp : Follows mv ph p Q) (hok : ∀ ph a, Q ph (.ok a) → R ph (.ok a))
    (hexc : ∀ ph e, e.isException = true → Q ph (.error e) → R ph (.ok d))
    (hcut : ∀ ph e, e.isException = false → Q ph (.error e) → R ph (.error e)) :
    Follows mv ph (redisSafe p d) R :=
  follows_except hp hok hexc hcut

theorem follows_withLock {ph : Ph} {key : String} {p : M α} {Q R : Ph → Except Exc α → Prop}
    (hbusy : ∀ e, ∃ ph', mv ph ⟨.acquire key,false⟩ (.error e) ph' ∧ R ph' (.error e))
    (hacq : ∀ u, ∃ ph', mv ph ⟨.acquire key,false⟩ (.ok u) ph' ∧ Follows mv ph' p Q)
    (hrel : ∀ ph r, Q ph r → ∀ u, ∃ ph', mv ph ⟨.release key,false⟩ u ph' ∧ After R r ph' u) : Follows mv ph (withLock key p) R := by
  intro r
  cases r with
  | ok u =>
    obtain ⟨ph',hm,hp⟩ := hacq u
    exact ⟨ph',hm,hp.ensuring (fun ph r hq => Follows.perform (hrel ph r hq))⟩
  | error e => exact hbusy e

theorem follows_waitFor {ph : Ph} {p : M α} {Q R : Ph → Except Exc α → Prop}
    (hp : Follows (fun ph o r ph' => mv ph ⟨o.cmd,true⟩ r ph') ph p Q)
    (hok : ∀ ph a, Q ph (.ok a) → R ph (.ok a))
    (herr : ∀ ph e, Q ph (.error e) → R ph (.error (if e = .deadline then .timeout else e))) :
    Follows mv ph (waitFor p) R := by
  induction p generalizing ph with
  | ret a => exact hok _ _ hp
  | raise e => exact herr _ _ hp
  | call o k ih =>
    intro r
    obtain ⟨ph',hm,hk⟩ := hp r
    exact ⟨ph',hm,ih r hk⟩

end Combinators

theorem leaving_unlock (res : Option Client) : Leaving res (.unlock res) := .inl rfl

theorem leaving_leave (res : Option Client) : Leaving res (.leave res) := .inr rfl

section Call

variable (cfg : Config) (ctx : SessionCtx) (command : Option String) {ex : Option Client → Stage}

-- Where a call stands after a part of it: at a stage that goes with the value,
-- or on its way out with no sandbox.
def Stands {α : Type} (ex : Option Client → Stage) (Q : α → Stage) : Stage → Except Exc α → Prop
  | st, .ok a => st = Q a
  | st, .error _ => st = ex none

-- After _redis_safe only what is no Exception gets through.
def Cuts {α : Type} (ex : Option Client → Stage) (Q : α → Stage) : Stage → Except Exc α → Prop
  | st, .ok a => st = Q a
  | st, .error e => e.isException = false ∧ st = ex none

-- The same before _redis_safe looks at the exception.
def Safely {α : Type} (ex : Option Client → Stage) (d : α) (Q : α → Stage) : Stage → Except Exc α → Prop
  | st, .ok a => st = Q a
  | st, .error e => if e.isException then st = Q d else st = ex none

theorem follows_safely {α : Type} {st : Stage} {p : M α} {d : α} {Q : α → Stage}
    (hp : Follows (CallMove cfg ctx command) st p (Safely ex d Q)) :
    Follows (CallMove cfg ctx command) st (redisSafe p d) (Cuts ex Q) := by
  refine follows_safe hp (fun st a h => h) (fun st e he h => ?_) (fun st e he h => ?_)
  · simp only [Safely,he,if_true] at h
    exact h
  · simp only [Safely,he,Bool.false_eq_true,if_false] at h
    exact ⟨he,h⟩

def afterLook : Option String → Stage
  | some id => .wake ⟨cfg.groupNames ctx.group,id⟩
  | none => .prep

def afterReuse (ex : Option Client → Stage) : Option Client → Stage
  | some c => ex (some c)
  | none => .prep

variable (hex : ∀ res, Leaving res (ex res))
include hex

theorem get_follows : Follows (CallMove cfg ctx command) .look
    (redisSafe (SessionSandboxCache.get cfg.sessions (oidText ctx.userOid) ctx.sessionId ctx.group.name) none)
    (Cuts ex (afterLook cfg ctx)) := by
  refine follows_safely cfg ctx command (follows_call (fun v => ?_) (fun e => ?_))
  · cases hv : v.bind Value.asText with
    | none => exact ⟨_,.miss v hv,rfl⟩
    | some id =>
      refine ⟨_,.hit v id hv,follows_call (fun u => ?_) (fun e => ?_)⟩
      · exact ⟨_,.refreshed _ u,rfl⟩
      · cases he : e.isException with
        | true => exact ⟨_,.refreshFailed _ e he,by simp [Safely,he,afterLook]⟩
        | false => exact ⟨_,.refreshCut _ e _ he (hex none),by simp [Safely,he]⟩
  · cases he : e.isException with
    | true => exact ⟨_,.lookFailed e he,by simp [Safely,he,afterLook]⟩
    | false => exact ⟨_,.lookCut e _ he (hex none),by simp [Safely,he]⟩

theorem unbind_follows : Follows (CallMove cfg ctx command) .unbind
    (redisSafe (SessionSandboxCache.delete cfg.sessions (oidText ctx.userOid) ctx.sessionId ctx.group.name) ())
    (Cuts ex (fun _ => .prep)) := by
  refine follows_safely cfg ctx command (Follows.perform (fun r => ?_))
  cases r with
  | ok u => exact ⟨_,.unbound u,rfl⟩
  | error e =>
    cases he : e.isException with
    | true => exact ⟨_,.unbindFailed e he,by simp [Safely,he]⟩
    | false => exact ⟨_,.unbindCut e _ he (hex none),by simp [Safely,he]⟩

def Waking (ex : Option Client → Stage) (c : Client) : Stage → Except Exc (Option Client) → Prop
  | st, .ok (some c') => c' = c ∧ st = ex (some c)
  | _, .ok none => False
  | st, .error e => if e = .notFound then st = .unbind else st = ex none

omit hex in
theorem wake_follows (hex : ∀ res, Leaving res (ex res)) (c : Client) :
    Follows (CallMove cfg ctx command) (.wake c)
      (do perform (.ensureRunning c); return some c) (Waking ex c) := by
  refine follows_call (fun u => ⟨_,.woken c u _ (hex (some c)),rfl,rfl⟩) (fun e => ?_)
  by_cases he : e = .notFound
  · subst he
    exact ⟨_,.stale c,by simp [Waking]⟩
  · exact ⟨_,.wakeFailed c e _ he (hex none),by simp [Waking,he]⟩

theorem reuse_follows : Follows (CallMove cfg ctx command) .look (reuse cfg ctx)
    (Stands ex (afterReuse ex)) := by
  refine (get_follows cfg ctx command hex).bind (fun st v h => ?_) (fun st e h => h.2)
  cases v with
  | none => exact h
  | some id =>
    cases h
    refine (wake_follows cfg ctx command hex _).handle (fun st a h => ?_) (fun st e h => ?_)
    · cases a with
      | none => cases h
      | some c => obtain ⟨rfl,rfl⟩ := h; rfl
    · by_cases he : e = .notFound
      · subst he
        simp only [Waking,if_true] at h
        subst h
        exact (unbind_follows cfg ctx command hex).bind (fun st u h => h) (fun st e h => h.2)
      · simp only [Waking,he,if_false] at h
        simp only [he,if_false]
        exact h

omit hex in
abbrev TimedMove : Stage → (o : Op) → Except Exc o.Ans → Stage → Prop :=
  fun st o r st' => CallMove cfg ctx command st ⟨o.cmd,true⟩ r st'

omit hex in
-- Inside the creation: `fail` is where an exception leaves the call.
def Prepares {α : Type} (fail : Stage) : Stage → Except Exc α → Prop
  | st, .ok _ => st = .prep
  | st, .error _ => st = fail

omit hex in
theorem prep_perform {c : Cmd} {fail : Stage} (hc : Preparing cfg ctx c)
    (hf : fail = .prep ∨ Leaving none fail) :
    Follows (TimedMove cfg ctx command) .prep (perform c) (Prepares fail) := by
  refine Follows.perform (fun r => ?_)
  cases r with
  | ok a => exact ⟨_,.prepared c (.ok a) hc,rfl⟩
  | error e =>
    rcases hf with rfl | hf
    · exact ⟨_,.prepared c (.error e) hc,rfl⟩
    · exact ⟨_,.prepFailed c (.error e) fail hc hf,rfl⟩

omit hex in
theorem prep_bind {α β : Type} {p : M α} {f : α → M β} {fail : Stage}
    (hp : Follows (TimedMove cfg ctx command) .prep p (Prepares fail))
    (hf : ∀ a, Follows (TimedMove cfg ctx command) .prep (f a) (Prepares fail)) :
    Follows (TimedMove cfg ctx command) .prep (p.bind f) (Prepares fail) :=
  hp.bind (fun st a h => by cases h; exact hf a) (fun st e h => h)

omit hex in
theorem prep_lock {α : Type} {p : M α} {key : String} {fail : Stage}
    (ha : Preparing cfg ctx (.acquire key)) (hr : Preparing cfg ctx (.release key))
    (hf : fail = .prep ∨ Leaving none fail)
    (hp : Follows (TimedMove cfg ctx command) .prep p (Prepares .prep)) :
    Follows (TimedMove cfg ctx command) .prep (withLock key p) (Prepares fail) := by
  refine prep_bind cfg ctx command (prep_perform cfg ctx command ha hf) (fun u => ?_)
  refine hp.ensuring (fun st r h => ?_)
  have hst : st = .prep := by cases r <;> exact h
  subst hst
  refine Follows.perform (fun u => ?_)
  have hfail : ∃ st', TimedMove cfg ctx command .prep ⟨.release key,false⟩ u st' ∧ st' = fail := by
    rcases hf with rfl | hf
    · exact ⟨_,.prepared (.release key) u hr,rfl⟩
    · exact ⟨_,.prepFailed (.release key) u fail hr hf,rfl⟩
  cases u with
  | error e => exact hfail
  | ok u =>
    cases r with
    | error e => exact hfail
    | ok a => exact ⟨_,.prepared (.release key) (.ok u) hr,rfl⟩

omit hex in
theorem prep_ret {α : Type} {fail : Stage} (a : α) :
    Follows (TimedMove cfg ctx command) .prep (.ret a) (Prepares fail) := rfl

omit hex in
theorem reuseDiskImage_follows (groupName : String) :
    Follows (TimedMove cfg ctx command) .prep (exceptException (reuseDiskImage groupName) (fun _ => return none))
      (Prepares .prep) := by
  refine follows_except (Q := Prepares .prep) ?_ (fun st a h => h) (fun st e _ h => h) (fun st e _ h => h)
  refine prep_bind cfg ctx command (prep_perform cfg ctx command (by trivial) (.inl rfl)) (fun images => ?_)
  cases List.find? usable images with
  | none => exact prep_ret cfg ctx command none
  | some img =>
    exact prep_bind cfg ctx command (prep_perform cfg ctx command (by trivial) (.inl rfl))
      (fun _ => prep_ret cfg ctx command (some img.id))

omit hex in
theorem ensureDiskImage_follows (image : String) {fail : Stage} (hf : fail = .prep ∨ Leaving none fail) :
    Follows (TimedMove cfg ctx command) .prep (ensureDiskImage cfg ctx.group image) (Prepares fail) := by
  refine prep_lock cfg ctx command (.inl rfl) (.inl rfl) hf ?_
  refine prep_bind cfg ctx command (prep_perform cfg ctx command (by trivial) (.inl rfl)) (fun built => ?_)
  split
  · refine prep_bind cfg ctx command (reuseDiskImage_follows cfg ctx command _) (fun found => ?_)
    cases found with
    | some id => exact prep_ret cfg ctx command id
    | none =>
      refine prep_bind cfg ctx command (prep_perform cfg ctx command (by trivial) (.inl rfl)) (fun id => ?_)
      refine prep_bind cfg ctx command (prep_perform cfg ctx command (by trivial) (.inl rfl)) (fun _ => ?_)
      refine prep_bind cfg ctx command (prep_perform cfg ctx command (by trivial) (.inl rfl)) (fun _ => ?_)
      exact prep_ret cfg ctx command id
  · exact prep_ret cfg ctx command _

omit hex in
theorem resolveDisk_follows {fail : Stage} (hf : fail = .prep ∨ Leaving none fail) :
    Follows (TimedMove cfg ctx command) .prep (resolveDisk cfg ctx.group) (Prepares fail) := by
  unfold resolveDisk
  split
  · exact prep_ret cfg ctx command _
  · split
    · exact prep_bind cfg ctx command (ensureDiskImage_follows cfg ctx command _ hf)
        (fun id => prep_ret cfg ctx command _)
    · exact prep_ret cfg ctx command _

omit hex in
theorem userSubscription_follows {fail : Stage} (hf : fail = .prep ∨ Leaving none fail) :
    Follows (TimedMove cfg ctx command) .prep (userSubscription cfg ctx.userOid) (Prepares fail) := by
  unfold userSubscription
  cases ctx.userOid with
  | none => exact prep_ret cfg ctx command _
  | some g =>
    refine prep_bind cfg ctx command (prep_perform cfg ctx command ⟨_,rfl⟩ hf) (fun v => ?_)
    split
    · split <;> exact prep_ret cfg ctx command _
    · exact prep_ret cfg ctx command _

omit hex in
theorem createVolume_follows (container : String) :
    Follows (TimedMove cfg ctx command) .prep
      ((perform (.createVolume (cfg.groupNames ctx.group) container)).handle (fun e =>
        if e.isHttp && e.statusCode = some 409 then .ret () else .raise e)) (Prepares .prep) := by
  refine Follows.handle (Q := Prepares .prep) (prep_perform cfg ctx command (by trivial) (.inl rfl))
    (fun st a h => h) (fun st e h => ?_)
  cases h
  split
  · exact prep_ret cfg ctx command _
  · rfl

omit hex in
theorem workspaceVolumes_follows {fail : Stage} (hf : fail = .prep ∨ Leaving none fail) :
    Follows (TimedMove cfg ctx command) .prep (workspaceVolumes cfg ctx.group) (Prepares fail) := by
  unfold workspaceVolumes
  cases cfg.blobContainerResourceId with
  | none => exact prep_ret cfg ctx command _
  | some container =>
    refine prep_bind cfg ctx command ?_ (fun _ => prep_ret cfg ctx command _)
    refine prep_bind cfg ctx command (prep_perform cfg ctx command (by trivial) hf) (fun seen => ?_)
    split
    · exact prep_ret cfg ctx command _
    · refine prep_lock cfg ctx command (.inr rfl) (.inr rfl) hf ?_
      refine prep_bind cfg ctx command (prep_perform cfg ctx command (by trivial) (.inl rfl)) (fun seen => ?_)
      split
      · exact prep_ret cfg ctx command _
      · exact prep_bind cfg ctx command (createVolume_follows cfg ctx command container)
          (fun _ => prep_perform cfg ctx command (by trivial) (.inl rfl))

theorem autodelete_follows (c : Client) :
    Follows (TimedMove cfg ctx command) (.policy c) (applyIdleAutodelete cfg c) (Stands ex (fun _ => .publish c)) := by
  refine follows_except (Q := Safely ex () (fun _ => .publish c)) (Follows.perform (fun r => ?_))
    (fun st a h => h) (fun st e he h => ?_) (fun st e he h => ?_)
  · cases r with
    | ok u => exact ⟨_,.policySet c u,rfl⟩
    | error e =>
      cases he : e.isException with
      | true => exact ⟨_,.policyFailed c e he,by simp [Safely,he]⟩
      | false => exact ⟨_,.policyCut c e _ he (hex none),by simp [Safely,he]⟩
  · simp only [Safely,he,if_true] at h
    exact h
  · simp only [Safely,he,Bool.false_eq_true,if_false] at h
    exact h

theorem createSandbox_follows :
    Follows (TimedMove cfg ctx command) .prep (createSandbox cfg ctx ctx.group) (Stands ex .publish) := by
  have hf : ex none = .prep ∨ Leaving none (ex none) := .inr (hex none)
  refine (resolveDisk_follows cfg ctx command hf).bind (fun st disk h => ?_) (fun st e h => h)
  cases h
  refine (userSubscription_follows cfg ctx command hf).bind (fun st sub h => ?_) (fun st e h => h)
  cases h
  refine (workspaceVolumes_follows cfg ctx command hf).bind (fun st vol h => ?_) (fun st e h => h)
  cases h
  intro r
  cases r with
  | error e => exact ⟨_,.beginFailed _ e _ rfl (hex none),rfl⟩
  | ok c =>
    refine ⟨_,.began _ c rfl,fun r => ?_⟩
    cases r with
    | error e => exact ⟨_,.createFailed c e _ (hex none),rfl⟩
    | ok u =>
      exact ⟨_,.created c u,(autodelete_follows cfg ctx command hex c).bind
        (fun st _ h => h) (fun st e h => h)⟩

-- The set-up after a creation: an Exception leads to the rollback.
def SettingUp (ex : Option Client → Stage) (c : Client) : Stage → Except Exc Client → Prop
  | st, .ok c' => c' = c ∧ st = ex (some c)
  | st, .error e => if e.isException then st = .rollback else st = ex none

theorem publish_follows (c : Client) : Follows (CallMove cfg ctx command) (.publish c)
    (redisSafe (SessionSandboxCache.set cfg.sessions (oidText ctx.userOid) ctx.sessionId ctx.group.name
      c.sandboxId) ()) (Cuts ex (fun _ => if cfg.index then .record c else .flag c)) := by
  refine follows_safely cfg ctx command (Follows.perform (fun r => ?_))
  cases r with
  | ok u => exact ⟨_,.published c (.ok u) _ (by simp) rfl,rfl⟩
  | error e =>
    cases he : e.isException with
    | true => exact ⟨_,.published c (.error e) _ (by simp [he]) rfl,by simp [Safely,he]⟩
    | false => exact ⟨_,.publishCut c e _ he (hex none),by simp [Safely,he]⟩

theorem record_follows (c : Client) : Follows (CallMove cfg ctx command) (.record c)
    (redisSafe (cfg.indexBackend.set c.sandboxId
      (.binding (oidText ctx.userOid) ctx.sessionId ctx.group.name)) ()) (Cuts ex (fun _ => .flag c)) := by
  refine follows_safely cfg ctx command (Follows.perform (fun r => ?_))
  cases r with
  | ok u => exact ⟨_,.recorded c (.ok u) (by simp),rfl⟩
  | error e =>
    cases he : e.isException with
    | true => exact ⟨_,.recorded c (.error e) (by simp [he]),by simp [Safely,he]⟩
    | false => exact ⟨_,.recordCut c e _ he (hex none),by simp [Safely,he]⟩

theorem flag_follows (c : Client) : Follows (CallMove cfg ctx command) (.flag c)
    (redisSafe (SessionSandboxCache.isBootstrapped cfg.sessions c.sandboxId) false)
    (Cuts ex (fun already => if already then ex (some c) else .boot c)) := by
  refine follows_safely cfg ctx command (follows_call (fun v => ?_) (fun e => ?_))
  · by_cases hv : v = some (.flag true)
    · subst hv
      exact ⟨_,.flagged c _ (hex (some c)),by simp [Follows,Safely]⟩
    · exact ⟨_,.unflagged c v hv,by simp [Follows,Safely,hv]⟩
  · cases he : e.isException with
    | true => exact ⟨_,.flagFailed c e he,by simp [Safely,he]⟩
    | false => exact ⟨_,.flagCut c e _ he (hex none),by simp [Safely,he]⟩

def Booting (ex : Option Client → Stage) (c : Client) : Stage → Except Exc Unit → Prop
  | st, .ok _ => st = .mark c
  | st, .error e => if e.isException then st = .rollback else st = ex none

theorem bootstrap_follows (c : Client) :
    Follows (CallMove cfg ctx command) (.boot c) (bootstrap c) (Booting ex c) := by
  refine follows_call (fun res => ?_) (fun e => ?_)
  · obtain ⟨code,out,err⟩ := res
    by_cases hc : code = 0
    · subst hc
      cases out with
      | some x => exact ⟨_,.booted c _ rfl,rfl⟩
      | none => exact ⟨_,.bootRefused c _ rfl,rfl⟩
    · refine ⟨_,.bootRefused c ⟨code,out,err⟩ (by simp [RawResult.boots,hc]),?_⟩
      simp only [ne_eq,hc,not_false_eq_true,if_true]
      cases err <;> rfl
  · cases he : e.isException with
    | true => exact ⟨_,.bootFailed c e he,by simp [Booting,he]⟩
    | false => exact ⟨_,.bootCut c e _ he (hex none),by simp [Booting,he]⟩

theorem mark_follows (c : Client) : Follows (CallMove cfg ctx command) (.mark c)
    (redisSafe (SessionSandboxCache.markBootstrapped cfg.sessions c.sandboxId) ())
    (Cuts ex (fun _ => ex (some c))) := by
  refine follows_safely cfg ctx command (Follows.perform (fun r => ?_))
  cases r with
  | ok u => exact ⟨_,.marked c (.ok u) _ (by simp) (hex (some c)),rfl⟩
  | error e =>
    cases he : e.isException with
    | true => exact ⟨_,.marked c (.error e) _ (by simp [he]) (hex (some c)),by simp [Safely,he]⟩
    | false => exact ⟨_,.markCut c e _ he (hex none),by simp [Safely,he]⟩

omit hex in
theorem cut_settingUp {c : Client} {st : Stage} {e : Exc} (h : e.isException = false ∧ st = ex none) :
    SettingUp ex c st (.error e) := by
  simp only [SettingUp,h.1,Bool.false_eq_true,if_false]
  exact h.2

theorem afterRecord_follows (c : Client) : Follows (CallMove cfg ctx command) (.flag c)
    (do
      let already ← redisSafe (SessionSandboxCache.isBootstrapped cfg.sessions c.sandboxId) false
      if already then return c
      else
        bootstrap c
        redisSafe (SessionSandboxCache.markBootstrapped cfg.sessions c.sandboxId) ()
        return c) (SettingUp ex c) := by
  refine (flag_follows cfg ctx command hex c).bind (fun st already h => ?_) (fun st e h => cut_settingUp h)
  cases already with
  | true => exact ⟨rfl,h⟩
  | false =>
    cases h
    refine (bootstrap_follows cfg ctx command hex c).bind (fun st u h => ?_) (fun st e h => h)
    cases h
    exact (mark_follows cfg ctx command hex c).bind (fun st u h => ⟨rfl,h⟩) (fun st e h => cut_settingUp h)

theorem setUp_follows (c : Client) :
    Follows (CallMove cfg ctx command) (.publish c) (setUp cfg ctx c) (SettingUp ex c) := by
  refine (publish_follows cfg ctx command hex c).bind (fun st u h => ?_) (fun st e h => cut_settingUp h)
  cases h
  cases hi : cfg.index with
  | true =>
    exact (record_follows cfg ctx command hex c).bind
      (fun st u h => by cases h; exact afterRecord_follows cfg ctx command hex c)
      (fun st e h => cut_settingUp h)
  | false => exact afterRecord_follows cfg ctx command hex c

def critical : M Client := do
  match ← reuse cfg ctx with
  | some client => return client
  | none =>
    let client ← waitFor (createSandbox cfg ctx ctx.group)
    exceptException (setUp cfg ctx client) (fun e => do
      redisSafe (SessionSandboxCache.delete cfg.sessions (oidText ctx.userOid) ctx.sessionId
        ctx.group.name) ()
      .raise e)

theorem rollback_follows (e : Exc) : Follows (CallMove cfg ctx command) .rollback
    (do
      redisSafe (SessionSandboxCache.delete cfg.sessions (oidText ctx.userOid) ctx.sessionId
        ctx.group.name) ()
      .raise e : M Client) (Stands ex (fun c => ex (some c))) := by
  have hd : Follows (CallMove cfg ctx command) .rollback
      (SessionSandboxCache.delete cfg.sessions (oidText ctx.userOid) ctx.sessionId ctx.group.name)
      (fun st _ => st = ex none) :=
    Follows.perform (fun r => ⟨_,.rolledBack r _ (hex none),rfl⟩)
  refine (follows_safe (R := fun st _ => st = ex none) hd (fun st a h => h) (fun st e _ h => h)
    (fun st e _ h => h)).bind (fun st u h => h) (fun st e h => h)

theorem critical_follows : Follows (CallMove cfg ctx command) .look (critical cfg ctx)
    (Stands ex (fun c => ex (some c))) := by
  refine (reuse_follows cfg ctx command hex).bind (fun st found h => ?_) (fun st e h => h)
  cases found with
  | some c => exact h
  | none =>
    cases h
    refine (follows_waitFor (R := Stands ex .publish) (createSandbox_follows cfg ctx command hex)
      (fun st a h => h) (fun st e h => h)).bind (fun st c h => ?_) (fun st e h => h)
    cases h
    refine follows_except (Q := SettingUp ex c) (setUp_follows cfg ctx command hex c) (fun st c' h => ?_)
      (fun st e he h => ?_) (fun st e he h => ?_)
    · obtain ⟨rfl,rfl⟩ := h
      rfl
    · simp only [SettingUp,he,if_true] at h
      cases h
      exact rollback_follows cfg ctx command hex e
    · simp only [SettingUp,he,Bool.false_eq_true,if_false] at h
      exact h

end Call

section Calls

variable {α : Type} (cfg : Config) (ctx : SessionCtx) (command : Option String)

def AtLeave (f : α → Option Client) : Stage → Except Exc α → Prop
  | st, .ok a => st = .leave (f a)
  | st, .error _ => st = .leave none

def Unlocking (res : Option Client) : Stage → Except Exc Unit → Prop
  | st, .ok _ => st = .leave res
  | st, .error e => if e.isException then st = .leave res else st = .leave none

theorem unlock_follows (res : Option Client) : Follows (CallMove cfg ctx command) (.unlock res)
    (exceptException (perform (.unlockRedis (lockKey ctx))) (fun _ => return ()))
    (AtLeave (fun _ => res)) := by
  refine follows_except (Q := Unlocking res) (Follows.perform (fun r => ?_)) (fun st a h => h)
    (fun st e he h => ?_) (fun st e he h => ?_)
  · cases r with
    | ok u => exact ⟨_,.unlocked res (.ok u) (by simp),rfl⟩
    | error e =>
      cases he : e.isException with
      | true => exact ⟨_,.unlocked res (.error e) (by simp [he]),by simp [Unlocking,he]⟩
      | false => exact ⟨_,.unlockCut res e he,by simp [Unlocking,he]⟩
  · simp only [Unlocking,he,if_true] at h
    exact h
  · simp only [Unlocking,he,Bool.false_eq_true,if_false] at h
    exact h

theorem unlocking_follows (r : Except Exc Client) {st : Stage}
    (h : Stands .unlock (fun c => .unlock (some c)) st r) :
    Follows (CallMove cfg ctx command) st
      (exceptException (perform (.unlockRedis (lockKey ctx))) (fun _ => return ()))
      (After (AtLeave some) r) := by
  cases r with
  | ok c =>
    cases h
    refine (unlock_follows cfg ctx command (some c)).mono (fun st u h => ?_)
    cases u <;> exact h
  | error e =>
    cases h
    refine (unlock_follows cfg ctx command none).mono (fun st u h => ?_)
    cases u <;> exact h

theorem afterLock_follows (got : Bool) : Follows (CallMove cfg ctx command) .look
    ((critical cfg ctx).ensuring (do
      if got then exceptException (perform (.unlockRedis ("lock:" ++ routingKey ctx))) (fun _ => return ())))
    (AtLeave some) := by
  cases got with
  | true =>
    refine (critical_follows cfg ctx command leaving_unlock).ensuring (fun st r h => ?_)
    exact unlocking_follows cfg ctx command r h
  | false =>
    refine (critical_follows cfg ctx command leaving_leave).ensuring (fun st r h => ?_)
    cases r <;> exact h

def Waiting : Stage → Except Exc Bool → Prop
  | st, .ok _ => st = .look
  | st, .error e => if e.isException then st = .look else st = .leave none

theorem withDlock_follows : ∃ st, (∀ u, CallMove cfg ctx command .start ⟨.acquire (routingKey ctx),false⟩ (.ok u) st) ∧
    Follows (CallMove cfg ctx command) st (withDlock cfg (routingKey ctx) (critical cfg ctx)) (AtLeave some) := by
  unfold withDlock
  split
  · refine ⟨.look,fun u => .acquiredAlone u,?_⟩
    exact (critical_follows cfg ctx command leaving_leave).mono
      (fun st r h => by cases r <;> exact h)
  · refine ⟨.wait,fun u => .acquired u,?_⟩
    refine Follows.bind (Q := fun st r => match r with
      | .ok _ => st = .look
      | .error _ => st = .leave none) ?_ (fun st got h => ?_) (fun st e h => h)
    · refine follows_except (Q := Waiting) (Follows.perform (fun r => ?_)) (fun st a h => h)
        (fun st e he h => ?_) (fun st e he h => ?_)
      · cases r with
        | ok got => exact ⟨_,.locked got,rfl⟩
        | error e =>
          cases he : e.isException with
          | true => exact ⟨_,.lockFailed e he,by simp [Waiting,he]⟩
          | false => exact ⟨_,.lockCut e he,by simp [Waiting,he]⟩
      · simp only [Waiting,he,if_true] at h
        exact h
      · simp only [Waiting,he,Bool.false_eq_true,if_false] at h
        exact h
    · cases h
      exact afterLock_follows cfg ctx command got

def Left : Stage → Except Exc Client → Prop
  | st, .ok c => st = .left (some c)
  | st, .error _ => st = .left none

theorem getOrCreate_follows : Follows (CallMove cfg ctx command) .start (getOrCreate cfg ctx) Left := by
  obtain ⟨st,hst,hw⟩ := withDlock_follows cfg ctx command
  refine follows_withLock (Q := AtLeave some) (p := withDlock cfg (routingKey ctx) (critical cfg ctx))
    (fun e => ⟨_,.gaveUp e,rfl⟩) (fun u => ⟨st,hst u,hw⟩) (fun st r h u => ?_)
  cases r with
  | ok c =>
    cases h
    cases u with
    | ok u => exact ⟨_,.released (some c) u,rfl⟩
    | error e => exact ⟨_,.releaseFailed (some c) e,rfl⟩
  | error e' =>
    cases h
    cases u with
    | ok u => exact ⟨_,.released none u,rfl⟩
    | error e => exact ⟨_,.releaseFailed none e,rfl⟩

end Calls

end IdentityAwareMcp
