import IdentityAwareMcp.Control.Follow

namespace IdentityAwareMcp

open Coop SandboxManager

variable (cfg : Config)

section EndSession

variable (oid : Option Guid) (sessionId : Option String)

def Ended (gs : List Group) : Ending → Except Exc Unit → Prop
  | st, .ok _ => st = .peek gs
  | st, .error _ => st = .ended

theorem forget_follows (g : Group) (id : String) (gs : List Group) (r : Except Exc Unit) :
    Follows (EndMove cfg oid sessionId) (.unbind g id gs)
      (do
        SessionSandboxCache.delete cfg.sessions (oidText oid) sessionId g.name
        if cfg.index then cfg.indexBackend.delete id) (After (Ended gs) r) := by
  refine follows_call (fun u => ?_) (fun e => ⟨.ended,.unbound g id gs (.error e) _ (.inr (.inr rfl)) (by simp),rfl⟩)
  cases hi : cfg.index with
  | true =>
    refine ⟨.unindex g id gs,.unbound g id gs (.ok u) _ (.inl rfl) (by simp),Follows.perform (fun u' => ?_)⟩
    cases u' with
    | error e => exact ⟨.ended,.unindexed g id gs (.error e) _ (.inr rfl),rfl⟩
    | ok u' =>
      cases r with
      | ok v => exact ⟨.peek gs,.unindexed g id gs (.ok u') _ (.inl rfl),rfl⟩
      | error e => exact ⟨.ended,.unindexed g id gs (.ok u') _ (.inr rfl),rfl⟩
  | false =>
    cases r with
    | ok v => exact ⟨.peek gs,.unbound g id gs (.ok u) _ (.inr (.inl rfl)) (by simp [hi]),rfl⟩
    | error e => exact ⟨.ended,.unbound g id gs (.ok u) _ (.inr (.inr rfl)) (by simp [hi]),rfl⟩

def Peeked (g : Group) (gs : List Group) : Ending → Except Exc (Option String) → Prop
  | st, .ok none => st = .peek gs
  | st, .ok (some id) => st = .delete g id gs
  | st, .error _ => st = .ended

theorem peek_follows (g : Group) (gs : List Group) : Follows (EndMove cfg oid sessionId) (.peek (g :: gs))
    (SessionSandboxCache.peek cfg.sessions (oidText oid) sessionId g.name) (Peeked g gs) := by
  refine follows_call (fun v => ?_) (fun e => ⟨_,.peekFailed g gs e,rfl⟩)
  cases hv : v.bind Value.asText with
  | none => exact ⟨_,.absent g gs v hv,by simp [Follows,Peeked]⟩
  | some id => exact ⟨_,.found g gs v id hv,by simp [Follows,Peeked]⟩

theorem endGroups_follows (gs : List Group) :
    Follows (EndMove cfg oid sessionId) (.peek gs) (endGroups cfg oid sessionId gs)
      (fun st _ => st = .peek [] ∨ st = .ended) := by
  induction gs with
  | nil => exact .inl rfl
  | cons g gs ih =>
    refine Follows.bind (peek_follows cfg oid sessionId g gs) (fun st v h => ?_) (fun st e h => .inr h)
    cases v with
    | none =>
      cases h
      exact ih
    | some id =>
      cases h
      refine Follows.bind (Q := Ended gs) ?_ (fun st u h => ?_) (fun st e h => .inr h)
      · refine Follows.ensuring (Q := fun st _ => st = .unbind g id gs) ?_ (fun st r h => ?_)
        · refine Follows.handle (Q := fun st _ => st = .unbind g id gs) ?_ (fun st u h => h) (fun st e h => ?_)
          · exact Follows.perform (fun r => ⟨_,.deleted g id gs r,rfl⟩)
          · split <;> exact h
        · cases h
          exact forget_follows cfg oid sessionId g id gs r
      · cases h
        exact ih

end EndSession

section Reaper

def Dropped {α : Type} (next : Reaping) (gs : List Group) : Reaping → Except Exc α → Prop
  | st, .ok _ => st = next
  | st, .error e => st = .list (if e.isException then gs else [])

theorem dropping (e : Exc) (gs : List Group) : Dropping gs (.list (if e.isException then gs else [])) := by
  cases e.isException with
  | true => exact .inl rfl
  | false => exact .inr rfl

def Alive (g : Group) (id : String) (ids : List String) (gs : List Group) :
    Reaping → Except Exc (Option String) → Prop
  | st, .ok live => st = if live = some id then Reaping.next g ids gs else .kill g id ids gs
  | st, .error e => st = .list (if e.isException then gs else [])

theorem reapPeek_follows (g : Group) (id : String) (ids : List String) (gs : List Group)
    (oid s : Option String) (gr : String) :
    Follows (ReapMove cfg) (.peek g id (sessionKey cfg oid s gr) ids gs)
      (SessionSandboxCache.peek cfg.sessions oid s gr) (Alive g id ids gs) := by
  refine follows_call (fun v => ?_) (fun e => ⟨_,.peekFailed g id _ ids gs e _ (dropping e gs),rfl⟩)
  by_cases hv : v.bind Value.asText = some id
  · exact ⟨_,.alive g id _ ids gs v hv,by simp [Follows,Alive,hv]⟩
  · exact ⟨_,.orphan g id _ ids gs v hv,by simp [Follows,Alive,hv]⟩

theorem reapOne_follows (g : Group) (id : String) (ids : List String) (gs : List Group) :
    Follows (ReapMove cfg) (.binding g id ids gs) (reapOne cfg (cfg.groupNames g) id)
      (Dropped (Reaping.next g ids gs) gs) := by
  refine follows_call (fun v => ?_)
    (fun e => ⟨_,.bindingFailed g id ids gs (.error e) _ (dropping e gs) (by simp),rfl⟩)
  have hbad : ∀ x, (∀ oid s gr, x ≠ Value.binding oid s gr) →
      ∃ st, ReapMove cfg (.binding g id ids gs) ⟨.get (indexKey cfg id),false⟩ (.ok (some x)) st ∧
      Follows (ReapMove cfg) st (.raise .other : M Unit) (Dropped (Reaping.next g ids gs) gs) := by
    intro x hx
    refine ⟨.list gs,.bindingFailed g id ids gs (.ok (some x)) _ (.inl rfl) ?_,rfl⟩
    rintro _ ⟨⟩
    exact ⟨x,rfl,hx⟩
  match v with
  | none => exact ⟨_,.unmanaged g id ids gs,rfl⟩
  | some (.text x) => exact hbad (.text x) (by simp)
  | some (.flag x) => exact hbad (.flag x) (by simp)
  | some (.profile x) => exact hbad (.profile x) (by simp)
  | some (.names x) => exact hbad (.names x) (by simp)
  | some (.token x) => exact hbad (.token x) (by simp)
  | some (.binding oid s gr) =>
    refine ⟨_,.managed g id ids gs oid s gr,?_⟩
    refine Follows.bind (reapPeek_follows cfg g id ids gs oid s gr) (fun st live h => ?_) (fun st e h => h)
    by_cases hl : live = some id
    · simp only [Alive,hl,if_true] at h ⊢
      exact h
    · simp only [Alive,hl,if_false] at h ⊢
      cases h
      refine Follows.bind (Q := Dropped (.unindex g id ids gs) gs) ?_ (fun st u h => ?_) (fun st e h => h)
      · intro r
        cases r with
        | ok u => exact ⟨_,.killed g id ids gs (.ok u) (by simp),rfl⟩
        | error e =>
          by_cases he : e = .notFound
          · subst he
            exact ⟨_,.killed g id ids gs (.error .notFound) (by simp),rfl⟩
          · refine ⟨_,.killFailed g id ids gs e _ he (dropping e gs),?_⟩
            simp only [Task.handle,he,if_false]
            rfl
      · cases h
        refine Follows.perform (fun r => ?_)
        cases r with
        | ok u => exact ⟨_,.unindexed g id ids gs u,rfl⟩
        | error e => exact ⟨_,.unindexFailed g id ids gs e _ (dropping e gs),rfl⟩

theorem reapListed_follows (g : Group) (ids : List String) (gs : List Group) :
    Follows (ReapMove cfg) (Reaping.next g ids gs) (reapListed cfg (cfg.groupNames g) ids)
      (Dropped (.list gs) gs) := by
  induction ids with
  | nil => rfl
  | cons id ids ih =>
    refine (reapOne_follows cfg g id ids gs).bind (fun st u h => ?_) (fun st e h => h)
    cases h
    exact ih

theorem reapGroup_follows (g : Group) (gs : List Group) :
    Follows (ReapMove cfg) (.list (g :: gs)) (reapGroup cfg g) (Dropped (.list gs) []) := by
  refine follows_except (Q := Dropped (.list gs) gs) ?_ (fun st u h => h) (fun st e he h => ?_)
    (fun st e he h => ?_)
  · refine follows_call (fun ids => ?_) (fun e => ⟨_,.listFailed g gs e _ (dropping e gs),rfl⟩)
    exact ⟨_,.listed g gs ids,reapListed_follows cfg g ids gs⟩
  · simp only [Dropped,he,if_true] at h
    exact h
  · simp only [Dropped,he,Bool.false_eq_true,if_false,ite_self] at h ⊢
    exact h

theorem reapGroups_follows (gs : List Group) :
    Follows (ReapMove cfg) (.list gs) (reapGroups cfg gs) (fun st _ => st = .list []) := by
  induction gs with
  | nil => rfl
  | cons g gs ih =>
    refine (reapGroup_follows cfg g gs).bind (fun st u h => ?_) (fun st e h => ?_)
    · cases h
      exact ih
    · simpa only [Dropped,ite_self] using h

theorem reapOrphans_follows : Follows (ReapMove cfg) (reapStart cfg) (reapOrphans cfg)
    (fun st _ => st = .list []) := by
  cases hi : cfg.index with
  | true =>
    simp only [reapStart,reapOrphans,hi,if_true]
    exact reapGroups_follows cfg Group.all
  | false =>
    simp only [reapStart,reapOrphans,hi]
    rfl

theorem resignReaper_follows (lease : Lease) : Follows (ReapMove cfg) (.list []) (resignReaper cfg lease)
    (fun st _ => st = .list [] ∨ st = .ended) := by
  cases lease with
  | noLease => exact .inl rfl
  | token n =>
    simp only [resignReaper]
    split
    · exact follows_except (Q := fun st _ => st = .ended) (Follows.perform (fun r => ⟨_,.resigned n r,rfl⟩))
        (fun _ _ h => .inr h) (fun _ _ _ h => .inr h) (fun _ _ _ h => .inr h)
    · exact .inl rfl

def reapPhase : Reaping :=
  if !cfg.distributedLock || !cfg.redisClient then reapStart cfg else .elect

def Elected : Reaping → Except Exc (Option Lease) → Prop
  | st, .ok (some _) => st = reapStart cfg
  | st, _ => st = reapStart cfg ∨ st = .ended

theorem tryBecomeReaper_follows :
    Follows (ReapMove cfg) (reapPhase cfg) (tryBecomeReaper cfg) (Elected cfg) := by
  unfold reapPhase tryBecomeReaper
  split
  · rfl
  · refine follows_call (fun n => ⟨_,.drew n,?_⟩) (fun e => ⟨_,.drawFailed e,.inr rfl⟩)
    refine follows_except (Q := fun st _ => st = reapStart cfg) ?_ (fun st lease h => ?_) (fun st e _ h => h)
      (fun st e _ h => .inl h)
    · refine follows_call (fun got => ?_) (fun e => ⟨_,.claimed n (.error e) _ (.inl rfl),rfl⟩)
      refine ⟨_,.claimed n (.ok got) _ (.inl rfl),?_⟩
      cases got <;> rfl
    · cases lease with
      | none => exact .inl h
      | some lease => exact h

theorem reaperRound_follows : Follows (ReapMove cfg) (reapPhase cfg) (reaperRound cfg)
    (fun st _ => st = reapStart cfg ∨ st = .list [] ∨ st = .ended) := by
  refine follows_except (Q := fun st _ => st = reapStart cfg ∨ st = .list [] ∨ st = .ended) ?_ (fun _ _ h => h)
    (fun _ _ _ h => h) (fun _ _ _ h => h)
  refine (tryBecomeReaper_follows cfg).bind (fun st lease h => ?_) (fun st e h => h.imp_right .inr)
  cases lease with
  | none => exact h.imp_right .inr
  | some lease =>
    cases h
    refine (reapOrphans_follows cfg).ensuring (fun st r h => ?_)
    cases h
    exact (resignReaper_follows cfg lease).mono (fun st u h => by cases u <;> exact .inr h)

end Reaper

section Resolve

variable (v : Visit)

def Resolved : Phase → Except Exc (Option String × Option String) → Prop
  | ph, .ok ids => ids.2 = v.conversationId ∧ ∃ s, ids.1 = some s ∧ ph = v.calling cfg s
  | ph, .error _ => ph = .ended

theorem mint_follows (oid : Guid) (ho : v.oid = some oid) : Follows (PhaseMove cfg) (.resolve v .clock)
    (SessionResolver.resolve.mint cfg.sessions v.transportSessionId oid v.conversationId) (Resolved cfg v) := by
  refine follows_call (fun n => ⟨_,.read v oid n ho,?_⟩) (fun e => ⟨_,.resolveFailed v oid .clock e ho,rfl⟩)
  refine follows_call (fun u => ?_) (fun e => ⟨_,.resolveFailed v oid (.mint _) e ho,rfl⟩)
  exact ⟨_,.mintedKey v oid _ u ho,rfl,_,rfl,rfl⟩

def Looked : Phase → Except Exc (Option String) → Prop
  | ph, .ok none => ph = .resolve v .clock
  | ph, .ok (some s) => ph = if s = "" then .resolve v .clock else v.calling cfg s
  | ph, .error _ => ph = .ended

theorem userSession_follows (oid : Guid) (ho : v.oid = some oid) : Follows (PhaseMove cfg) (.resolve v .look)
    (UserSessionCache.get cfg.sessions oid.text) (Looked cfg v) := by
  refine follows_call (fun x => ?_) (fun e => ⟨_,.resolveFailed v oid .look e ho,rfl⟩)
  cases hx : x.bind Value.asText with
  | none => exact ⟨_,.unknown v oid x ho hx,rfl⟩
  | some s =>
    refine ⟨_,.known v oid x s ho hx,follows_call (fun u => ?_) (fun e => ⟨_,.resolveFailed v oid (.slide s) e ho,rfl⟩)⟩
    by_cases hs : s = ""
    · subst hs
      exact ⟨_,.slidEmpty v oid u ho,rfl⟩
    · refine ⟨_,.slid v oid s u ho hs,?_⟩
      simp only [Follows,Task.pure_eq,Looked,hs,if_false]

theorem resolve_follows (oid : Guid) (ho : v.oid = some oid) : Follows (PhaseMove cfg) (.resolve v .look)
    (SessionResolver.resolve cfg.sessions v.oid v.transportSessionId v.requestId) (Resolved cfg v) := by
  rw [ho]
  refine (userSession_follows cfg v oid ho).bind (fun ph found h => ?_) (fun ph e h => h)
  cases found with
  | none =>
    cases h
    exact mint_follows cfg v oid ho
  | some s =>
    by_cases hs : s = ""
    · subst hs
      simp only [Looked,if_true] at h ⊢
      subst h
      exact mint_follows cfg v oid ho
    · simp only [Looked,hs,if_false] at h ⊢
      exact ⟨rfl,s,rfl,h⟩

end Resolve

theorem call_follows {α : Type} {ctx : SessionCtx} {command : Option String} {st : Stage} {p : M α}
    {Q : Stage → Except Exc α → Prop} (h : Follows (CallMove cfg ctx command) st p Q) :
    Follows (PhaseMove cfg) (.call ctx command st) p (fun ph r => ∃ st, ph = .call ctx command st ∧ Q st r) :=
  h.lift (Phase.call ctx command) (fun _ _ _ _ hm => .call ctx command _ _ _ _ hm)

def Ran {α : Type} : Stage → Except Exc α → Prop
  | st, .ok _ => ∃ c, st = .done c
  | st, .error _ => st = .left none

theorem exec_follows (ctx : SessionCtx) (command : String) :
    Follows (CallMove cfg ctx (some (wrap cfg ctx command))) .start (exec cfg ctx command) Ran := by
  refine (getOrCreate_follows cfg ctx _).bind (fun st c h => ?_) (fun st e h => h)
  cases h
  exact follows_call (fun res => ⟨_,.ran c _ res rfl,c,rfl⟩) (fun e => ⟨_,.runFailed c _ e rfl,rfl⟩)

def Job.phase : Job → Phase
  | .getOrCreate ctx => .call ctx none .start
  | .exec ctx command => .call ctx (some (wrap cfg ctx command)) .start
  | .endSession oid sessionId => .ending oid sessionId (.peek Group.all)
  | .reaperRound => .reap (reapPhase cfg)

-- Where a task is when it has returned.
def Finished : Phase → Except Exc Out → Prop
  | ph, .ok (.client c) => ∃ ctx command, ph = .call ctx command (.left (some c))
  | ph, .ok (.visited s c _) => ∃ ctx command, ctx.sessionId = s ∧ ph = .call ctx command (.done c)
  | ph, .ok (.result _) => ∃ ctx command c, ph = .call ctx command (.done c)
  | ph, .ok .done => ∀ ctx command st, ph ≠ .call ctx command st
  | ph, .error _ => ∀ ctx command st, ph = .call ctx command st → st = .left none

theorem job_follows (j : Job) : Follows (PhaseMove cfg) (j.phase cfg) (j.task cfg) Finished := by
  cases j with
  | getOrCreate ctx =>
    refine (call_follows cfg (getOrCreate_follows cfg ctx none)).bind (fun ph c h => ?_) (fun ph e h => ?_)
    · obtain ⟨st,rfl,rfl⟩ := h
      exact ⟨ctx,none,rfl⟩
    · obtain ⟨st,rfl,rfl⟩ := h
      intro ctx' command' st' heq
      cases heq
      rfl
  | exec ctx command =>
    refine (call_follows cfg (exec_follows cfg ctx command)).bind (fun ph r h => ?_) (fun ph e h => ?_)
    · obtain ⟨st,rfl,c,rfl⟩ := h
      exact ⟨ctx,_,c,rfl⟩
    · obtain ⟨st,rfl,rfl⟩ := h
      intro ctx' command' st' heq
      cases heq
      rfl
  | endSession oid sessionId =>
    refine ((endGroups_follows cfg oid sessionId Group.all).lift (Phase.ending oid sessionId)
      (fun _ _ _ _ hm => .ending oid sessionId _ _ _ _ hm)).bind (fun ph u h => ?_) (fun ph e h => ?_)
    · obtain ⟨st,rfl,_⟩ := h
      intro ctx command st' heq
      cases heq
    · obtain ⟨st,rfl,_⟩ := h
      intro ctx command st' heq
      cases heq
  | reaperRound =>
    refine ((reaperRound_follows cfg).lift Phase.reap (fun _ _ _ _ hm => .reap _ _ _ _ hm)).bind
      (fun ph u h => ?_) (fun ph e h => ?_)
    · obtain ⟨st,rfl,_⟩ := h
      intro ctx command st' heq
      cases heq
    · obtain ⟨st,rfl,_⟩ := h
      intro ctx command st' heq
      cases heq

def Visit.phase (v : Visit) : Phase :=
  match v.oid with
  | none => v.calling cfg (orElse v.transportSessionId "anon")
  | some _ => .resolve v .look

theorem visit_resolves (v : Visit) : Follows (PhaseMove cfg) (v.phase cfg)
    (SessionResolver.resolve cfg.sessions v.oid v.transportSessionId v.requestId) (Resolved cfg v) := by
  unfold Visit.phase
  split
  · rename_i ho
    rw [ho]
    exact ⟨rfl,_,rfl,rfl⟩
  · rename_i oid ho
    exact resolve_follows cfg v oid ho

theorem visit_follows (v : Visit) : Follows (PhaseMove cfg) (v.phase cfg) (v.task cfg) Finished := by
  refine (visit_resolves cfg v).bind (fun ph ids h => ?_) (fun ph e h => ?_)
  · obtain ⟨s,conv⟩ := ids
    obtain ⟨rfl,s,rfl,rfl⟩ := h
    refine (call_follows cfg (getOrCreate_follows cfg _ _)).bind (fun ph c h => ?_) (fun ph e h => ?_)
    · obtain ⟨st,rfl,rfl⟩ := h
      refine follows_call (fun res => ⟨_,.call _ _ _ _ _ _ (.ran c _ res rfl),_,_,rfl,rfl⟩)
        (fun e => ⟨_,.call _ _ _ _ _ _ (.runFailed c _ e rfl),?_⟩)
      intro ctx' command' st' heq
      cases heq
      rfl
    · obtain ⟨st,rfl,rfl⟩ := h
      intro ctx' command' st' heq
      cases heq
      rfl
  · cases h
    intro ctx command st' heq
    cases heq

end IdentityAwareMcp
