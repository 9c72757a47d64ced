import IdentityAwareMcp.Safety.Sticky

namespace IdentityAwareMcp

open Coop SandboxManager

section Callers

-- A resolution by itself, next to whole visits and to every other kind of task.
inductive Caller where
  | resolve (oid : Option Guid) (transportSessionId requestId : Option String)
  | visit (v : Visit)
  | job (j : Job)

def Caller.task (cfg : Config) : Caller → M (Option (Option String × Option String))
  | .resolve oid transportSessionId requestId => do
    return some (← SessionResolver.resolve cfg.sessions oid transportSessionId requestId)
  | .visit v => do
    let _ ← v.task cfg
    return none
  | .job j => do
    let _ ← j.task cfg
    return none

abbrev Calls := Coop.Sys Op Op.Ans Exc Nat World (Option (Option String × Option String))

def startCalls (cfg : Config) (callers : Nat → Caller) (now : Nat) : Calls :=
  ⟨World.empty now,fun t => (callers t).task cfg⟩

def Caller.visited : Caller → Option Visit
  | .resolve oid transportSessionId requestId => some ⟨oid,transportSessionId,requestId,.diagnose,none,""⟩
  | .visit v => some v
  | .job _ => none

def Caller.resolves (u : Guid) : Caller → Bool
  | .resolve oid _ _ => decide (oid = some u)
  | _ => false

def Caller.base (u : Guid) : Caller → String
  | .resolve _ transportSessionId _ => orElse transportSessionId (SessionResolver.shortOid u)
  | _ => ""

variable (cfg : Config)

def Caller.phase : Caller → Phase
  | .resolve oid transportSessionId requestId => Visit.phase cfg ⟨oid,transportSessionId,requestId,.diagnose,none,""⟩
  | .visit v => v.phase cfg
  | .job j => j.phase cfg

-- Where a resolution has returned, or failed.
def Caller.Answered (c : Caller) : Phase → Except Exc (Option (Option String × Option String)) → Prop
  | ph, .ok (some ids) => ∃ v, c.visited = some v ∧ Resolved cfg v ph (.ok ids)
  | _, .ok none => ∀ oid t r, c ≠ .resolve oid t r
  | ph, .error _ => ∀ oid t r, c = .resolve oid t r → ph = .ended

theorem caller_follows (c : Caller) : Follows (PhaseMove cfg) (c.phase cfg) (c.task cfg) (c.Answered cfg) := by
  cases c with
  | resolve oid t r =>
    refine (visit_resolves cfg ⟨oid,t,r,.diagnose,none,""⟩).bind (fun ph ids h => ?_) (fun ph e h => ?_)
    · exact ⟨_,rfl,h⟩
    · exact fun _ _ _ _ => h
  | visit v =>
    refine Follows.bind (visit_follows cfg v) (fun ph ids h => ?_) (fun ph e h => ?_)
    · exact fun _ _ _ h => by cases h
    · exact fun _ _ _ h => by cases h
  | job j =>
    refine Follows.bind (job_follows cfg j) (fun ph ids h => ?_) (fun ph e h => ?_)
    · exact fun _ _ _ h => by cases h
    · exact fun _ _ _ h => by cases h

-- A task resolves only for the call it stands for.
def Caller.Serves (c : Caller) (ph : Phase) : Prop := ∀ v st, ph = .resolve v st → c.visited = some v

variable {cfg}

theorem serves_start (c : Caller) : c.Serves (c.phase cfg) := by
  have hv : ∀ {x v : Visit} {st : Resolving}, x.phase cfg = .resolve v st → some x = some v := by
    intro x v st h
    simp only [Visit.phase,Visit.calling] at h
    split at h <;> cases h
    rfl
  intro v st h
  cases c with
  | resolve oid t r => exact hv h
  | visit x => exact hv h
  | job j => cases j <;> cases h

theorem resolve_start {c : Caller} {v : Visit} {st : Resolving} (hp : c.phase cfg = .resolve v st) : st = .look := by
  have hv : ∀ {x : Visit}, x.phase cfg = .resolve v st → st = .look := by
    intro x h
    simp only [Visit.phase,Visit.calling] at h
    split at h <;> cases h
    rfl
  cases c with
  | resolve oid t r => exact hv hp
  | visit x => exact hv hp
  | job j => cases j <;> cases hp

theorem resolves_start (cfg : Config) {c : Caller} {u : Guid} (hc : c.resolves u = true) :
    ∃ v, c.visited = some v ∧ v.oid = some u ∧ c.phase cfg = .resolve v .look := by
  cases c with
  | resolve oid t r =>
    simp only [Caller.resolves,decide_eq_true_eq] at hc
    subst hc
    exact ⟨_,rfl,rfl,rfl⟩
  | visit v => cases hc
  | job j => cases hc

theorem serves_step {c : Caller} {ph ph' : Phase} {o : Op} {r : Except Exc o.Ans} (hm : PhaseMove cfg ph o r ph')
    (hs : c.Serves ph) : c.Serves ph' := by
  intro v st h
  cases hm with
  | known v' oid x s hv hx => cases h; exact hs _ _ rfl
  | unknown v' oid x hv hx => cases h; exact hs _ _ rfl
  | slidEmpty v' oid u hv => cases h; exact hs _ _ rfl
  | read v' oid n hv => cases h; exact hs _ _ rfl
  | _ => cases h

-- Only a resolution for the user writes the user's key.
theorem touches_user {ph ph' : Phase} {o : Op} {r : Except Exc o.Ans} (hm : PhaseMove cfg ph o r ph') {u : Guid}
    {t : Nat} {w : World} (ht : Touches t w o.cmd (userKey cfg u)) :
    ∃ v st s, ph = .resolve v st ∧ v.oid = some u ∧ (st = .slide s ∨ st = .mint s) := by
  cases hm with
  | call ctx command st st' o r hc =>
    cases hc with
    | prepared c r hp => cases c <;> first | exact ht.elim | exact hp.elim
    | prepFailed c r st hp hl => cases c <;> first | exact ht.elim | exact hp.elim
    | _ =>
      first
        | exact ht.elim
        | exact absurd ht (key_ne (by simp))
        | exact absurd ht.1 (lockKey_ne (by simp [userKey,RedisBackend.k,Config.sessions]))
  | ending oid s st st' o r he => cases he <;> first | exact ht.elim | exact absurd ht (key_ne (by simp))
  | reap st st' o r hr =>
    cases hr <;> first | exact ht.elim | exact absurd ht (key_ne (by simp)) | exact absurd ht.1 (key_ne (by simp))
  | slid v oid s u hv hs =>
    cases userKey_injective cfg ht
    exact ⟨v,_,s,rfl,hv,.inl rfl⟩
  | slidEmpty v oid u hv =>
    cases userKey_injective cfg ht
    exact ⟨v,_,_,rfl,hv,.inl rfl⟩
  | mintedKey v oid s u hv =>
    cases userKey_injective cfg ht
    exact ⟨v,_,s,rfl,hv,.inr rfl⟩
  | resolveFailed v oid st e hv =>
    cases st with
    | look => exact ht.elim
    | clock => exact ht.elim
    | slide s =>
      cases userKey_injective cfg ht
      exact ⟨v,_,s,rfl,hv,.inl rfl⟩
    | mint s =>
      cases userKey_injective cfg ht
      exact ⟨v,_,s,rfl,hv,.inr rfl⟩
  | _ => exact ht.elim

theorem resolve_sets {v : Visit} {st : Resolving} {s : String} {ph' : Phase} {o : Op} {r : Except Exc o.Ans}
    {u : Guid} (hm : PhaseMove cfg (.resolve v st) o r ph') (hs : st = .slide s ∨ st = .mint s)
    (hv : v.oid = some u) : o.cmd = .set (userKey cfg u) (.text s) cfg.sessions.ttl := by
  cases hm with
  | slid v oid s u' hv' hne => rcases hs with hs | hs <;> cases hs; rw [hv] at hv'; cases hv'; rfl
  | slidEmpty v oid u' hv' => rcases hs with hs | hs <;> cases hs; rw [hv] at hv'; cases hv'; rfl
  | mintedKey v oid s u' hv' => rcases hs with hs | hs <;> cases hs; rw [hv] at hv'; cases hv'; rfl
  | resolveFailed v oid st e hv' => rcases hs with rfl | rfl <;> (rw [hv] at hv'; cases hv'; rfl)
  | _ => rcases hs with hs | hs <;> cases hs

theorem set_effect {rep : Nat → Nat} {t : Nat} {o : Op} {r : Except Exc o.Ans} {h : Hint} {w w' : World} {k : String}
    {v : Value} {ex : Option Nat} (ha : act rep t o w r h = some w') (ho : o.cmd = .set k v ex) :
    w' = w ∨ w' = w.store k v ex := by
  obtain ⟨c,b⟩ := o
  cases ho
  cases r with
  | ok u =>
    cases ha
    exact .inr rfl
  | error e =>
    simp only [act] at ha
    split at ha
    · cases ha
      split
      · exact .inr rfl
      · exact .inl rfl
    · cases ha

theorem user_key {rep : Nat → Nat} {t : Nat} {ph ph' : Phase} {o : Op} {r : Except Exc o.Ans} {h : Hint}
    {w w' : World} (hm : PhaseMove cfg ph o r ph') (ha : act rep t o w r h = some w') (u : Guid) :
    w'.redis (userKey cfg u) = w.redis (userKey cfg u) ∨ ∃ v st s, ph = .resolve v st ∧ v.oid = some u ∧
      (st = .slide s ∨ st = .mint s) ∧
      w'.redis (userKey cfg u) = some ⟨.text s,some (w.now + cfg.sessionTtl * 1000)⟩ := by
  by_cases ht : Touches t w o.cmd (userKey cfg u)
  · obtain ⟨v,st,s,rfl,hv,hst⟩ := touches_user hm ht
    have ho := resolve_sets hm hst hv
    rcases set_effect ha ho with rfl | rfl
    · exact .inl rfl
    · exact .inr ⟨v,st,s,rfl,hv,hst,upd_same _ _ _⟩
  · exact .inl (act_untouched ha ht)

end Callers

section Shared

variable (cfg : Config) (callers : Nat → Caller) (u : Guid)

def sharedId (g : Option (String × Nat)) : Option String := g.map (fun x => x.1 ++ "_" ++ toString x.2)

-- The base and the second of the first call of the user that found no session and read the clock.
def firstMint (_ : Calls) (l : Step) (g : Option (String × Nat)) : Option (String × Nat) :=
  match l with
  | .task t ⟨.clock,_⟩ (.ok n) _ => if (callers t).resolves u then g.or (some ((callers t).base u,n)) else g
  | _ => g

-- All calls lie in one window: none reads the key after it has expired.
def InWindow (s : Calls) : Step → Prop
  | .task t ⟨.get k,_⟩ _ _ => (callers t).resolves u = true → ∀ e, s.world.redis k = some e → e.live s.world.now = true
  | _ => True

-- Every call that finds no session has the base of the first such call, and reads the
-- clock in the same second.
def Uncontested (g : Option (String × Nat)) : Step → Prop
  | .task t ⟨.clock,_⟩ (.ok n) _ => (callers t).resolves u = true → ∀ x, g = some x → x = ((callers t).base u,n)
  | _ => True

def Agreeing (s : Calls) (g : Option (String × Nat)) (l : Step) : Prop := InWindow callers u s l ∧ Uncontested callers u g l

structure Shared (w : World) (g : Option (String × Nat)) (ph : Nat → Phase) : Prop where
  serves : ∀ i, (callers i).Serves (ph i)
  key : ∀ e, w.redis (userKey cfg u) = some e → ∃ s, e.val = .text s ∧ sharedId g = some s
  going : ∀ i v st s, ph i = .resolve v st → v.oid = some u → st = .slide s ∨ st = .mint s → sharedId g = some s
  gone : ∀ i ctx command st, (callers i).resolves u = true → ph i = .call ctx command st →
    ∃ s, ctx.sessionId = some s ∧ sharedId g = some s

variable {cfg callers u} {rep : Nat → Nat} {t : Nat} {o : Op} {r : Except Exc o.Ans} {h : Hint} {w w' : World}
variable {ph : Nat → Phase} {p : Phase} {g : Option (String × Nat)}

theorem shared_first {s : Calls} {l : Step} {id : String} (hg : sharedId g = some id) :
    sharedId (firstMint callers u s l g) = some id := by
  obtain ⟨x,rfl,hx⟩ := Option.map_eq_some_iff.mp hg
  have hf : firstMint callers u s l (some x) = some x := by
    simp only [firstMint]
    split
    · split <;> rfl
    · rfl
  rw [hf]
  exact hg

-- The visits among the tasks belong to other users.
variable (hu : ∀ t v, callers t = .visit v → v.oid ≠ some u)
include hu

theorem resolving_caller {i : Nat} {v : Visit} {st : Resolving} (hs : (callers i).Serves (ph i))
    (hp : ph i = .resolve v st) (hv : v.oid = some u) : (callers i).resolves u = true ∧
      ∀ n, v.minted u n = (callers i).base u ++ "_" ++ toString n := by
  have hvis := hs v st hp
  cases hc : callers i with
  | resolve oid tr rq =>
    rw [hc] at hvis
    cases hvis
    cases hv
    exact ⟨by simp [Caller.resolves],fun n => rfl⟩
  | visit x =>
    rw [hc] at hvis
    cases hvis
    exact absurd hv (hu i v hc)
  | job j =>
    rw [hc] at hvis
    cases hvis

omit hu in
theorem resolved_user {i : Nat} {v : Visit} {st : Resolving} (hs : (callers i).Serves (ph i)) (hp : ph i = .resolve v st)
    (hr : (callers i).resolves u = true) : v.oid = some u := by
  have hvis := hs v st hp
  cases hc : callers i with
  | resolve oid tr rq =>
    rw [hc] at hvis hr
    cases hvis
    simpa [Caller.resolves] using hr
  | visit x =>
    rw [hc] at hr
    cases hr
  | job j =>
    rw [hc] at hr
    cases hr

theorem shared_going {s : Calls} (hi : Shared cfg callers u s.world g ph) (hm : PhaseMove cfg (ph t) o r p)
    (ha : act rep t o s.world r h = some w') (hadm : Agreeing callers u s g (.task t o r h)) {v : Visit}
    {st : Resolving} {id : String} (hp : p = .resolve v st) (hv : v.oid = some u) (hst : st = .slide id ∨ st = .mint id) :
    sharedId (firstMint callers u s (.task t o r h) g) = some id := by
  generalize hq : ph t = q at hm
  cases hm with
  | known v' oid x id' hv' hx =>
    cases hp
    rw [hv] at hv'
    cases hv'
    obtain ⟨hl,rfl⟩ := act_get ha
    rw [asText_some hx] at hl
    obtain ⟨e,he,hval,_⟩ := lookup_some hl.symm
    obtain ⟨id₀,hval₀,hg⟩ := hi.key e he
    rw [hval] at hval₀
    cases hval₀
    rcases hst with hst | hst <;> cases hst
    exact shared_first hg
  | unknown v' oid x hv' hx =>
    cases hp
    rcases hst with hst | hst <;> cases hst
  | slidEmpty v' oid u' hv' =>
    cases hp
    rcases hst with hst | hst <;> cases hst
  | read v' oid n hv' =>
    cases hp
    rw [hv] at hv'
    cases hv'
    obtain ⟨hres,hid⟩ := resolving_caller hu (hi.serves t) hq hv
    have hbase : sharedId (some ((callers t).base u,n)) = some id := by
      rcases hst with hst | hst <;> cases hst
      rw [hid n]
      rfl
    cases hg : g with
    | none => simpa only [firstMint,hres,if_true,Option.none_or] using hbase
    | some x =>
      have hx := hadm.2 hres x hg
      simpa only [firstMint,hres,if_true,Option.some_or,hx] using hbase
  | _ => cases hp

theorem Shared.step {s : Calls} (hi : Shared cfg callers u s.world g ph) (hm : PhaseMove cfg (ph t) o r p)
    (ha : act rep t o s.world r h = some w') (hadm : Agreeing callers u s g (.task t o r h)) :
    Shared cfg callers u w' (firstMint callers u s (.task t o r h) g) (upd ph t p) where
  serves := forall_upd (serves_step hm (hi.serves t)) hi.serves
  key := by
    intro e he
    rcases user_key hm ha u with hk | ⟨v,st,id,hp,hv,hst,hk⟩
    · obtain ⟨id,hval,hg⟩ := hi.key e (hk ▸ he)
      exact ⟨id,hval,shared_first hg⟩
    · rw [he] at hk
      cases hk
      exact ⟨id,rfl,shared_first (hi.going t v st id hp hv hst)⟩
  going := by
    intro i v st id hp hv hst
    by_cases hit : i = t
    · subst hit
      rw [upd_same] at hp
      exact shared_going hu hi hm ha hadm hp hv hst
    · rw [upd_other _ _ hit] at hp
      exact shared_first (hi.going i v st id hp hv hst)
  gone := by
    intro i ctx command st hres hp
    by_cases hit : i = t
    · subst hit
      rw [upd_same] at hp
      generalize hq : ph i = q at hm
      have hgo : ∀ {v : Visit} {st₀ : Resolving} {id : String}, ph i = .resolve v st₀ → st₀ = .slide id ∨ st₀ = .mint id →
          ∃ s', (v.ctx (some id) v.conversationId).sessionId = some s' ∧
            sharedId (firstMint callers u s (.task i o r h) g) = some s' := fun hpi hst =>
        ⟨_,rfl,shared_first (hi.going i _ _ _ hpi (resolved_user (hi.serves i) hpi hres) hst)⟩
      cases hm with
      | call ctx' command' st₀ st' o r hc =>
        cases hp
        obtain ⟨id,hs,hg⟩ := hi.gone i ctx command st₀ hres hq
        exact ⟨id,hs,shared_first hg⟩
      | slid v oid id u' hv hne =>
        cases hp
        exact hgo hq (.inl rfl)
      | mintedKey v oid id u' hv =>
        cases hp
        exact hgo hq (.inr rfl)
      | _ => cases hp
    · rw [upd_other _ _ hit] at hp
      obtain ⟨id,hs,hg⟩ := hi.gone i ctx command st hres hp
      exact ⟨id,hs,shared_first hg⟩

omit hu in
theorem shared_start {now : Nat} : Shared cfg callers u (World.empty now) none (fun t => (callers t).phase cfg) := by
  refine ⟨fun i => serves_start (callers i),?_,fun i v st id hp hv hst => ?_,fun i ctx command st hres hp => ?_⟩
  · intro e he
    cases he
  · cases resolve_start hp
    rcases hst with hst | hst <;> cases hst
  · obtain ⟨v,_,_,hv⟩ := resolves_start cfg hres
    rw [hv] at hp
    cases hp

omit hu in
theorem Shared.env (hi : Shared cfg callers u w g ph) {e : Env} (he : IdentityAwareMcp.env e w = some w') :
    Shared cfg callers u w' g ph :=
  ⟨hi.serves,fun e' he' => hi.key e' (env_redis he ▸ he'),hi.going,hi.gone⟩

theorem shared_run {now : Nat} {s : Calls} {g : Option (String × Nat)}
    (hr : (machine rep).Run (Agreeing callers u) (firstMint callers u) (startCalls cfg callers now) none s g) :
    ∃ ph, Shared cfg callers u s.world g ph ∧ ∀ t, Follows (PhaseMove cfg) (ph t) (s.pool t) ((callers t).Answered cfg) :=
  hr.tracked (I := Shared cfg callers u) (fun t => (callers t).phase cfg) (fun t => caller_follows cfg (callers t))
    shared_start (fun _ _ _ _ _ _ _ _ _ hi _ hadm hm ha => hi.step hu hm ha hadm) (fun _ _ _ _ _ hi _ he => hi.env he)

theorem resolutions_agree {now : Nat} {s : Calls} {g : Option (String × Nat)}
    (hr : (machine rep).Run (Agreeing callers u) (firstMint callers u) (startCalls cfg callers now) none s g)
    (t t' : Nat) (ht : (callers t).resolves u = true) (ht' : (callers t').resolves u = true)
    (ids ids' : Option String × Option String) (hs : (s.pool t).outcome = some (.ok (some ids)))
    (hs' : (s.pool t').outcome = some (.ok (some ids'))) : ids.1 = ids'.1 := by
  obtain ⟨ph,hi,hph⟩ := shared_run hu hr
  obtain ⟨v,_,_,id,hid,hp⟩ := (hph t).outcome hs
  obtain ⟨v',_,_,id',hid',hp'⟩ := (hph t').outcome hs'
  obtain ⟨x,hx,hg⟩ := hi.gone t _ _ _ ht hp
  obtain ⟨x',hx',hg'⟩ := hi.gone t' _ _ _ ht' hp'
  cases hx
  cases hx'
  rw [hid,hid',← hg,← hg']

-- What the resolutions of one user return, where at most one session id can be minted.
theorem one_session {now : Nat} {s : Calls} {g : Option (String × Nat)}
    (hr : (machine rep).Run (Agreeing callers u) (firstMint callers u) (startCalls cfg callers now) none s g)
    (t t' : Nat) (ht : (callers t).resolves u = true) (ht' : (callers t').resolves u = true)
    (ids ids' : Option String × Option String) (hs : (s.pool t).outcome = some (.ok (some ids)))
    (hs' : (s.pool t').outcome = some (.ok (some ids'))) : ids.1 = ids'.1 :=
  resolutions_agree hu hr t t' ht ht' ids ids' hs hs'

end Shared

section Turns

variable (cfg : Config) (callers : Nat → Caller) (u : Guid)

-- The calls of the user that have found the key empty and have not written it since.
def seeking (_ : Calls) (l : Step) (f : Nat → Bool) : Nat → Bool :=
  match l with
  | .task t ⟨.get k,_⟩ (.ok none) _ => if (callers t).resolves u ∧ k = userKey cfg u then upd f t true else f
  | .task t ⟨.set k _ _,_⟩ _ _ => if (callers t).resolves u ∧ k = userKey cfg u then upd f t false else f
  | _ => f

-- Redis answers the calls of the user, which lie in one window, and none reads the key between
-- the moment when another one finds it empty and the moment when that one writes it.
def InTurn (s : Calls) (f : Nat → Bool) : Step → Prop
  | .task t o r h => (callers t).resolves u = true →
      InWindow callers u s (.task t o r h) ∧ (∃ a, r = .ok a) ∧ (o.cmd = .get (userKey cfg u) → ∀ i, f i = false)
  | .env _ => True

def Resolving.mints : Resolving → Bool
  | .clock => true
  | .mint _ => true
  | _ => false

def Phase.mints : Phase → Bool
  | .resolve _ st => st.mints
  | _ => false

def Resolves (ph : Phase) : Prop :=
  (∃ v st, ph = .resolve v st) ∨ (∃ ctx command st, ph = .call ctx command st) ∨ ph = .ended

structure Alternating (w : World) (g : Option (String × Nat)) (f : Nat → Bool) (ph : Nat → Phase) : Prop where
  shared : Shared cfg callers u w g ph
  posts : ∀ i, (callers i).resolves u = true → Resolves (ph i)
  sought : ∀ i, f i = ((callers i).resolves u && (ph i).mints)
  sole : ∀ i j, f i = true → f j = true → i = j
  fresh : ∀ i v, (callers i).resolves u = true → ph i = .resolve v .clock → g = none
  written : g ≠ none → (∃ e, w.redis (userKey cfg u) = some e) ∨ ∃ i, f i = true

variable {cfg callers u} {rep : Nat → Nat} {t : Nat} {o : Op} {r : Except Exc o.Ans} {h : Hint} {w w' : World}
variable {ph : Nat → Phase} {p : Phase} {g g' : Option (String × Nat)} {f f' : Nat → Bool} {s : Calls}

theorem resolves_step {ph ph' : Phase} (hm : PhaseMove cfg ph o r ph') (hp : Resolves ph) : Resolves ph' := by
  rcases hp with ⟨v,st,rfl⟩ | ⟨ctx,command,st,rfl⟩ | rfl
  · cases hm with
    | known v oid x id hv hx => exact .inl ⟨_,_,rfl⟩
    | unknown v oid x hv hx => exact .inl ⟨_,_,rfl⟩
    | slid v oid id u' hv hne => exact .inr (.inl ⟨_,_,_,rfl⟩)
    | slidEmpty v oid u' hv => exact .inl ⟨_,_,rfl⟩
    | read v oid n hv => exact .inl ⟨_,_,rfl⟩
    | mintedKey v oid id u' hv => exact .inr (.inl ⟨_,_,_,rfl⟩)
    | resolveFailed v oid st e hv => exact .inr (.inr rfl)
  · obtain ⟨st',rfl,_⟩ := move_call hm rfl
    exact .inr (.inl ⟨_,_,_,rfl⟩)
  · cases hm

-- A call does not use the user's key any more.
theorem call_quiet {ctx : SessionCtx} {command : Option String} {st st' : Stage}
    (hm : CallMove cfg ctx command st o r st') :
    o.cmd ≠ .get (userKey cfg u) ∧ ∀ v ex, o.cmd ≠ .set (userKey cfg u) v ex := by
  have hne : ∀ {k : String}, store k ≠ store (userKey cfg u) → k ≠ userKey cfg u := key_ne
  cases hm with
  | prepared c r hp =>
    cases c <;> first | exact hp.elim | simp
    obtain ⟨oid,rfl⟩ := hp
    exact hne (by simp)
  | prepFailed c r st hp hl =>
    cases c <;> first | exact hp.elim | simp
    obtain ⟨oid,rfl⟩ := hp
    exact hne (by simp)
  | _ => constructor <;> simp [key_ne]

-- No move of a task removes the user's key.
theorem user_key_stays {q : Phase} (hm : PhaseMove cfg q o r p) (ha : act rep t o w r h = some w')
    (hk : ∃ e, w.redis (userKey cfg u) = some e) : ∃ e, w'.redis (userKey cfg u) = some e := by
  obtain ⟨e,he⟩ := hk
  rcases user_key hm ha u with hk | ⟨_,_,_,_,_,_,hk⟩
  · exact ⟨e,hk.trans he⟩
  · exact ⟨_,hk⟩

theorem minted_text {s : String} (h : sharedId g = some s) : s ≠ "" := by
  obtain ⟨x,rfl,rfl⟩ := Option.map_eq_some_iff.mp h
  intro he
  have hl := congrArg String.toList he
  simp at hl

-- Task t moves; what the other tasks seek is as before.
theorem Alternating.moved (hi : Alternating cfg callers u w g f ph) (hs : Shared cfg callers u w' g' (upd ph t p))
    (hpost : (callers t).resolves u = true → Resolves p)
    (hf : ∀ i, f' i = if i = t then (callers t).resolves u && p.mints else f i)
    (hsole : f' t = true → ∀ i, i ≠ t → f i = false)
    (hfresh : ∀ v, (callers t).resolves u = true → p = .resolve v .clock → g' = none)
    (hg : g' = g ∨ f t = true ∧ f' t = true)
    (hkey : (∃ e, w.redis (userKey cfg u) = some e) → ∃ e, w'.redis (userKey cfg u) = some e)
    (hdone : f t = true → f' t = true ∨ ∃ e, w'.redis (userKey cfg u) = some e) :
    Alternating cfg callers u w' g' f' (upd ph t p) := by
  have hother : ∀ {i}, i ≠ t → f' i = f i := fun hit => (hf _).trans (if_neg hit)
  constructor
  case shared => exact hs
  case posts => exact forall_upd (P := fun i q => (callers i).resolves u = true → Resolves q) hpost hi.posts
  case sought =>
    intro i
    by_cases hit : i = t
    · subst hit
      rw [upd_same,hf,if_pos rfl]
    · rw [upd_other _ _ hit,hother hit,hi.sought]
  case sole =>
    intro i j hfi hfj
    by_cases hit : i = t
    · subst hit
      by_cases hjt : j = i
      · exact hjt.symm
      · rw [hother hjt,hsole hfi j hjt] at hfj
        cases hfj
    · by_cases hjt : j = t
      · subst hjt
        rw [hother hit,hsole hfj i hit] at hfi
        cases hfi
      · exact hi.sole i j (hother hit ▸ hfi) (hother hjt ▸ hfj)
  case fresh =>
    intro i v hres hp
    by_cases hit : i = t
    · subst hit
      rw [upd_same] at hp
      exact hfresh v hres hp
    · rw [upd_other _ _ hit] at hp
      rcases hg with rfl | ⟨hft,-⟩
      · exact hi.fresh i v hres hp
      · have hfi : f i = true := by rw [hi.sought,hres,hp]; rfl
        exact absurd (hi.sole i t hfi hft) hit
  case written =>
    intro hne
    rcases hg with rfl | ⟨-,hft⟩
    · rcases hi.written hne with hk | ⟨i,hfi⟩
      · exact .inl (hkey hk)
      · by_cases hit : i = t
        · subst hit
          exact (hdone hfi).elim (fun h => .inr ⟨i,h⟩) .inl
        · exact .inr ⟨i,(hother hit).trans hfi⟩
    · exact .inr ⟨t,hft⟩

theorem seeking_other (hq : (callers t).resolves u = true →
    o.cmd ≠ .get (userKey cfg u) ∧ ∀ v ex, o.cmd ≠ .set (userKey cfg u) v ex) :
    seeking cfg callers u s (.task t o r h) f = f := by
  obtain ⟨c,b⟩ := o
  cases c with
  | get k =>
    cases r with
    | error e => rfl
    | ok v =>
      cases v with
      | some v => rfl
      | none => exact if_neg (fun hx => (hq hx.1).1 (by rw [hx.2]))
  | set k v ex => exact if_neg (fun hx => (hq hx.1).2 v ex (by rw [hx.2]))
  | _ => rfl

theorem firstMint_other (hq : (callers t).resolves u = true → o.cmd ≠ .clock) :
    firstMint callers u s (.task t o r h) g = g := by
  obtain ⟨c,b⟩ := o
  cases c with
  | clock =>
    cases r with
    | error e => rfl
    | ok n => exact if_neg (fun hx => hq hx rfl)
  | _ => rfl

theorem uncontested_other (hq : (callers t).resolves u = true → o.cmd ≠ .clock) :
    Uncontested callers u g (.task t o r h) := by
  obtain ⟨c,b⟩ := o
  cases c with
  | clock =>
    cases r with
    | error e => trivial
    | ok n => exact fun hx => absurd rfl (hq hx)
  | _ => trivial

variable (hu : ∀ t v, callers t = .visit v → v.oid ≠ some u)
include hu

-- A move that has nothing to do with the user's key.
theorem Alternating.aside (hi : Alternating cfg callers u s.world g f ph) (hm : PhaseMove cfg (ph t) o r p)
    (ha : act rep t o s.world r h = some w')
    (hq : (callers t).resolves u = true → ∃ ctx command st, ph t = .call ctx command st)
    (hwin : InWindow callers u s (.task t o r h)) : Agreeing callers u s g (.task t o r h) ∧
      Alternating cfg callers u w' (firstMint callers u s (.task t o r h) g) (seeking cfg callers u s (.task t o r h) f)
        (upd ph t p) := by
  have hquiet : (callers t).resolves u = true → o.cmd ≠ .clock ∧ o.cmd ≠ .get (userKey cfg u) ∧
      ∀ v ex, o.cmd ≠ .set (userKey cfg u) v ex := by
    intro hres
    obtain ⟨ctx,command,st,hp⟩ := hq hres
    obtain ⟨st',-,hc⟩ := move_call hm hp
    refine ⟨fun ho => ?_,call_quiet hc⟩
    cases hc with
    | prepared c r hc => cases ho; exact hc.elim
    | prepFailed c r st hc hl => cases ho; exact hc.elim
    | _ => cases ho
  have hagree : Agreeing callers u s g (.task t o r h) := ⟨hwin,uncontested_other (fun hx => (hquiet hx).1)⟩
  have hseek : f t = false := by
    rw [hi.sought]
    cases hres : (callers t).resolves u with
    | false => rfl
    | true =>
      obtain ⟨ctx,command,st,hp⟩ := hq hres
      rw [hp]
      rfl
  have hmints : ((callers t).resolves u && p.mints) = false := by
    cases hres : (callers t).resolves u with
    | false => rfl
    | true =>
      obtain ⟨ctx,command,st,hp⟩ := hq hres
      obtain ⟨st',rfl,-⟩ := move_call hm hp
      rfl
  have hshared := hi.shared.step hu hm ha hagree
  rw [firstMint_other (fun hx => (hquiet hx).1)] at hshared ⊢
  rw [seeking_other (fun hx => (hquiet hx).2)]
  refine ⟨hagree,hi.moved hshared (fun hres => resolves_step hm (hi.posts t hres)) (fun i => ?_)
    (fun hft => by rw [hseek] at hft; cases hft) (fun v hres hp => ?_) (.inl rfl) (user_key_stays hm ha)
    (fun hft => by rw [hseek] at hft; cases hft)⟩
  · split
    · rename_i hit
      rw [hit,hseek,hmints]
    · rfl
  · rw [hres,hp] at hmints
    cases hmints

omit hu in
-- A call that finds the key empty, while nobody else seeks, is the first one.
theorem Alternating.first (hi : Alternating cfg callers u w g f ph) (hlive : ∀ e, w.redis (userKey cfg u) = some e →
    e.live w.now = true) (hl : (w.lookup (userKey cfg u)).bind Value.asText = none) (hf : ∀ i, f i = false) :
    w.lookup (userKey cfg u) = none ∧ g = none := by
  have hnone : w.redis (userKey cfg u) = none := by
    refine Option.eq_none_iff_forall_ne_some.mpr (fun e he => ?_)
    obtain ⟨id,hval,-⟩ := hi.shared.key e he
    rw [live_text he hval (hlive e he)] at hl
    cases hl
  refine ⟨by simp only [World.lookup,hnone],?_⟩
  by_contra hne
  rcases hi.written hne with ⟨e,he⟩ | ⟨i,hfi⟩
  · rw [hnone] at he
    cases he
  · rw [hf i] at hfi
    cases hfi

theorem Alternating.step (hi : Alternating cfg callers u s.world g f ph) (hm : PhaseMove cfg (ph t) o r p)
    (ha : act rep t o s.world r h = some w') (hadm : InTurn cfg callers u s f (.task t o r h)) :
    Agreeing callers u s g (.task t o r h) ∧ Alternating cfg callers u w' (firstMint callers u s (.task t o r h) g)
      (seeking cfg callers u s (.task t o r h) f) (upd ph t p) := by
  cases hres : (callers t).resolves u with
  | false =>
    have hwin : InWindow callers u s (.task t o r h) := by
      obtain ⟨c,b⟩ := o
      cases c <;> first | trivial | exact fun hx => absurd (hres.symm.trans hx) Bool.false_ne_true
    exact hi.aside hu hm ha (fun hx => absurd (hres.symm.trans hx) Bool.false_ne_true) hwin
  | true =>
    obtain ⟨hwin,⟨a,rfl⟩,hturn⟩ := hadm hres
    rcases hi.posts t hres with ⟨v,st,hq⟩ | hq | hq
    · have hv := resolved_user (hi.shared.serves t) hq hres
      have hseek : f t = st.mints := by rw [hi.sought,hres,hq]; rfl
      have hkey : (∃ e, s.world.redis (userKey cfg u) = some e) → ∃ e, w'.redis (userKey cfg u) = some e :=
        user_key_stays hm ha
      have hpost : (callers t).resolves u = true → Resolves p := fun hres => resolves_step hm (hi.posts t hres)
      have hshared := fun hx => hi.shared.step (g := g) hu hm ha hx
      have hwrite : ∀ {x ex} {a : Except Exc Unit}, seeking cfg callers u s (.task t ⟨.set (userKey cfg u) x ex,false⟩ a h) f =
          upd f t false := if_pos ⟨hres,rfl⟩
      have hsought : ∀ {b} {p : Phase}, p.mints = b → ∀ i, upd f t b i =
          if i = t then (callers t).resolves u && p.mints else f i := by
        intro b p hp i
        rw [hres,hp]
        rfl
      generalize hph : ph t = q at hm
      rw [hq] at hph
      subst hph
      cases hm with
      | known v oid x id hv' hx =>
        cases hv.symm.trans hv'
        obtain ⟨y,rfl⟩ : ∃ y, x = some y := Option.isSome_iff_exists.mp (by cases x; cases hx; rfl)
        refine ⟨⟨hwin,trivial⟩,hi.moved (hshared ⟨hwin,trivial⟩) hpost (fun i => ?_) (fun hft => ?_) (fun _ _ hp => by cases hp)
          (.inl rfl) hkey (fun hft => .inl hft)⟩
        · split
          · rename_i hit
            exact hit ▸ hseek.trans (by simp [Phase.mints,Resolving.mints])
          · rfl
        · cases hseek.symm.trans hft
      | unknown v oid x hv' hx =>
        cases hv.symm.trans hv'
        obtain ⟨rfl,-⟩ := act_get ha
        obtain ⟨hl,rfl⟩ := hi.first (hwin hres) hx (hturn rfl)
        have hseek' : seeking cfg callers u s (.task t ⟨.get (userKey cfg u),false⟩
            (.ok (s.world.lookup (userKey cfg u))) h) f = upd f t true := by
          rw [hl]
          exact if_pos ⟨hres,rfl⟩
        rw [hseek']
        exact ⟨⟨hwin,trivial⟩,hi.moved (hshared ⟨hwin,trivial⟩) hpost (hsought rfl) (fun _ i _ => hturn rfl i) (fun _ _ _ => rfl)
          (.inl rfl) hkey (fun _ => .inl (upd_same _ _ _))⟩
      | slid v oid id u' hv' hne =>
        cases hv.symm.trans hv'
        rw [hwrite]
        exact ⟨⟨hwin,trivial⟩,hi.moved (hshared ⟨hwin,trivial⟩) hpost (hsought rfl) (fun hft => by simp at hft)
          (fun _ _ hp => by cases hp) (.inl rfl) hkey (fun hft => by cases hseek.symm.trans hft)⟩
      | slidEmpty v oid u' hv' => exact absurd rfl (minted_text (hi.shared.going t v _ "" hq hv (.inl rfl)))
      | read v oid n hv' =>
        obtain rfl := hi.fresh t v hres hq
        have hagree : Agreeing callers u s none (.task t ⟨.clock,false⟩ (.ok n) h) := ⟨hwin,fun _ x hx => by cases hx⟩
        refine ⟨hagree,hi.moved (hshared hagree) hpost (fun i => ?_) (fun _ i hit => ?_) (fun _ _ hp => by cases hp)
          (.inr ⟨hseek,hseek⟩) hkey (fun hft => .inl hft)⟩
        · split
          · rename_i hit
            rw [hit,hres]
            exact hseek
          · rfl
        · exact Bool.eq_false_iff.mpr (fun hfi => hit (hi.sole i t hfi hseek))
      | mintedKey v oid id u' hv' =>
        cases hv.symm.trans hv'
        rw [hwrite]
        refine ⟨⟨hwin,trivial⟩,hi.moved (hshared ⟨hwin,trivial⟩) hpost (hsought rfl) (fun hft => by simp at hft)
          (fun _ _ hp => by cases hp) (.inl rfl) hkey (fun _ => .inr ?_)⟩
        cases ha
        exact ⟨_,upd_same _ _ _⟩
    · exact hi.aside hu hm ha (fun _ => hq) hwin
    · rw [hq] at hm
      cases hm

omit hu in
theorem alternating_start {now : Nat} :
    Alternating cfg callers u (World.empty now) none (fun _ => false) (fun t => (callers t).phase cfg) where
  shared := shared_start
  posts := by
    intro i hres
    obtain ⟨v,-,-,hv⟩ := resolves_start cfg hres
    exact .inl ⟨v,_,hv⟩
  sought := by
    intro i
    cases hres : (callers i).resolves u with
    | false => rfl
    | true =>
      obtain ⟨v,-,-,hv⟩ := resolves_start cfg hres
      rw [hv]
      rfl
  sole := fun i j hf => by cases hf
  fresh := fun _ _ _ _ => rfl
  written := fun hne => absurd rfl hne

-- Where the user's calls take turns, at most one session id is minted.
theorem alternating_run {now : Nat} {s : Calls} {f : Nat → Bool} (hr : (machine rep).Run (InTurn cfg callers u)
    (seeking cfg callers u) (startCalls cfg callers now) (fun _ => false) s f) :
    ∃ ph, (∃ g, (machine rep).Run (Agreeing callers u) (firstMint callers u) (startCalls cfg callers now) none s g ∧
      Alternating cfg callers u s.world g f ph) ∧
        ∀ t, Follows (PhaseMove cfg) (ph t) (s.pool t) ((callers t).Answered cfg) := by
  refine hr.followed (I := fun s f ph => ∃ g, (machine rep).Run (Agreeing callers u) (firstMint callers u)
      (startCalls cfg callers now) none s g ∧ Alternating cfg callers u s.world g f ph)
    (fun t => (callers t).phase cfg) (fun t => caller_follows cfg (callers t)) ⟨none,.start,alternating_start⟩ ?_ ?_
  · rintro s f ph t o k r h w p ⟨g,hrun,hi⟩ - hadm hp hm - ha
    obtain ⟨hagree,hnext⟩ := hi.step hu hm ha hadm
    exact ⟨_,hrun.step hagree ((machine rep).fire_call hp ha),hnext⟩
  · rintro s f ph e w ⟨g,hrun,hi⟩ - he
    refine ⟨_,hrun.step (l := .env e) ⟨trivial,trivial⟩ ((machine rep).fire_change he),hi.shared.env he,hi.posts,hi.sought,
      hi.sole,hi.fresh,fun hne => (hi.written hne).imp_left ?_⟩
    rintro ⟨e',he'⟩
    exact ⟨e',env_redis he ▸ he'⟩

-- The resolutions of one user return one session id when none of them reads the key between
-- another one's finding it empty and writing it.
theorem one_session_in_turn {now : Nat} {s : Calls} {f : Nat → Bool} (hr : (machine rep).Run (InTurn cfg callers u)
    (seeking cfg callers u) (startCalls cfg callers now) (fun _ => false) s f) (t t' : Nat)
    (ht : (callers t).resolves u = true) (ht' : (callers t').resolves u = true)
    (ids ids' : Option String × Option String) (hs : (s.pool t).outcome = some (.ok (some ids)))
    (hs' : (s.pool t').outcome = some (.ok (some ids'))) : ids.1 = ids'.1 := by
  obtain ⟨_,⟨g,hrun,-⟩,-⟩ := alternating_run hu hr
  exact resolutions_agree hu hrun t t' ht ht' ids ids' hs hs'

end Turns

section Races

instance : DecidableEq (Option (Except Exc (Option (Option String × Option String)))) := inferInstance

-- Two calls of one user from two transport sessions.
def twoTransports (t : Nat) : Caller := .resolve (some sampleOid) (some (if t = 0 then "t1" else "t2")) none

def succeeds : Step → Bool
  | .task _ _ (.error _) _ => false
  | _ => true

def inWindow (callers : Nat → Caller) (u : Guid) (s : Calls) (l : Step) : Bool :=
  succeeds l && match l with
    | .task t ⟨.get k,_⟩ _ _ => !(callers t).resolves u || (s.world.redis k).all (fun e => e.live s.world.now)
    | _ => true

theorem inWindow_sound {callers : Nat → Caller} {u : Guid} {s : Calls} {l : Step}
    (hl : inWindow callers u s l = true) : succeeds l = true ∧ InWindow callers u s l := by
  simp only [inWindow,Bool.and_eq_true] at hl
  refine ⟨hl.1,?_⟩
  match l with
  | .env e => trivial
  | .task t ⟨c,b⟩ r h =>
    cases c <;> first
      | trivial
      | (intro hres e he
         simpa [hres,he] using hl.2)

def finding (cfg : Config) (t : Nat) (v : Option Value) : List Step := [answers t (.get (userKey cfg sampleOid)) v]

def minting (cfg : Config) (t n : Nat) (id : String) : List Step :=
  [answers t .clock n,answers t (.set (userKey cfg sampleOid) (.text id) cfg.sessions.ttl) ()]

-- Both calls find no session before either has written one.
theorem sessions_split : ∃ s : Calls, ∃ ids ids' : Option String × Option String,
    (machine id).Run (fun s _ l => succeeds l = true ∧ InWindow twoTransports sampleOid s l) (fun _ _ g => g)
      (startCalls sampleConfig twoTransports 0) () s () ∧
    (s.pool 0).outcome = some (.ok (some ids)) ∧ (s.pool 1).outcome = some (.ok (some ids')) ∧ ids.1 ≠ ids'.1 := by
  obtain ⟨s,_,hr,hn⟩ : ∃ s g, (machine id).Run (fun s _ l => succeeds l = true ∧ InWindow twoTransports sampleOid s l)
      (fun _ _ g => g) (startCalls sampleConfig twoTransports 0) () s g ∧
      ((s.pool 0).outcome,(s.pool 1).outcome) = (some (.ok (some (some "t1_0",some "t1"))),
        some (.ok (some (some "t2_0",some "t2")))) :=
    Machine.replay_reaches (fun s _ l => inWindow twoTransports sampleOid s l)
      (finding sampleConfig 0 none ++ finding sampleConfig 1 none ++ minting sampleConfig 0 0 "t1_0" ++
        minting sampleConfig 1 0 "t2_0") (fun _ _ _ hl => inWindow_sound hl) (by decide +kernel)
  obtain ⟨h₀,h₁⟩ := Prod.mk.inj hn
  exact ⟨s,_,_,hr,h₀,h₁,by decide⟩

def agreeing (callers : Nat → Caller) (u : Guid) (s : Calls) (g : Option (String × Nat)) (l : Step) : Bool :=
  inWindow callers u s l && match l with
    | .task t ⟨.clock,_⟩ (.ok n) _ => !(callers t).resolves u || g.all (fun x => x == ((callers t).base u,n))
    | _ => true

theorem agreeing_sound {callers : Nat → Caller} {u : Guid} {s : Calls} {g : Option (String × Nat)} {l : Step}
    (hl : agreeing callers u s g l = true) : Agreeing callers u s g l := by
  simp only [agreeing,Bool.and_eq_true] at hl
  refine ⟨(inWindow_sound hl.1).2,?_⟩
  match l with
  | .env e => trivial
  | .task t ⟨c,b⟩ (.error e) h => cases c <;> trivial
  | .task t ⟨c,b⟩ (.ok a) h =>
    cases c <;> first
      | trivial
      | (rintro hres x rfl
         simpa [hres] using hl.2)

theorem one_session_reused : ∃ s : Calls, ∃ g, ∃ ids ids' : Option String × Option String,
    (machine id).Run (Agreeing twoTransports sampleOid) (firstMint twoTransports sampleOid)
      (startCalls sampleConfig twoTransports 0) none s g ∧
    (s.pool 0).outcome = some (.ok (some ids)) ∧ (s.pool 1).outcome = some (.ok (some ids')) ∧ ids.1 = ids'.1 := by
  obtain ⟨s,g,hr,hn⟩ : ∃ s g, (machine id).Run (Agreeing twoTransports sampleOid) (firstMint twoTransports sampleOid)
      (startCalls sampleConfig twoTransports 0) none s g ∧ ((s.pool 0).outcome,(s.pool 1).outcome) =
        (some (.ok (some (some "t1_0",some "t1"))),some (.ok (some (some "t1_0",some "t2")))) :=
    Machine.replay_reaches (agreeing twoTransports sampleOid)
      (finding sampleConfig 0 none ++ minting sampleConfig 0 0 "t1_0" ++ [.env (.tick 1799999)] ++
        finding sampleConfig 1 (some (.text "t1_0")) ++
        [answers 1 (.set (userKey sampleConfig sampleOid) (.text "t1_0") sampleConfig.sessions.ttl) ()])
      (fun _ _ _ hl => agreeing_sound hl) (by decide +kernel)
  obtain ⟨h₀,h₁⟩ := Prod.mk.inj hn
  refine ⟨s,g,_,_,hr,h₀,h₁,one_session ?_ hr 0 1 rfl rfl _ _ h₀ h₁⟩
  intro t v ht
  cases ht

end Races

end IdentityAwareMcp
