import IdentityAwareMcp.Safety.Views

namespace IdentityAwareMcp

open Coop SandboxManager

section Rest

variable (cfg : Config)

def forget (groupName id : String) : M Unit := do
  (perform (.beginDelete ⟨groupName,id⟩)).handle (fun e => if e = .notFound then .ret () else .raise e)
  cfg.indexBackend.delete id

def judge (groupName id key : String) : M Unit := do
  let live ← (perform (.get key)).bind (fun v => .ret (v.bind Value.asText))
  if live = some id then return () else forget cfg groupName id

-- One sandbox of a group is dealt with, then the other ones of the group, then the other groups.
def remaining (g : Group) (ids : List String) (gs : List Group) (p : M Unit) : M Unit := do
  exceptException (do
    p
    reapListed cfg (cfg.groupNames g) ids) (fun _ => return ())
  reapGroups cfg gs

-- What is left to do of a pass.
def Reaping.rest : Reaping → M Unit
  | .list gs => reapGroups cfg gs
  | .binding g id ids gs => remaining cfg g ids gs (reapOne cfg (cfg.groupNames g) id)
  | .peek g id key ids gs => remaining cfg g ids gs (judge cfg (cfg.groupNames g) id key)
  | .kill g id ids gs => remaining cfg g ids gs (forget cfg (cfg.groupNames g) id)
  | .unindex g id ids gs => remaining cfg g ids gs (cfg.indexBackend.delete id)
  | _ => .ret ()

def Reaping.ids : Reaping → List String
  | .binding _ id ids _ => id :: ids
  | .peek _ id _ ids _ => id :: ids
  | .kill _ id ids _ => id :: ids
  | .unindex _ id ids _ => id :: ids
  | _ => []

-- The same pass over some of the sandboxes.
def Reaping.trim (f : String → Bool) : Reaping → Reaping
  | .binding g id ids gs => Reaping.next g ((id :: ids).filter f) gs
  | .peek g id key ids gs => if f id then .peek g id key (ids.filter f) gs else Reaping.next g (ids.filter f) gs
  | .kill g id ids gs => if f id then .kill g id (ids.filter f) gs else Reaping.next g (ids.filter f) gs
  | .unindex g id ids gs => if f id then .unindex g id (ids.filter f) gs else Reaping.next g (ids.filter f) gs
  | st => st

def Reaping.at : Reaping → Option String
  | .binding _ id _ _ => some id
  | .peek _ id _ _ _ => some id
  | .kill _ id _ _ => some id
  | .unindex _ id _ _ => some id
  | _ => none

-- The moves of a pass that meets no fault.
inductive Sweep : Reaping → (o : Op) → Except Exc o.Ans → Reaping → Prop
  | listed (g : Group) (gs : List Group) (ids : List String) :
      Sweep (.list (g :: gs)) ⟨.listSandboxes (cfg.groupNames g),false⟩ (.ok ids) (Reaping.next g ids gs)
  | managed (g : Group) (id : String) (ids : List String) (gs : List Group) (oid s : Option String) (gr : String) :
      Sweep (.binding g id ids gs) ⟨.get (indexKey cfg id),false⟩ (.ok (some (.binding oid s gr)))
        (.peek g id (sessionKey cfg oid s gr) ids gs)
  | unmanaged (g : Group) (id : String) (ids : List String) (gs : List Group) :
      Sweep (.binding g id ids gs) ⟨.get (indexKey cfg id),false⟩ (.ok none) (Reaping.next g ids gs)
  | alive (g : Group) (id key : String) (ids : List String) (gs : List Group) (v : Option Value) :
      v.bind Value.asText = some id → Sweep (.peek g id key ids gs) ⟨.get key,false⟩ (.ok v) (Reaping.next g ids gs)
  | orphan (g : Group) (id key : String) (ids : List String) (gs : List Group) (v : Option Value) :
      v.bind Value.asText ≠ some id → Sweep (.peek g id key ids gs) ⟨.get key,false⟩ (.ok v) (.kill g id ids gs)
  | killed (g : Group) (id : String) (ids : List String) (gs : List Group) (r : Except Exc Unit) :
      (∀ e, r = .error e → e = .notFound) →
      Sweep (.kill g id ids gs) ⟨.beginDelete ⟨cfg.groupNames g,id⟩,false⟩ r (.unindex g id ids gs)
  | unindexed (g : Group) (id : String) (ids : List String) (gs : List Group) (u : Unit) :
      Sweep (.unindex g id ids gs) ⟨.del (indexKey cfg id),false⟩ (.ok u) (Reaping.next g ids gs)

variable {cfg} {g : Group} {gs : List Group} {ids : List String} {st st' : Reaping} {o : Op} {r : Except Exc o.Ans}
variable {f f' : String → Bool} {rep : Nat → Nat} {t : Nat} {w w' : World} {h : Hint}

theorem rest_next : (Reaping.next g ids gs).rest cfg = remaining cfg g ids gs (.ret ()) := by cases ids <;> rfl

theorem next_ids : (Reaping.next g ids gs).ids = ids := by cases ids <;> rfl

theorem trim_next : (Reaping.next g ids gs).trim f = Reaping.next g (ids.filter f) gs := by cases ids <;> rfl

theorem trim_congr (h : ∀ id ∈ st.ids, f id = f' id) : st.trim f = st.trim f' := by
  have hids : ∀ {id : String} {ids : List String}, (∀ i ∈ id :: ids, f i = f' i) → f id = f' id ∧ ids.filter f = ids.filter f' :=
    fun h => ⟨h _ List.mem_cons_self,List.filter_congr (fun i hi => h i (List.mem_cons_of_mem _ hi))⟩
  cases st with
  | binding g id ids gs => exact congrArg (fun l => Reaping.next g l gs) (List.filter_congr h)
  | peek g id key ids gs =>
    obtain ⟨hid,hrest⟩ := hids h
    simp only [Reaping.trim,hid,hrest]
  | kill g id ids gs =>
    obtain ⟨hid,hrest⟩ := hids h
    simp only [Reaping.trim,hid,hrest]
  | unindex g id ids gs =>
    obtain ⟨hid,hrest⟩ := hids h
    simp only [Reaping.trim,hid,hrest]
  | _ => rfl

-- A pass that has nothing left to do has nothing left to do for fewer sandboxes.
theorem rest_ret {u : Unit} (h : st.rest cfg = .ret u) : st.trim f = st := by
  cases st with
  | binding g id ids gs => cases h
  | peek g id key ids gs => cases h
  | kill g id ids gs => cases h
  | unindex g id ids gs => cases h
  | _ => rfl

theorem rest_raises {e : Exc} : st.rest cfg ≠ .raise e := by
  intro h
  cases st with
  | list gs =>
    cases gs with
    | nil => cases h
    | cons g gs => cases h
  | _ => cases h

def IsBinding (v : Value) : Prop := ∃ oid s gr, v = .binding oid s gr

theorem rest_sweeps {k : Except Exc o.Ans → M Unit} (hq : st.rest cfg = .call o k) (hh : healthy o r = true)
    (ha : act rep t o w r h = some w') (hb : ∀ id v, w.lookup (indexKey cfg id) = some v → IsBinding v) :
    ∃ st', Sweep cfg st o r st' := by
  cases st with
  | list gs =>
    cases gs with
    | nil => cases hq
    | cons g gs =>
      cases hq
      cases r with
      | ok l => exact ⟨_,.listed g gs l⟩
      | error e => cases hh
  | binding g id ids gs =>
    cases hq
    cases r with
    | ok v =>
      obtain ⟨hv,-⟩ := act_get ha
      cases v with
      | none => exact ⟨_,.unmanaged g id ids gs⟩
      | some x =>
        obtain ⟨oid,s,gr,rfl⟩ := hb id x hv.symm
        exact ⟨_,.managed g id ids gs oid s gr⟩
    | error e => cases hh
  | peek g id key ids gs =>
    cases hq
    cases r with
    | ok v =>
      by_cases hv : v.bind Value.asText = some id
      · exact ⟨_,.alive g id key ids gs v hv⟩
      · exact ⟨_,.orphan g id key ids gs v hv⟩
    | error e => cases hh
  | kill g id ids gs =>
    cases hq
    refine ⟨_,.killed g id ids gs r ?_⟩
    rintro e rfl
    exact of_decide_eq_true hh
  | unindex g id ids gs =>
    cases hq
    cases r with
    | ok u => exact ⟨_,.unindexed g id ids gs u⟩
    | error e => cases hh
  | _ => cases hq

theorem Sweep.rest (hm : Sweep cfg st o r st') : ∃ k, st.rest cfg = .call o k ∧ k r = st'.rest cfg := by
  cases hm with
  | listed g gs ids => exact ⟨_,rfl,rest_next.symm⟩
  | managed g id ids gs oid s gr => exact ⟨_,rfl,rfl⟩
  | unmanaged g id ids gs => exact ⟨_,rfl,rest_next.symm⟩
  | alive g id key ids gs v hv =>
    refine ⟨_,rfl,?_⟩
    rw [rest_next]
    simp only [hv,Task.ret_bind,if_true]
    rfl
  | orphan g id key ids gs v hv =>
    refine ⟨_,rfl,?_⟩
    simp only [hv,Task.ret_bind,if_false]
    rfl
  | killed g id ids gs r hr =>
    cases r with
    | ok u => exact ⟨_,rfl,rfl⟩
    | error e =>
      cases hr e rfl
      exact ⟨_,rfl,rfl⟩
  | unindexed g id ids gs u => exact ⟨_,rfl,rest_next.symm⟩

-- What a pass does about a sandbox, it does when it sees fewer; else it does nothing meanwhile.
theorem Sweep.trim (hm : Sweep cfg st o r st') {id : String} (hid : st.at = some id) :
    (f id = true → Sweep cfg (st.trim f) o r (st'.trim f)) ∧ (f id = false → st'.trim f = st.trim f) := by
  have hkeep : ∀ {id : String} {ids : List String}, f id = true → (id :: ids).filter f = id :: ids.filter f :=
    fun hf => List.filter_cons_of_pos hf
  have hdrop : ∀ {id : String} {ids : List String}, f id = false → (id :: ids).filter f = ids.filter f :=
    fun hf => List.filter_cons_of_neg (by simp [hf])
  cases hm with
  | listed g gs ids => cases hid
  | managed g id ids gs oid s gr =>
    cases hid
    refine ⟨fun hf => ?_,fun hf => ?_⟩
    · simp only [Reaping.trim,hkeep hf,hf,if_true]
      exact .managed g id _ gs oid s gr
    · simp [Reaping.trim,hdrop hf,hf]
  | unmanaged g id ids gs =>
    cases hid
    refine ⟨fun hf => ?_,fun hf => ?_⟩
    · simp only [trim_next]
      simp only [Reaping.trim,hkeep hf]
      exact .unmanaged g id _ gs
    · simp only [trim_next]
      simp only [Reaping.trim,hdrop hf]
  | alive g id key ids gs v hv =>
    cases hid
    refine ⟨fun hf => ?_,fun hf => ?_⟩
    · simp only [trim_next]
      simp only [Reaping.trim,hf,if_true]
      exact .alive g id key _ gs v hv
    · simp only [trim_next]
      simp [Reaping.trim,hf]
  | orphan g id key ids gs v hv =>
    cases hid
    refine ⟨fun hf => ?_,fun hf => ?_⟩
    · simp only [Reaping.trim,hf,if_true]
      exact .orphan g id key _ gs v hv
    · simp [Reaping.trim,hf]
  | killed g id ids gs r hr =>
    cases hid
    refine ⟨fun hf => ?_,fun hf => ?_⟩
    · simp only [Reaping.trim,hf,if_true]
      exact .killed g id _ gs r hr
    · simp [Reaping.trim,hf]
  | unindexed g id ids gs u =>
    cases hid
    refine ⟨fun hf => ?_,fun hf => ?_⟩
    · simp only [trim_next]
      simp only [Reaping.trim,hf,if_true]
      exact .unindexed g id _ gs u
    · simp only [trim_next]
      simp [Reaping.trim,hf]

end Rest

section Rounds

-- The commands with which the reapers settle who of them is the one.
def Electing (o : Op) : Prop :=
  o.cmd = .uuid ∨ (∃ v ex, o.cmd = .setNx leaderKey v ex) ∨ ∃ v, o.cmd = .evalRelease leaderKey v

def Passes (cfg : Config) (q : M Unit) : Prop := q = reapOrphans cfg

variable {cfg : Config}

theorem staged_resign (lease : Lease) : Staged Electing (Passes cfg) (resignReaper cfg lease) := by
  unfold resignReaper
  split
  · exact .ret ()
  · split
    · refine Staged.handle (Staged.perform (.inr (.inr ⟨_,rfl⟩))) (fun e => ?_)
      split
      · exact .ret ()
      · exact .raise e
    · exact .ret ()

theorem staged_elect : Staged Electing (Passes cfg) (tryBecomeReaper cfg) := by
  unfold tryBecomeReaper
  split
  · exact .ret _
  · refine Staged.bind (Staged.perform (.inl rfl)) (fun n => Staged.handle (Staged.bind
      (Staged.perform (.inr (.inl ⟨_,_,rfl⟩))) (fun got => .ret _)) (fun e => ?_))
    split
    · exact .ret _
    · exact .raise e

theorem round_staged : Staged Electing (Passes cfg) (Job.task cfg .reaperRound) := by
  refine Staged.bind (Staged.handle (staged_elect.bind (fun lease => ?_)) (fun e => ?_)) (fun _ => .ret _)
  · cases lease with
    | none => exact .ret ()
    | some lease => exact (staged_part (show Passes cfg _ from rfl)).ensuring (staged_resign lease)
  · split
    · exact .ret ()
    · exact .raise e

inductive Event where
  | answered (o : Op) (r : Except Exc o.Ans)
  | created (groupName : String) (c : Client)
  | listed (groupName : String)

variable (cfg) (u : Guid) (mine : Nat → Bool)

-- What a pass does with the sandboxes of one user: when it lists them and when it deletes one.
def passEvent (w : World) : (o : Op) → Except Exc o.Ans → Option Event
  | ⟨.listSandboxes g,_⟩, _ => some (.listed g)
  | ⟨.get _,_⟩, _ => none
  | ⟨.del _,_⟩, _ => none
  | ⟨.beginDelete c,b⟩, r => if own mine w c.sandboxId then some (.answered ⟨.beginDelete c,b⟩ r) else none
  | o, r => some (.answered o r)

-- A pass over all sandboxes and one over those of the user, at the same point.
def Sweeps (w : World) (q q' : M Unit) : Prop :=
  ∃ st : Reaping, q = st.rest cfg ∧ q' = (st.trim (own mine w)).rest cfg ∧ (∀ id ∈ st.ids, w.boxes id ≠ none) ∧
    ∀ g id key ids gs, st = .peek g id key ids gs → own mine w id = true →
      ∃ x : SessionCtx, x.userOid = some u ∧ key = ctxKey cfg x

-- The index holds bindings, and of the user's sandboxes the user's own.
def Catalog (w : World) : Prop :=
  ∀ id v, w.lookup (indexKey cfg id) = some v → ∃ x : SessionCtx,
    v = .binding (oidText x.userOid) x.sessionId x.group.name ∧ (own mine w id = true → x.userOid = some u)

variable {cfg u mine} {rep : Nat → Nat} {t : Nat} {o : Op} {r : Except Exc o.Ans} {h : Hint} {w w' w₂ : World}
variable {q q' : M Unit}

theorem Sweeps.mono (hs : Sweeps cfg u mine w q q') (hg : w.Grows w₂) : Sweeps cfg u mine w₂ q q' := by
  obtain ⟨st,rfl,rfl,hids,hpeek⟩ := hs
  have hown : ∀ id ∈ st.ids, own mine w id = own mine w₂ id := fun id hid => (own_stays hg (hids id hid)).symm
  refine ⟨st,rfl,by rw [trim_congr hown],fun id hid => ?_,?_⟩
  · obtain ⟨b,hb⟩ := Option.ne_none_iff_exists'.mp (hids id hid)
    obtain ⟨b',hb',-⟩ := hg id b hb
    simp [hb']
  · rintro g id key ids gs rfl ho
    exact hpeek g id key ids gs rfl ((hown id List.mem_cons_self).trans ho)

theorem sweeps_start : Sweeps cfg u mine w (reapOrphans cfg) (reapOrphans cfg) := by
  have hrest : reapOrphans cfg = (reapStart cfg).rest cfg := by
    unfold reapOrphans reapStart
    cases cfg.index <;> rfl
  refine ⟨reapStart cfg,hrest,hrest,?_,?_⟩
  · intro id hid
    cases hid
  · intro g id key ids gs he
    cases he

theorem passes_sweep (hq : Passes cfg q) : Sweeps cfg u mine w q q ∧ ∀ e, q ≠ .raise e := by
  cases hq
  refine ⟨sweeps_start,fun e he => ?_⟩
  obtain ⟨st,hst,-⟩ : Sweeps cfg u mine w (reapOrphans cfg) (reapOrphans cfg) := sweeps_start
  exact rest_raises (hst.symm.trans he)

theorem sweep_ids {st st' : Reaping} (hm : Sweep cfg st o r st') {id : String} (ha : st.at = some id) :
    id ∈ st.ids ∧ ∀ i ∈ st'.ids, i ∈ st.ids := by
  cases hm with
  | listed g gs ids => cases ha
  | managed g i ids gs oid s gr =>
    cases ha
    exact ⟨List.mem_cons_self,fun i hi => hi⟩
  | orphan g i key ids gs v hv =>
    cases ha
    exact ⟨List.mem_cons_self,fun i hi => hi⟩
  | killed g i ids gs r hr =>
    cases ha
    exact ⟨List.mem_cons_self,fun i hi => hi⟩
  | unmanaged g i ids gs =>
    cases ha
    rw [next_ids]
    exact ⟨List.mem_cons_self,fun i hi => List.mem_cons_of_mem _ hi⟩
  | alive g i key ids gs v hv =>
    cases ha
    rw [next_ids]
    exact ⟨List.mem_cons_self,fun i hi => List.mem_cons_of_mem _ hi⟩
  | unindexed g i ids gs a =>
    cases ha
    rw [next_ids]
    exact ⟨List.mem_cons_self,fun i hi => List.mem_cons_of_mem _ hi⟩

theorem Mirrors.own_same (hm : Mirrors cfg u mine w w') {id : String} (ho : own mine w id = true) :
    own mine w' id = true := by
  rcases hm.known (own_known ho) with ⟨hb,-⟩ | ⟨b,spec,hb,hb'⟩
  · simp only [own,hb] at ho
    cases ho
  · simpa only [own,hb,hb'] using ho

theorem sweep_seen {st st' : Reaping} (hm : Sweep cfg st o r st') {id : String} (hat : st.at = some id)
    (ho : own mine w id = true) (hpeek : ∀ g id key ids gs, st = .peek g id key ids gs → own mine w id = true →
      ∃ x : SessionCtx, x.userOid = some u ∧ key = ctxKey cfg x) : Seen cfg u mine w o.cmd := by
  have hindex : Visible cfg u mine w (indexKey cfg id) := .inr (.inr (.inr ⟨id,own_known ho,.inl rfl⟩))
  cases hm with
  | listed g gs ids => cases hat
  | managed g i ids gs oid s gr =>
    cases hat
    exact hindex
  | unmanaged g i ids gs =>
    cases hat
    exact hindex
  | alive g i key ids gs v hv =>
    cases hat
    obtain ⟨x,hx,rfl⟩ := hpeek g id key ids gs rfl ho
    exact .inr (.inr (.inl ⟨x,hx,.inl rfl⟩))
  | orphan g i key ids gs v hv =>
    cases hat
    obtain ⟨x,hx,rfl⟩ := hpeek g id key ids gs rfl ho
    exact .inr (.inr (.inl ⟨x,hx,.inl rfl⟩))
  | killed g i ids gs r hr =>
    cases hat
    exact own_known ho
  | unindexed g i ids gs a =>
    cases hat
    exact hindex

theorem sweep_unseen {st st' : Reaping} (hm : Sweep cfg st o r st') {id : String} (hat : st.at = some id)
    (hs : Strange mine w id) : Unseen cfg u mine t w o.cmd := by
  cases hm with
  | listed g gs ids => cases hat
  | killed g i ids gs r hr =>
    cases hat
    exact hs
  | unindexed g i ids gs a =>
    cases hat
    exact index_unseen hs
  | _ => trivial

theorem sweep_event {st st' : Reaping} (hm : Sweep cfg st o r st') {id : String} (hat : st.at = some id)
    (ho : own mine w' id = own mine w id) : passEvent mine w' o r = passEvent mine w o r := by
  cases hm with
  | listed g gs ids => cases hat
  | killed g i ids gs r hr =>
    cases hat
    simp only [passEvent,ho]
  | _ => rfl

theorem sweep_quiet {st st' : Reaping} (hm : Sweep cfg st o r st') {id : String} (hat : st.at = some id)
    (ho : own mine w id = false) : passEvent mine w o r = none := by
  cases hm with
  | listed g gs ids => cases hat
  | killed g i ids gs r hr =>
    cases hat
    simp [passEvent,ho]
  | _ => rfl

theorem sweep_peeks {st st' : Reaping} (hm : Sweep cfg st o r st') (ha : act rep t o w r h = some w₂)
    (hl : Catalog cfg u mine w) {g : Group} {id key : String} {ids : List String} {gs : List Group}
    (hst : st' = .peek g id key ids gs) (ho : own mine w id = true) :
    ∃ x : SessionCtx, x.userOid = some u ∧ key = ctxKey cfg x := by
  have hnext : ∀ {g' : Group} {ids' : List String} {gs' : List Group}, Reaping.next g' ids' gs' ≠ .peek g id key ids gs := by
    intro g' ids' gs' he
    cases ids' <;> cases he
  cases hm with
  | managed g i ids gs oid s gr =>
    cases hst
    obtain ⟨hv,-⟩ := act_get ha
    obtain ⟨x,hx,hown⟩ := hl _ _ hv.symm
    cases hx
    exact ⟨x,hown ho,rfl⟩
  | orphan g i key ids gs v hv => cases hst
  | killed g i ids gs r hr => cases hst
  | _ => exact absurd hst hnext

-- One step of a pass in the whole world is one step of the pass over the user's sandboxes, or none.
theorem sweeps_step (hm : Mirrors cfg u mine w w') (hl : Catalog cfg u mine w) {k : Except Exc o.Ans → M Unit}
    (hs : Sweeps cfg u mine w (.call o k) q') (hh : healthy o r = true) (ha : act rep t o w r h = some w₂) :
    (Mirrors cfg u mine w₂ w' ∧ Sweeps cfg u mine w₂ (k r) q' ∧ passEvent mine w o r = none) ∨
      ∃ k' r' w₂', q' = .call o k' ∧ healthy o r' = true ∧ act rep t o w' r' h = some w₂' ∧ Mirrors cfg u mine w₂ w₂' ∧
        Sweeps cfg u mine w₂ (k r) (k' r') ∧ passEvent mine w' o r' = passEvent mine w o r := by
  obtain ⟨st,hq,rfl,hids,hpeek⟩ := hs
  have hg : w.Grows w₂ := act_grows ha
  obtain ⟨st',hsw⟩ := rest_sweeps hq.symm hh ha (fun id v hv => by
    obtain ⟨x,hx,-⟩ := hl id v hv
    exact ⟨_,_,_,hx⟩)
  obtain ⟨k₀,hk₀,hr₀⟩ := hsw.rest
  cases hq.trans hk₀
  cases hat : st.at with
  | some id =>
    obtain ⟨hid,hsub⟩ := sweep_ids hsw hat
    obtain ⟨htrim,hskip⟩ := hsw.trim (f := own mine w) hat
    have hsweeps : Sweeps cfg u mine w₂ (k r) ((st'.trim (own mine w)).rest cfg) := by
      refine Sweeps.mono ⟨st',hr₀,rfl,fun i hi => hids i (hsub i hi),?_⟩ hg
      intro g i key ids gs he ho
      exact sweep_peeks hsw ha hl he ho
    cases ho : own mine w id with
    | true =>
      obtain ⟨k',hk',hr'⟩ := (htrim ho).rest
      obtain ⟨w₂',ha',hm'⟩ := hm.act (sweep_seen hsw hat ho hpeek) hh ha
      exact .inr ⟨k',r,w₂',hk',hh,ha',hm',by rwa [hr'],sweep_event hsw hat ((hm.own_same ho).trans ho.symm)⟩
    | false =>
      rw [hskip ho] at hsweeps
      exact .inl ⟨hm.unseen (sweep_unseen hsw hat (not_own (hids id hid) ho)) ha,hsweeps,sweep_quiet hsw hat ho⟩
  | none =>
    cases hsw with
    | listed g gs ids =>
      obtain ⟨rfl,rfl⟩ := act_list ha
      have hown : ∀ id ∈ w₂.listed (cfg.groupNames g), w₂.boxes id ≠ none := by
        intro id hid
        exact hm.named id (List.mem_of_mem_filter hid)
      refine .inr ⟨k,.ok (w'.listed (cfg.groupNames g)),w',hk₀,rfl,if_pos rfl,hm,?_,rfl⟩
      refine ⟨_,hr₀,?_,by rwa [next_ids],?_⟩
      · rw [trim_next,hm.listed]
        have hlist : Sweep cfg (.list (g :: gs)) _ _ _ := .listed g gs ((w₂.listed (cfg.groupNames g)).filter (own mine w₂))
        obtain ⟨k₁,hk₁,hr₁⟩ := hlist.rest
        cases hk₀.symm.trans hk₁
        exact hr₁
      · intro g' id key ids gs' he ho
        exact absurd he (by cases w₂.listed (cfg.groupNames g) <;> simp [Reaping.next])
    | _ => cases hat

end Rounds

end IdentityAwareMcp
