import IdentityAwareMcp.Coop.Staged
import IdentityAwareMcp.Control.Walk
import IdentityAwareMcp.Safety.Sticky

namespace IdentityAwareMcp

open Coop SandboxManager

section Parts

variable (cfg : Config) (ctx : SessionCtx)

-- createSandbox in three parts: what the sandbox is made from, the request for it, and what follows.
def specify : M Spec := do
  let disk ← resolveDisk cfg ctx.group
  let labels : Labels := ⟨labelSafe cfg.unicode (oidText ctx.userOid),labelSafe cfg.unicode ctx.sessionId,ctx.group.name⟩
  let subscription ← userSubscription cfg ctx.userOid
  let environment : Environment := ⟨cfg.spAppIds ctx.group,cfg.tenantId,subscription⟩
  let volumes ← workspaceVolumes cfg ctx.group
  return ⟨labels,environment,cfg.cpu,cfg.memory,cfg.autoSuspendSeconds,volumes,disk⟩

def beginSandbox : M Client := do
  let spec ← specify cfg ctx
  perform (.beginCreate (cfg.groupNames ctx.group) spec)

def finishSandbox (client : Client) : M Client := do
  perform (.pollCreate client)
  applyIdleAutodelete cfg client
  return client

theorem task_assoc {α β γ : Type} (p : M α) (f : α → M β) (g : β → M γ) :
    (p.bind f).bind g = p.bind (fun a => (f a).bind g) := by
  induction p with
  | ret a => rfl
  | raise e => rfl
  | call o k ih => exact congrArg (Task.call o) (funext ih)

theorem waitFor_bind {α β : Type} (p : M α) (f : α → M β) :
    waitFor (p.bind f) = (waitFor p).bind (fun a => waitFor (f a)) := by
  induction p with
  | ret a => rfl
  | raise e => rfl
  | call o k ih => exact congrArg (Task.call (Op.mk o.cmd true)) (funext ih)

theorem createSandbox_eq : createSandbox cfg ctx ctx.group = (beginSandbox cfg ctx).bind (finishSandbox cfg) := by
  simp only [createSandbox,beginSandbox,specify,Task.bind_eq,Task.pure_eq,task_assoc,Task.ret_bind]
  rfl

end Parts

section Shape

-- Commands with which a call sets the platform up for its sandbox.
def Cmd.prepares : Cmd → Bool
  | .acquire _ => true
  | .release _ => true
  | .get _ => true
  | .builtDiskGet _ => true
  | .builtDiskPut _ _ => true
  | .volumeSeen _ => true
  | .volumeAdd _ => true
  | .createVolume _ _ => true
  | .listDiskImages _ => true
  | .beginCreateDiskImage _ _ => true
  | .pollDiskImage _ _ => true
  | _ => false

def Op.setsUp (o : Op) : Bool := o.timed && o.cmd.prepares

def Joint (o : Op) : Prop := o.setsUp = false ∧ ∀ g spec, o.cmd ≠ .beginCreate g spec

def Builds (cfg : Config) (q : M Client) : Prop := ∃ ctx, q = waitFor (beginSandbox cfg ctx)

variable {cfg : Config} {α : Type}

theorem preparing_prepares {ctx : SessionCtx} {c : Cmd} (hp : Preparing cfg ctx c) : c.prepares = true := by
  cases c <;> first | rfl | exact hp.elim

theorem staged_perform {c : Cmd} (hc : ∀ g spec, c ≠ .beginCreate g spec) : Staged Joint (Builds cfg) (perform c) :=
  .perform ⟨rfl,hc⟩

theorem staged_everyday (c : Cmd) (hc : c.everyday) : Staged Joint (Builds cfg) (perform c) := by
  refine staged_perform ?_
  rintro g spec rfl
  exact hc

theorem staged_finish (c : Client) : Staged Joint (Builds cfg) (waitFor (finishSandbox cfg c)) := by
  refine .step (Op.mk (.pollCreate c) true) _ ⟨rfl,by simp⟩ (fun r => ?_)
  cases r with
  | error e => exact .raise _
  | ok u =>
    refine .step (Op.mk (.setLifecyclePolicy c cfg.autoDeleteSeconds) true) _ ⟨rfl,by simp⟩ (fun r => ?_)
    cases r with
    | ok u => exact .ret c
    | error e =>
      cases he : e.isException with
      | true =>
        simp only [Task.handle,he]
        exact .ret c
      | false =>
        simp only [Task.handle,he]
        exact .raise _

theorem staged_creation (ctx : SessionCtx) : Staged Joint (Builds cfg) (waitFor (createSandbox cfg ctx ctx.group)) := by
  rw [createSandbox_eq,waitFor_bind]
  exact (staged_part ⟨ctx,rfl⟩).bind staged_finish

theorem staged_getOrCreate (ctx : SessionCtx) : Staged Joint (Builds cfg) (getOrCreate cfg ctx) :=
  walk_getOrCreate (staged_compositional _ _) staged_everyday ctx (staged_perform (by simp)) (staged_perform (by simp))
    (staged_creation ctx)

theorem staged_resolve (v : Visit) :
    Staged Joint (Builds cfg) (SessionResolver.resolve cfg.sessions v.oid v.transportSessionId v.requestId) := by
  unfold SessionResolver.resolve
  have hmint : ∀ oid conversation, Staged Joint (Builds cfg)
      (SessionResolver.resolve.mint cfg.sessions v.transportSessionId oid conversation) := fun oid conversation =>
    Staged.bind (staged_perform (by simp)) (fun now => Staged.bind (staged_everyday (.set _ _ _) trivial) (fun _ => .ret _))
  split
  · exact .ret _
  · refine Staged.bind (Staged.bind (staged_everyday (.get _) trivial) (fun x => ?_)) (fun known => ?_)
    · split
      · exact Staged.bind (staged_everyday (.set _ _ _) trivial) (fun _ => .ret _)
      · exact .ret none
    · split
      · split
        · exact hmint _ _
        · exact .ret _
      · exact hmint _ _

theorem visit_staged (v : Visit) : Staged Joint (Builds cfg) (v.task cfg) :=
  (staged_resolve v).bind (fun ids => (staged_getOrCreate _).bind
    (fun c => (staged_perform (by simp)).bind (fun result => .ret _)))

end Shape

section Answers

variable (cfg : Config) (ctx : SessionCtx) {α β : Type}

inductive Readies (Q : Except Exc α → Prop) : M α → Prop
  | ret (a : α) : Q (.ok a) → Readies Q (.ret a)
  | raise (e : Exc) : Q (.error e) → Readies Q (.raise e)
  | call (c : Cmd) (b : Bool) (k : Except Exc c.Ans → M α) : Preparing cfg ctx c →
      (∀ r, healthy ⟨c,b⟩ r = true → Readies Q (k r)) → Readies Q (.call ⟨c,b⟩ k)

-- A call on its way to the request for its sandbox.
inductive Begins : M Client → Prop
  | request (spec : Spec) (k : Except Exc Client → M Client) : (∀ c, k (.ok c) = .ret c) →
      Begins (.call ⟨.beginCreate (cfg.groupNames ctx.group) spec,true⟩ k)
  | prepare (c : Cmd) (k : Except Exc c.Ans → M Client) : Preparing cfg ctx c →
      (∀ r, healthy ⟨c,true⟩ r = true → Begins (k r)) → Begins (.call ⟨c,true⟩ k)

variable {cfg ctx} {Q : Except Exc α → Prop} {R : Except Exc β → Prop}

theorem Readies.bind {p : M α} {f : α → M β} (hp : Readies cfg ctx Q p) (hok : ∀ a, Q (.ok a) → Readies cfg ctx R (f a))
    (herr : ∀ e, Q (.error e) → R (.error e)) : Readies cfg ctx R (p.bind f) := by
  induction hp with
  | ret a h => exact hok a h
  | raise e h => exact .raise e (herr e h)
  | call c b k hc _ ih => exact .call c b _ hc ih

theorem Readies.handle {p : M α} {f : Exc → M α} {R : Except Exc α → Prop} (hp : Readies cfg ctx Q p)
    (hok : ∀ a, Q (.ok a) → R (.ok a)) (herr : ∀ e, Q (.error e) → Readies cfg ctx R (f e)) :
    Readies cfg ctx R (p.handle f) := by
  induction hp with
  | ret a h => exact .ret a (hok a h)
  | raise e h => exact herr e h
  | call c b k hc _ ih => exact .call c b _ hc ih

theorem Readies.ensuring {p : M α} {fin : M Unit} (hp : Readies cfg ctx Q p)
    (hfin : Readies cfg ctx (fun r => r = .ok ()) fin) : Readies cfg ctx Q (p.ensuring fin) := by
  induction hp with
  | ret a h => exact hfin.bind (fun _ _ => .ret a h) (by simp)
  | raise e h => exact hfin.bind (fun _ _ => .raise e h) (by simp)
  | call c b k hc _ ih => exact .call c b _ hc ih

def Returns (r : Except Exc α) : Prop := ∃ a, r = .ok a

theorem returns_ok (a : α) : Returns (Except.ok a : Except Exc α) := ⟨a,rfl⟩

theorem Readies.next {p : M α} {f : α → M β} (hp : Readies cfg ctx Returns p) (hf : ∀ a, Readies cfg ctx R (f a)) :
    Readies cfg ctx R (p.bind f) := by
  refine hp.bind (fun a _ => hf a) ?_
  rintro e ⟨a,ha⟩
  cases ha

theorem readies_ret {a : α} : Readies cfg ctx Returns (.ret a) := .ret a (returns_ok a)

theorem readies_perform {c : Cmd} (hc : Preparing cfg ctx c) (hv : ∀ g x, c ≠ .createVolume g x) :
    Readies cfg ctx Returns (perform c) := by
  refine .call c false _ hc (fun r hr => ?_)
  cases r with
  | ok a => exact readies_ret
  | error e => cases c <;> first | exact absurd rfl (hv _ _) | cases hr | cases hc

theorem readies_step {c : Cmd} {f : c.Ans → M β} (hc : Preparing cfg ctx c) (hv : ∀ g x, c ≠ .createVolume g x)
    (hf : ∀ a, Readies cfg ctx R (f a)) : Readies cfg ctx R ((perform c).bind f) :=
  (readies_perform hc hv).next hf

theorem readies_withLock {key : String} {p : M α} (hacq : Preparing cfg ctx (.acquire key))
    (hrel : Preparing cfg ctx (.release key)) (hp : Readies cfg ctx Returns p) :
    Readies cfg ctx Returns (withLock key p) := by
  refine readies_step hacq (by simp) (fun _ => hp.ensuring ?_)
  refine .call (.release key) false _ hrel (fun r hr => ?_)
  cases r with
  | ok u => exact .ret u rfl
  | error e => cases hr

theorem readies_safely {p : M α} {f : Exc → M α} (hp : Readies cfg ctx Returns p) :
    Readies cfg ctx Returns (exceptException p f) := by
  refine hp.handle (fun a h => h) ?_
  rintro e ⟨a,ha⟩
  cases ha

theorem readies_disk : Readies cfg ctx Returns (resolveDisk cfg ctx.group) := by
  have hreuse : Readies cfg ctx Returns (reuseDiskImage (cfg.groupNames ctx.group)) := by
    refine readies_step trivial (by simp) (fun images => ?_)
    split
    · exact readies_step trivial (by simp) (fun _ => readies_ret)
    · exact readies_ret
  unfold resolveDisk
  split
  · exact readies_ret
  · split
    · refine (readies_withLock (.inl rfl) (.inl rfl) ?_).next (fun id => readies_ret)
      refine readies_step trivial (by simp) (fun built => ?_)
      split
      · refine (readies_safely hreuse).next (fun found => ?_)
        split
        · exact readies_ret
        · refine readies_step trivial (by simp) (fun id => ?_)
          refine readies_step trivial (by simp) (fun _ => ?_)
          exact readies_step trivial (by simp) (fun _ => readies_ret)
      · exact readies_ret
    · exact readies_ret

theorem readies_volumes : Readies cfg ctx Returns (workspaceVolumes cfg ctx.group) := by
  unfold workspaceVolumes
  split
  · exact readies_ret
  · refine Readies.next ?_ (fun _ => readies_ret)
    refine readies_step trivial (by simp) (fun seen => ?_)
    split
    · exact readies_ret
    · refine readies_withLock (.inr rfl) (.inr rfl) ?_
      refine readies_step trivial (by simp) (fun seen => ?_)
      split
      · exact readies_ret
      · refine Readies.next ?_ (fun _ => readies_perform (c := .volumeAdd _) trivial (by simp))
        refine .call (.createVolume _ _) false _ trivial (fun r hr => ?_)
        cases r with
        | ok u => exact readies_ret
        | error e =>
          cases of_decide_eq_true hr
          exact readies_ret

theorem specify_readies : Readies cfg ctx Returns (specify cfg ctx) := by
  refine readies_disk.next (fun disk => Readies.next ?_ (fun subscription => readies_volumes.next
    (fun volumes => readies_ret)))
  unfold userSubscription
  split
  · exact readies_ret
  · refine readies_step ⟨_,rfl⟩ (by simp) (fun x => ?_)
    split
    · split <;> exact readies_ret
    · exact readies_ret

theorem healthy_timed (c : Cmd) (b b' : Bool) (r : Except Exc c.Ans) : healthy ⟨c,b⟩ r = healthy ⟨c,b'⟩ r := by
  cases c <;> cases r <;> rfl

theorem begins_waitFor {p : M Spec} (hp : Readies cfg ctx Returns p) :
    Begins cfg ctx (waitFor (p.bind (fun spec => perform (.beginCreate (cfg.groupNames ctx.group) spec)))) := by
  induction hp with
  | ret spec h => exact .request spec _ (fun c => rfl)
  | raise e h =>
    obtain ⟨a,ha⟩ := h
    cases ha
  | call c b k hc _ ih =>
    refine .prepare c _ hc (fun r hr => ih r ?_)
    rwa [healthy_timed]

theorem builds_begins {q : M Client} (hq : q = waitFor (beginSandbox cfg ctx)) : Begins cfg ctx q := by
  rw [hq]
  exact begins_waitFor specify_readies

end Answers

section Undisturbed

def ImageEnds (w w₁ : World) : Prop := w₁ = w ∨ ∃ id state, env (.imageState id state) w = some w₁

def Hushed (x : Σ o : Op, Except Exc o.Ans) : Prop := x.1.cmd.prepares = true ∧ ∀ e, x.2 ≠ .error e

-- What setting up leaves as it was, once it is over.
structure Unmoved (w w' : World) : Prop where
  now : w'.now = w.now
  uuids : w'.uuids = w.uuids
  redis : w'.redis = w.redis
  made : w'.made = w.made
  boxes : w'.boxes = w.boxes
  locks : w'.locks = w.locks

theorem Unmoved.refl (w : World) : Unmoved w w := ⟨rfl,rfl,rfl,rfl,rfl,rfl⟩

theorem Unmoved.trans {w w₁ w₂ : World} (h : Unmoved w w₁) (h' : Unmoved w₁ w₂) : Unmoved w w₂ :=
  ⟨h'.now.trans h.now,h'.uuids.trans h.uuids,h'.redis.trans h.redis,h'.made.trans h.made,h'.boxes.trans h.boxes,
    h'.locks.trans h.locks⟩

-- Where nobody else is about, a task can be brought to its end.
def Quietly {α : Type} (rep : Nat → Nat) (t : Nat) (w : World) (p : M α) (w' : World) (a : α) : Prop :=
  ∃ tr, (machine rep).Alone ImageEnds t w p tr w' (.ok a) ∧ ∀ x ∈ tr, Hushed x

def Manages {α : Type} (rep : Nat → Nat) (t : Nat) (w : World) (p : M α) : Prop :=
  ∃ w' a, Quietly rep t w p w' a ∧ Unmoved w w'

variable {cfg : Config} {ctx : SessionCtx} {rep : Nat → Nat} {t : Nat} {w w₁ w₂ w' : World} {α β : Type}

theorem hushed_append {tr tr' : Task.Played Op Op.Ans Exc} (h : ∀ x ∈ tr, Hushed x) (h' : ∀ x ∈ tr', Hushed x) :
    ∀ x ∈ tr ++ tr', Hushed x := by
  intro x hx
  rcases List.mem_append.mp hx with hx | hx
  · exact h x hx
  · exact h' x hx

theorem Quietly.bind {p : M α} {f : α → M β} {a : α} {b : β} (hp : Quietly rep t w p w₁ a)
    (hf : Quietly rep t w₁ (f a) w' b) : Quietly rep t w (p.bind f) w' b := by
  obtain ⟨tr,hp,hq⟩ := hp
  obtain ⟨tr',hf,hq'⟩ := hf
  exact ⟨tr ++ tr',hp.bind hf,hushed_append hq hq'⟩

theorem Quietly.ensuring {p : M α} {fin : M Unit} {a : α} (hp : Quietly rep t w p w₁ a)
    (hf : Quietly rep t w₁ fin w' ()) : Quietly rep t w (p.ensuring fin) w' a := by
  obtain ⟨tr,hp,hq⟩ := hp
  obtain ⟨tr',hf,hq'⟩ := hf
  exact ⟨tr ++ tr',hp.ensuring hf,hushed_append hq hq'⟩

theorem Quietly.handle {p : M α} {f : Exc → M α} {a : α} (hp : Quietly rep t w p w' a) :
    Quietly rep t w (p.handle f) w' a := by
  obtain ⟨tr,hp,hq⟩ := hp
  exact ⟨tr,hp.handle,hq⟩

theorem quietly_perform {c : Cmd} {a : c.Ans} (hc : c.prepares = true) (hd : ImageEnds w w₁)
    (ha : act rep t ⟨c,false⟩ w₁ (.ok a) ⟨false,""⟩ = some w') : Quietly rep t w (perform c) w' a := by
  refine ⟨_,.perform hd ha,fun x hx => ?_⟩
  rw [List.mem_singleton.mp hx]
  exact ⟨hc,by simp⟩

theorem manages_ret {a : α} : Manages rep t w (.ret a) := ⟨w,a,⟨[],.ret w a,by simp⟩,.refl w⟩

theorem Manages.bind {p : M α} {f : α → M β} (hp : Manages rep t w p)
    (hf : ∀ w₁ a, Unmoved w w₁ → Manages rep t w₁ (f a)) : Manages rep t w (p.bind f) := by
  obtain ⟨w₁,a,hp,hw⟩ := hp
  obtain ⟨w₂,b,hf,hw'⟩ := hf w₁ a hw
  exact ⟨w₂,b,hp.bind hf,hw.trans hw'⟩

theorem Manages.handle {p : M α} {f : Exc → M α} (hp : Manages rep t w p) : Manages rep t w (p.handle f) := by
  obtain ⟨w₁,a,hp,hw⟩ := hp
  exact ⟨w₁,a,hp.handle,hw⟩

theorem manages_perform (c : Cmd) (a : c.Ans) (hc : c.prepares = true)
    (ha : act rep t ⟨c,false⟩ w (.ok a) ⟨false,""⟩ = some w') (hw : Unmoved w w') : Manages rep t w (perform c) :=
  ⟨w',a,quietly_perform hc (.inl rfl) ha,hw⟩

theorem manages_withLock {key : String} {p : M α} (hfree : w.locks (rep t) key = none)
    (hp : Manages rep t (w.lock (rep t) key (some t)) p) : Manages rep t w (withLock key p) := by
  obtain ⟨w₁,a,hp,hw⟩ := hp
  have hacq : Quietly rep t w (perform (.acquire key)) (w.lock (rep t) key (some t)) () :=
    quietly_perform rfl (.inl rfl) (if_pos hfree)
  have hrel : Quietly rep t w₁ (perform (.release key)) (w₁.lock (rep t) key none) () :=
    quietly_perform rfl (.inl rfl) rfl
  have hlocks : (w₁.lock (rep t) key none).locks = w.locks := by
    funext i k
    rw [lock_locks,hw.locks,lock_locks]
    split
    · rename_i h
      rw [h.1,h.2,hfree]
    · rfl
  exact ⟨_,a,hacq.bind (hp.ensuring hrel),hw.now,hw.uuids,hw.redis,hw.made,hw.boxes,hlocks⟩

theorem exists_fresh (l : List Image) : ∃ id, l.all (fun i => i.id ≠ id) = true := by
  have hlong : ∃ n, ∀ i ∈ l, i.id.length < n := by
    induction l with
    | nil => exact ⟨0,by simp⟩
    | cons i l ih =>
      obtain ⟨n,hn⟩ := ih
      refine ⟨max n (i.id.length + 1),fun j hj => ?_⟩
      rcases List.mem_cons.mp hj with rfl | hj
      · omega
      · have hlt := hn j hj
        omega
  obtain ⟨n,hn⟩ := hlong
  refine ⟨String.ofList (List.replicate n 'a'),List.all_eq_true.mpr (fun i hi => decide_eq_true ?_)⟩
  intro he
  have hlt := hn i hi
  rw [he,String.length_ofList,List.length_replicate] at hlt
  omega

-- An image that is built anew is ready once its build has ended.
theorem manages_image {g image : String} {f : String → M α} (hf : ∀ w₁ id, Unmoved w w₁ → Manages rep t w₁ (f id)) :
    Manages rep t w ((perform (.beginCreateDiskImage g image)).bind (fun id => (perform (.pollDiskImage g id)).bind
      (fun _ => f id))) := by
  obtain ⟨id,hid⟩ := exists_fresh w.images
  obtain ⟨w₁,himages,hbegin,hw₁⟩ : ∃ w₁ : World, w₁.images = w.images ++ [⟨id,g,image,"Building"⟩] ∧
      Quietly rep t w (perform (.beginCreateDiskImage g image)) w₁ id ∧ Unmoved w w₁ :=
    ⟨_,rfl,quietly_perform rfl (.inl rfl) (if_pos hid),rfl,rfl,rfl,rfl,rfl,rfl⟩
  obtain ⟨w₂,himages₂,hends,hw₂⟩ : ∃ w₂ : World, w₂.images = w₁.images.map (fun i : Image =>
      if i.id = id then { i with state := "Ready" } else i) ∧ env (.imageState id "Ready") w₁ = some w₂ ∧ Unmoved w₁ w₂ :=
    ⟨_,rfl,rfl,rfl,rfl,rfl,rfl,rfl,rfl⟩
  have hready : (w₂.images.any (fun i => i.id = id && i.groupName = g && i.state = "Ready")) = true := by
    rw [himages₂,himages]
    simp
  have hpoll : Quietly rep t w₁ (perform (.pollDiskImage g id)) w₂ () :=
    quietly_perform rfl (.inr ⟨_,_,hends⟩) (if_pos hready)
  obtain ⟨w₃,a,hrest,hw₃⟩ := hf w₂ id (hw₁.trans hw₂)
  exact ⟨w₃,a,hbegin.bind (hpoll.bind hrest),(hw₁.trans hw₂).trans hw₃⟩

theorem manages_put {g id : String} {a : α} : Manages rep t w ((perform (.builtDiskPut g id)).bind (fun _ => .ret a)) :=
  (manages_perform (.builtDiskPut g id) () rfl rfl ⟨rfl,rfl,rfl,rfl,rfl,rfl⟩).bind (fun _ _ _ => manages_ret)

theorem manages_disk (hfree : ∀ k, SetUpKey k → w.locks (rep t) k = none) :
    Manages rep t w (resolveDisk cfg ctx.group) := by
  unfold resolveDisk
  split
  · exact manages_ret
  · split
    · refine (manages_withLock (hfree _ ⟨_,.inl rfl⟩) ?_).bind (fun _ _ _ => manages_ret)
      refine (manages_perform (.builtDiskGet _) _ rfl (if_pos rfl) (.refl _)).bind (fun w₁ built _ => ?_)
      split
      · refine Manages.bind (Manages.handle ?_) (fun w₂ found _ => ?_)
        · refine (manages_perform (.listDiskImages _) _ rfl (if_pos rfl) (.refl _)).bind (fun w₂ images _ => ?_)
          split
          · exact manages_put
          · exact manages_ret
        · split
          · exact manages_ret
          · exact manages_image (fun w₃ id _ => manages_put)
      · exact manages_ret
    · exact manages_ret

theorem manages_volumes (hfree : ∀ k, SetUpKey k → w.locks (rep t) k = none) :
    Manages rep t w (workspaceVolumes cfg ctx.group) := by
  unfold workspaceVolumes
  split
  · exact manages_ret
  · refine Manages.bind ?_ (fun _ _ _ => manages_ret)
    refine (manages_perform (.volumeSeen _) _ rfl (if_pos rfl) (.refl _)).bind (fun w₁ seen hw₁ => ?_)
    split
    · exact manages_ret
    · refine manages_withLock (by rw [hw₁.locks]; exact hfree _ ⟨_,.inr rfl⟩) ?_
      refine (manages_perform (.volumeSeen _) _ rfl (if_pos rfl) (.refl _)).bind (fun w₂ seen _ => ?_)
      split
      · exact manages_ret
      · refine Manages.bind ?_ (fun w₃ _ _ =>
          manages_perform (.volumeAdd _) () rfl rfl ⟨rfl,rfl,rfl,rfl,rfl,rfl⟩)
        exact (manages_perform (.createVolume _ _) () rfl rfl (.refl _)).handle

theorem specify_manages (hfree : ∀ k, SetUpKey k → w.locks (rep t) k = none) : Manages rep t w (specify cfg ctx) := by
  refine (manages_disk hfree).bind (fun w₁ disk hw₁ => Manages.bind ?_ (fun w₂ subscription hw₂ =>
    (manages_volumes ?_).bind (fun _ _ _ => manages_ret)))
  · unfold userSubscription
    split
    · exact manages_ret
    · refine (manages_perform (.get _) _ rfl (if_pos rfl) (.refl _)).bind (fun w₂ x _ => ?_)
      split
      · split <;> exact manages_ret
      · exact manages_ret
  · rw [hw₂.locks,hw₁.locks]
    exact hfree

theorem act_timed {c : Cmd} {b : Bool} {a : c.Ans} {h : Hint} (ha : act rep t ⟨c,b⟩ w (.ok a) h = some w') (b' : Bool) :
    act rep t ⟨c,b'⟩ w (.ok a) h = some w' := by
  cases c <;> exact ha

theorem quietly_waitFor {p : M α} {a : α} (hp : Quietly rep t w p w' a) :
    ∃ tr, (machine rep).Alone ImageEnds t w (waitFor p) tr w' (.ok a) ∧ ∀ x ∈ tr, Hushed x ∧ x.1.timed = true := by
  obtain ⟨tr,hp,hq⟩ := hp
  generalize hr : Except.ok a = r at hp
  induction hp with
  | ret w b => exact ⟨[],.ret w b,by simp⟩
  | raise w e => cases hr
  | @call w w₁ w₂ w' o k r h tr res hd ha _ ih =>
    obtain ⟨tr',hrest,hq'⟩ := ih (fun x hx => hq x (List.mem_cons_of_mem _ hx)) hr
    obtain ⟨hc,hb⟩ := hq _ List.mem_cons_self
    cases r with
    | error e => exact absurd rfl (hb e)
    | ok b =>
      refine ⟨⟨⟨o.cmd,true⟩,.ok b⟩ :: tr',.call hd (act_timed ha true) hrest,fun x hx => ?_⟩
      rcases List.mem_cons.mp hx with rfl | hx
      · exact ⟨⟨hc,by simp⟩,rfl⟩
      · exact hq' x hx

end Undisturbed

end IdentityAwareMcp
