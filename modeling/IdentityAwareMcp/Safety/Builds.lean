import IdentityAwareMcp.Safety.Provenance

namespace IdentityAwareMcp

open Coop SandboxManager

section Builds

structure Build where
  id : String
  groupName : String
  abandoned : Bool
deriving DecidableEq

-- The build that a command sets going; where its answer does not arrive, nobody waits for it.
def startedBy : (o : Op) → Except Exc o.Ans → Hint → Option Build
  | ⟨.beginCreateDiskImage g _,_⟩, .ok id, _ => some ⟨id,g,false⟩
  | ⟨.beginCreateDiskImage g _,_⟩, .error _, h => if h.reached then some ⟨h.fresh,g,true⟩ else none
  | _, _, _ => none

-- The build whose wait a command ends, without the image.
def givenUp : (o : Op) → Except Exc o.Ans → Option String
  | ⟨.pollDiskImage _ id,_⟩, .error _ => some id
  | _, _ => none

def Build.after (id : Option String) (b : Build) : Build := if id = some b.id then { b with abandoned := true } else b

-- The builds in flight: from their start until the platform reports a state that is `closed`.
def inFlight (closed : String → Bool) (_ : System) (l : Step) (g : List Build) : List Build :=
  match l with
  | .task _ o r h => g.map (Build.after (givenUp o r)) ++ (startedBy o r h).toList
  | .env (.imageState id state) => if closed state then g.filter (fun b => b.id ≠ id) else g
  | .env _ => g

-- Where a call has given up on a build, or on the start of one, nobody looks for an image of
-- that group before the build is over.
def Awaits (g : List Build) : Step → Prop
  | .task _ ⟨.listDiskImages m,_⟩ _ _ => ∀ b ∈ g, b.groupName = m → b.abandoned = false
  | _ => True

variable {cfg : Config} {group : Group} {calls : Nat → SessionCtx} {closed : String → Bool} {n t : Nat}
variable {w w' : World} {g : List Build} {st : Nat → DiskStage} {x p : DiskStage} {o : Op} {r : Except Exc o.Ans} {h : Hint}

theorem disk_releases {c : Cmd} {r : Except Exc c.Ans} (hm : DiskMove cfg group x c r p) {m : String}
    (hc : c = .release (diskLock m)) : x.inside = true ∧ p.inside = false ∧ m = cfg.groupNames group := by
  cases hm with
  | aside _ _ _ _ ha =>
    subst hc
    exact absurd rfl (ha m)
  | left res u =>
    cases append_injective _ (Cmd.release.inj hc)
    exact ⟨rfl,by cases res <;> rfl,rfl⟩
  | leftFailed res e =>
    cases append_injective _ (Cmd.release.inj hc)
    exact ⟨rfl,rfl,rfl⟩
  | _ => cases hc

theorem disk_enters (hm : DiskMove cfg group x o.cmd r p) (hx : x.inside = false) (hp : p.inside = true)
    (ha : act (fun _ => n) t o w r h = some w') : w'.locks n (diskLock (cfg.groupNames group)) = some t := by
  obtain ⟨c,timed⟩ := o
  cases hm with
  | aside _ _ _ _ _ | created _ _ _ _ _ | barred _ _ _ =>
    rw [hx] at hp
    cases hp
  | entered _ u _ =>
    simp only [act] at ha
    split at ha
    · cases ha
      simp [lock_locks]
    · cases ha
  | left res u | leftFailed res e => cases hx
  | _ => cases hx

theorem poll_ready {rep : Nat → Nat} {m id : String} {timed : Bool} {u : Unit}
    (ha : act rep t ⟨.pollDiskImage m id,timed⟩ w (.ok u) h = some w') :
    ∃ i ∈ w.images, i.id = id ∧ i.state = "Ready" := by
  simp only [act] at ha
  split at ha
  · rename_i hany
    obtain ⟨i,hi,hs⟩ := List.any_eq_true.mp hany
    simp only [Bool.and_eq_true,decide_eq_true_eq] at hs
    exact ⟨i,hi,hs.1.1,hs.2⟩
  · cases ha

theorem started_begins {b : Build} (hb : startedBy o r h = some b) :
    ∃ src, o.cmd = .beginCreateDiskImage b.groupName src := by
  unfold startedBy at hb
  split at hb
  · cases hb
    exact ⟨_,rfl⟩
  · split at hb
    · cases hb
      exact ⟨_,rfl⟩
    · cases hb
  · cases hb

-- A call starts a build after a scan that found nothing, and waits for it where it learns its id.
theorem disk_starts (hm : DiskMove cfg group x o.cmd r p) {b : Build} (hb : startedBy o r h = some b) :
    x = .missing ∧ b.groupName = cfg.groupNames group ∧ (b.abandoned = false → p = .building b.id) := by
  obtain ⟨c,timed⟩ := o
  cases hm with
  | begun id =>
    cases hb
    exact ⟨rfl,rfl,fun _ => rfl⟩
  | beginFailed e =>
    simp only [startedBy] at hb
    split at hb
    · cases hb
      exact ⟨rfl,rfl,fun h => by cases h⟩
    · cases hb
  | aside _ _ _ _ hc =>
    obtain ⟨src,rfl⟩ := started_begins hb
    cases hc
  | _ => cases hb

-- A call finds nothing in a scan that happens under its lock.
theorem disk_scans {rep : Nat → Nat} (hm : DiskMove cfg group x o.cmd r p) (hp : p = .missing)
    (ha : act rep t o w r h = some w') : x = .unknown ∧ (∃ timed, o = ⟨.listDiskImages (cfg.groupNames group),timed⟩) ∧ startedBy o r h = none := by
  obtain ⟨c,timed⟩ := o
  cases hm with
  | aside _ _ _ hout | created _ _ _ hout | barred _ _ hout =>
    subst hp
    cases hout
  | unusable l hl => exact ⟨rfl,⟨_,rfl⟩,rfl⟩
  | listFailed e he => exact ⟨rfl,⟨_,rfl⟩,rfl⟩
  | unkept id e st hs => cases ha
  | left res u => cases res <;> cases hp
  | _ => cases hp

-- The images after a step: those there were, and one that is being built.
theorem images_act {rep : Nat → Nat} (ha : act rep t o w r h = some w') {i : Image} (him : i ∈ w'.images) :
    i ∈ w.images ∨ i.state = "Building" := by
  obtain ⟨c,timed⟩ := o
  by_cases hc : ∃ m src, c = .beginCreateDiskImage m src
  · obtain ⟨m,src,rfl⟩ := hc
    rcases act_beginImage ha with ⟨id,rfl,-⟩ | ⟨rfl,-⟩
    · rcases List.mem_append.mp him with him | him
      · exact .inl him
      · rw [List.mem_singleton.mp him]
        exact .inr rfl
    · exact .inl him
  · exact .inl (act_images ha (fun m src he => hc ⟨m,src,he⟩) ▸ him)

-- The platform gives a build an id of its own.
theorem started_fresh {rep : Nat → Nat} (ha : act rep t o w r h = some w') {b : Build} (hb : startedBy o r h = some b) :
    ∀ i ∈ w.images, i.id ≠ b.id := by
  obtain ⟨c,timed⟩ := o
  obtain ⟨src,rfl⟩ := started_begins hb
  rcases act_beginImage ha with ⟨id,-,hfresh,rfl | ⟨e,rfl,hh,rfl⟩⟩ | ⟨-,e,rfl,hh⟩
  · simp only [startedBy,Option.some.injEq] at hb
    exact hb ▸ hfresh
  · simp only [startedBy,hh,if_true,Option.some.injEq] at hb
    exact hb ▸ hfresh
  · simp [startedBy,hh] at hb

theorem after_id (i : Option String) (b : Build) : (b.after i).id = b.id := by
  unfold Build.after
  split <;> rfl

theorem after_group (i : Option String) (b : Build) : (b.after i).groupName = b.groupName := by
  unfold Build.after
  split <;> rfl

theorem after_waited {i : Option String} {b : Build} (h : (b.after i).abandoned = false) :
    b.abandoned = false ∧ i ≠ some b.id := by
  unfold Build.after at h
  split at h
  · cases h
  · exact ⟨h,‹_›⟩

structure Building (closed : String → Bool) (cfg : Config) (calls : Nat → SessionCtx) (n : Nat) (w : World)
    (g : List Build) (st : Nat → DiskStage) : Prop where
  locked : ∀ t, (st t).inside = true → w.locks n (diskLock (cfg.groupNames (calls t).group)) = some t
  waited : ∀ b ∈ g, b.abandoned = false → ∃ t, st t = .building b.id ∧ b.groupName = cfg.groupNames (calls t).group
  scanned : ∀ t, st t = .missing → ∀ b ∈ g, b.groupName ≠ cfg.groupNames (calls t).group
  unfinished : ∀ b ∈ g, ∀ i ∈ w.images, i.id = b.id → closed i.state = false

-- Of the calls for one group only one is in its critical section.
theorem Building.sole (hi : Building closed cfg calls n w g st) {i : Nat} (ht : (st t).inside = true)
    (hin : (st i).inside = true) (hg : cfg.groupNames (calls i).group = cfg.groupNames (calls t).group) : i = t := by
  have hlock := hi.locked i hin
  rw [hg,hi.locked t ht] at hlock
  cases hlock
  rfl

theorem Building.locks (hi : Building closed cfg calls n w g st)
    (hm : DiskMove cfg (calls t).group (st t) o.cmd r p) (ha : act (fun _ => n) t o w r h = some w') (i : Nat)
    (hin : (upd st t p i).inside = true) : w'.locks n (diskLock (cfg.groupNames (calls i).group)) = some i := by
  by_cases hit : i = t
  · subst hit
    rw [upd_same] at hin
    cases hx : (st i).inside with
    | false => exact disk_enters hm hx hin ha
    | true =>
      have hold := hi.locked i hx
      rcases act_locks ha n (diskLock (cfg.groupNames (calls i).group)) with hl | ⟨-,⟨-,hn,-⟩ | ⟨ho,-⟩⟩
      · rw [hl,hold]
      · rw [hold] at hn
        cases hn
      · rw [(disk_releases hm ho).2.1] at hin
        cases hin
  · rw [upd_other _ _ hit] at hin
    have hold := hi.locked i hin
    rcases act_locks ha n (diskLock (cfg.groupNames (calls i).group)) with hl | ⟨-,⟨-,hn,-⟩ | ⟨ho,-⟩⟩
    · rw [hl,hold]
    · rw [hold] at hn
      cases hn
    · obtain ⟨hx,-,hg⟩ := disk_releases hm ho
      have ht := hi.locked t hx
      rw [← hg,hold] at ht
      cases ht
      exact absurd rfl hit

-- A call that waits for a build in flight moves on only by giving up on it.
theorem Building.stands (hi : Building closed cfg calls n w g st) (hclosed : closed "Ready" = true) {b : Build} (hb : b ∈ g)
    (hx : st t = .building b.id) (hm : DiskMove cfg (calls t).group (st t) o.cmd r p)
    (ha : act (fun _ => n) t o w r h = some w') : givenUp o r = some b.id := by
  rw [hx] at hm
  obtain ⟨c,timed⟩ := o
  cases hm with
  | aside _ _ _ hout | created _ _ _ hout | entered _ _ hout | barred _ _ hout => cases hout
  | built id u =>
    obtain ⟨i,hi',hid,hs⟩ := poll_ready ha
    have hf := hi.unfinished b hb i hi' hid
    rw [hs,hclosed] at hf
    cases hf
  | unbuilt id e => rfl

-- When a scan of the group comes to nothing, no build is in flight for it.
theorem Building.looks (hi : Building closed cfg calls n w g st) (hx : st t = .unknown)
    (hw : ∀ b ∈ g, b.groupName = cfg.groupNames (calls t).group → b.abandoned = false) :
    ∀ b ∈ g, b.groupName ≠ cfg.groupNames (calls t).group := by
  intro b hb hg
  obtain ⟨i,hst,hgi⟩ := hi.waited b hb (hw b hb hg)
  cases hi.sole (t := t) (by rw [hx]; rfl) (by rw [hst]; rfl) (hgi.symm.trans hg)
  cases hx.symm.trans hst

theorem Building.step {s : System} (hi : Building closed cfg calls n w g st) (hbuilding : closed "Building" = false)
    (hready : closed "Ready" = true) (hm : DiskMove cfg (calls t).group (st t) o.cmd r p)
    (hw : Awaits g (.task t o r h)) (ha : act (fun _ => n) t o w r h = some w') :
    Building closed cfg calls n w' (inFlight closed s (.task t o r h) g) (upd st t p) where
  locked := hi.locks hm ha
  waited b hb hab := by
    rcases List.mem_append.mp hb with hold | hnew
    · obtain ⟨b,hin,rfl⟩ := List.mem_map.mp hold
      obtain ⟨hab,hkept⟩ := after_waited hab
      obtain ⟨i,hx,hg⟩ := hi.waited b hin hab
      have hit : i ≠ t := by
        rintro rfl
        exact hkept (hi.stands hready hin hx hm ha)
      exact ⟨i,by rw [upd_other _ _ hit,after_id,hx],by rw [after_group,hg]⟩
    · obtain ⟨-,hg,hp⟩ := disk_starts hm (Option.mem_toList.mp hnew)
      exact ⟨t,(upd_same _ _ _).trans (hp hab),hg⟩
  scanned i hst b hb hg := by
    rcases upd_eq hst with ⟨rfl,rfl⟩ | ⟨hit,hst⟩
    · obtain ⟨hx,⟨timed,rfl⟩,hnone⟩ := disk_scans hm rfl ha
      simp only [inFlight,hnone,Option.toList_none,List.append_nil] at hb
      obtain ⟨b,hin,rfl⟩ := List.mem_map.mp hb
      exact hi.looks hx hw b hin ((after_group _ b).symm.trans hg)
    · rcases List.mem_append.mp hb with hold | hnew
      · obtain ⟨b,hin,rfl⟩ := List.mem_map.mp hold
        exact hi.scanned i hst b hin ((after_group _ b).symm.trans hg)
      · obtain ⟨hx,hgt,-⟩ := disk_starts hm (Option.mem_toList.mp hnew)
        exact hit (hi.sole (by rw [hx]; rfl) (by rw [hst]; rfl) (hg.symm.trans hgt))
  unfinished b hb i him hib := by
    rcases images_act ha him with him | hs
    · rcases List.mem_append.mp hb with hold | hnew
      · obtain ⟨b,hin,rfl⟩ := List.mem_map.mp hold
        exact hi.unfinished b hin i him (hib.trans (after_id _ b))
      · exact absurd hib (started_fresh ha (Option.mem_toList.mp hnew) i him)
    · exact hs ▸ hbuilding

theorem Building.env {s : System} {e : Env} (hi : Building closed cfg calls n w g st) (he : env e w = some w') :
    Building closed cfg calls n w' (inFlight closed s (.env e) g) st := by
  have hless : ∀ b ∈ inFlight closed s (.env e) g, b ∈ g := by
    intro b hb
    cases e with
    | imageState id state =>
      simp only [inFlight] at hb
      split at hb
      · exact List.mem_of_mem_filter hb
      · exact hb
    | _ => exact hb
  refine ⟨fun t hin => env_locks he ▸ hi.locked t hin,fun b hb => hi.waited b (hless b hb),
    fun t hst b hb => hi.scanned t hst b (hless b hb),fun b hb i him hib => ?_⟩
  cases env_shifts he with
  | imageState id state =>
    obtain ⟨j,hj,rfl⟩ := List.mem_map.mp him
    by_cases hid : j.id = id
    · rw [if_pos hid] at hib ⊢
      cases hstate : closed state with
      | false => rfl
      | true =>
        simp only [inFlight,hstate,if_true] at hb
        have hne : b.id ≠ id := by simpa using (List.mem_filter.mp hb).2
        exact absurd (hib.symm.trans hid) hne
    · rw [if_neg hid] at hib ⊢
      exact hi.unfinished b (hless b hb) j hj hib
  | _ => exact hi.unfinished b (hless b hb) i him hib

variable {images : List Image} {now : Nat} {s : System}

theorem building_run (hbuilding : closed "Building" = false) (hready : closed "Ready" = true)
    (hr : (machine (fun _ => n)).Run (fun _ g l => Awaits g l) (inFlight closed)
      (startOn images (fun _ => cfg) calls now) [] s g) : ∃ st, Building closed cfg calls n s.world g st ∧
      ∀ t, Follows (DiskSteps cfg (calls t).group) (st t) (s.pool t) (fun st _ => Outside st) := by
  refine hr.tracked (I := fun w g st => Building closed cfg calls n w g st) (fun _ => DiskStage.away)
    (startOn_follows images (fun _ => cfg) calls now) ⟨?_,?_,?_,?_⟩ ?_ ?_
  · intro t hin
    cases hin
  · intro b hb
    cases hb
  · intro t hst
    cases hst
  · intro b hb
    cases hb
  · exact fun s g st t o r h w p hi _ hw hm ha => hi.step hbuilding hready hm hw ha
  · exact fun s g st e w hi _ he => hi.env he

-- While a build is in flight for a group, no call is about to start another one for it.
theorem one_build (closed : String → Bool) (hbuilding : closed "Building" = false) (hready : closed "Ready" = true)
    (hr : (machine (fun _ => n)).Run (fun _ g l => Awaits g l) (inFlight closed)
      (startOn images (fun _ => cfg) calls now) [] s g)
    {groupName src : String} {timed : Bool} (hn : (s.pool t).next = some ⟨.beginCreateDiskImage groupName src,timed⟩) :
    ∀ b ∈ g, b.groupName ≠ groupName := by
  obtain ⟨st,hi,hst⟩ := building_run hbuilding hready hr
  obtain ⟨p,hm⟩ := (hst t).next hn (.error .cancelled)
  have hmissing : st t = .missing ∧ groupName = cfg.groupNames (calls t).group := by
    generalize st t = x at hm
    cases hm with
    | aside _ _ _ _ hc => cases hc
    | beginFailed e => exact ⟨rfl,rfl⟩
  rw [hmissing.2]
  exact hi.scanned t hmissing.1

end Builds

section Retries

def builtImage : String := "mcp-sandbox:v1"

-- The last call is for the other group.
def buildCalls : Nat → SessionCtx
  | 2 => sampleCtx "s1" .diagnose
  | _ => sampleCtx "s1" .action

def ended (state : String) : Bool := state = "Ready" || state = "Succeeded" || state = "Failed"

def abandons (t : Nat) (ctx : SessionCtx) (id : String) (e : Exc) : List Step :=
  let g := sampleConfig.groupNames ctx.group
  [.task t ⟨.pollDiskImage g id,true⟩ (.error e) ⟨true,""⟩,answers t (.release (diskLock g)) () true,
    answers t (.release (routingKey ctx)) ()]

def awaits (g : List Build) : Step → Bool
  | .task _ ⟨.listDiskImages m,_⟩ _ _ => g.all (fun b => b.groupName != m || !b.abandoned)
  | _ => true

theorem awaits_sound (g : List Build) (l : Step) (hl : awaits g l = true) : Awaits g l := by
  unfold Awaits
  split
  · intro b hb hg
    simpa [hg] using List.all_eq_true.mp hl b hb
  · trivial

-- The timer of the first call cuts its wait, but its build has failed before the retry looks for
-- an image; that of the other group goes on.
theorem one_build_retried : ∃ s g, (machine (fun _ => 0)).Run (fun _ g l => Awaits g l) (inFlight ended)
      (startOn [] (fun _ => imageConfig builtImage) buildCalls 0) [] s g ∧
    (s.pool 1).next = some ⟨.beginCreateDiskImage "sg-action" builtImage,true⟩ ∧
    g = [⟨"img2","sg-diagnose",false⟩] ∧ ∀ b ∈ g, b.groupName ≠ "sg-action" := by
  obtain ⟨s,g,hr,hn⟩ : ∃ s g, (machine (fun _ => 0)).Run (fun _ g l => Awaits g l) (inFlight ended)
      (startOn [] (fun _ => imageConfig builtImage) buildCalls 0) [] s g ∧ ((s.pool 1).next,g) =
        (some ⟨.beginCreateDiskImage "sg-action" builtImage,true⟩,[⟨"img2","sg-diagnose",false⟩]) :=
    Machine.replay_reaches (fun _ g l => awaits g l)
      (scanning 0 (buildCalls 0) [] ++ beginning 0 (buildCalls 0) builtImage "img1" ++
        scanning 2 (buildCalls 2) [] ++ beginning 2 (buildCalls 2) builtImage "img2" ++
        abandons 0 (buildCalls 0) "img1" .deadline ++ [.env (.imageState "img1" "Failed")] ++
        scanning 1 (buildCalls 1) [⟨"img1",some "Failed"⟩])
      (fun _ g l hl => awaits_sound g l hl) (by decide +kernel)
  obtain ⟨hnext,hg⟩ := Prod.mk.inj hn
  exact ⟨s,g,hr,hnext,hg,one_build ended rfl rfl hr hnext⟩

-- The timer of the first call cuts its wait; the retry finds the image still building and starts another.
theorem build_repeated : ∃ s g, (machine (fun _ => 0)).Run (fun _ _ _ => True) (inFlight ended)
      (startOn [] (fun _ => imageConfig builtImage) buildCalls 0) [] s g ∧
    (s.pool 0).outcome = some (.error .timeout) ∧
    (s.pool 1).next = some ⟨.beginCreateDiskImage "sg-action" builtImage,true⟩ ∧
    ∃ b ∈ g, b.groupName = "sg-action" := by
  obtain ⟨s,g,hr,hn⟩ : ∃ s g, (machine (fun _ => 0)).Run (fun _ _ _ => True) (inFlight ended)
      (startOn [] (fun _ => imageConfig builtImage) buildCalls 0) [] s g ∧
      ((s.pool 0).outcome,(s.pool 1).next,g) = (some (.error .timeout),
        some ⟨.beginCreateDiskImage "sg-action" builtImage,true⟩,[⟨"img1","sg-action",true⟩]) :=
    Machine.replay_reaches (fun _ _ _ => true)
      (scanning 0 (buildCalls 0) [] ++ beginning 0 (buildCalls 0) builtImage "img1" ++
        abandons 0 (buildCalls 0) "img1" .deadline ++ scanning 1 (buildCalls 1) [⟨"img1",some "Building"⟩])
      (fun _ _ _ _ => trivial) (by decide +kernel)
  obtain ⟨hout,hrest⟩ := Prod.mk.inj hn
  obtain ⟨hnext,hg⟩ := Prod.mk.inj hrest
  exact ⟨s,g,hr,hout,hnext,_,by rw [hg]; exact List.mem_singleton.mpr rfl,rfl⟩

end Retries

end IdentityAwareMcp
