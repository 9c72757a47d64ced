import IdentityAwareMcp.Control.Disk
import IdentityAwareMcp.Safety.Isolation

namespace IdentityAwareMcp

open Coop SandboxManager

section Provenance

def BuiltFrom (w : World) (groupName image id : String) : Prop :=
  ∃ i ∈ w.images, i.id = id ∧ i.groupName = groupName ∧ i.source = image

variable {rep : Nat → Nat} {t : Nat} {w w' : World} {h : Hint} {g image id : String}

theorem BuiltFrom.begins (hb : BuiltFrom w g image id) (id' g' src : String) :
    BuiltFrom (w.begins id' g' src) g image id := by
  obtain ⟨i,hi,hb⟩ := hb
  exact ⟨i,List.mem_append_left _ hi,hb⟩

theorem begins_built : BuiltFrom (w.begins id g image) g image id :=
  ⟨⟨id,g,image,"Building"⟩,List.mem_append_right _ List.mem_cons_self,rfl,rfl,rfl⟩

theorem BuiltFrom.acted {o : Op} {r : Except Exc o.Ans} (hb : BuiltFrom w g image id)
    (ha : act rep t o w r h = some w') : BuiltFrom w' g image id := by
  obtain ⟨c,timed⟩ := o
  by_cases hc : ∃ g src, c = .beginCreateDiskImage g src
  · obtain ⟨g',src,rfl⟩ := hc
    rcases act_beginImage ha with ⟨i,rfl,-⟩ | ⟨rfl,-⟩
    · exact hb.begins i g' src
    · exact hb
  · obtain ⟨i,hi,hb⟩ := hb
    exact ⟨i,act_images ha (fun g src he => hc ⟨g,src,he⟩) ▸ hi,hb⟩

theorem BuiltFrom.shifted {e : Env} (hb : BuiltFrom w g image id) (he : env e w = some w') : BuiltFrom w' g image id := by
  obtain ⟨i,hi,hid,hg,hs⟩ := hb
  cases env_shifts he with
  | imageState id' state =>
    refine ⟨_,List.mem_map_of_mem hi,?_⟩
    split
    · exact ⟨hid,hg,hs⟩
    · exact ⟨hid,hg,hs⟩
  | _ => exact ⟨i,hi,hid,hg,hs⟩

-- The image that a scan of the group comes to first.
def firstUsable (w : World) (groupName : String) : Option Image :=
  (w.images.filter (fun i => i.groupName = groupName)).find? (fun i => usable ⟨i.id,some i.state⟩)

theorem scan_first {b : Bool} {l : List DiskImage} {img : DiskImage}
    (ha : act rep t ⟨.listDiskImages g,b⟩ w (.ok l) h = some w') (hf : l.find? usable = some img) :
    ∃ i, firstUsable w g = some i ∧ i ∈ w.images ∧ i.id = img.id ∧ i.groupName = g := by
  simp only [act] at ha
  split at ha
  · rename_i hl
    rw [hl,List.find?_map] at hf
    obtain ⟨i,hi,rfl⟩ := Option.map_eq_some_iff.mp hf
    have hm := List.mem_filter.mp (List.mem_of_find?_eq_some hi)
    exact ⟨i,hi,hm.1,rfl,by simpa using hm.2⟩
  · cases ha

variable (deploys : Nat → Config) (calls : Nat → SessionCtx)

-- The disk a stage of a choice stands for.
def DiskStage.disk : DiskStage → Option String
  | .building id => some id
  | .picked id => some id
  | .leaving res => res
  | .chosen id => some id
  | _ => none

structure Provenance (rep : Nat → Nat) (w : World) (st : Nat → DiskStage) : Prop where
  memo : ∀ r g id, w.builtDisks r g = some id → BuiltFrom w g (orElse (deploys r).diskImage "") id
  known : ∀ t id, (st t).disk = some id →
    BuiltFrom w ((deploys (rep t)).groupNames (calls t).group) (orElse (deploys (rep t)).diskImage "") id

-- Where a process lists the images of a group, the first usable one is of its own image.
def ListsOwn (rep : Nat → Nat) (s : System) : Step → Prop
  | .task t ⟨.listDiskImages g,_⟩ (.ok _) _ => ∀ i, firstUsable s.world g = some i → i.source = orElse (deploys (rep t)).diskImage ""
  | _ => True

variable {deploys calls} {st : Nat → DiskStage} {p : DiskStage} {o : Op} {r : Except Exc o.Ans} {s : System}

theorem memo_read {b : Bool} {v : Option String} (ha : act rep t ⟨.builtDiskGet g,b⟩ w (.ok v) h = some w') :
    w.builtDisks (rep t) g = v := by
  simp only [act] at ha
  split at ha
  · rename_i hv
    exact hv.symm
  · cases ha

theorem disk_source (hi : Provenance deploys calls rep s.world st)
    (hm : DiskMove (deploys (rep t)) (calls t).group (st t) o.cmd r p) (hl : ListsOwn deploys rep s (.task t o r h))
    (ha : act rep t o s.world r h = some w) (hd : p.disk = some id) :
    BuiltFrom w ((deploys (rep t)).groupNames (calls t).group) (orElse (deploys (rep t)).diskImage "") id := by
  have hold : ∀ id, (st t).disk = some id → BuiltFrom w ((deploys (rep t)).groupNames (calls t).group)
      (orElse (deploys (rep t)).diskImage "") id := fun id h => (hi.known t id h).acted ha
  obtain ⟨c,timed⟩ := o
  generalize hst : st t = x at hm hold
  cases hm with
  | aside | created | barred => exact hold id hd
  | remembered v id' hv =>
    cases hd
    subst hv
    exact (hi.memo _ _ _ (memo_read ha)).acted ha
  | reusable l img hf =>
    cases hd
    obtain ⟨i,hfirst,hmem,hid,hg⟩ := scan_first ha hf
    exact BuiltFrom.acted ⟨i,hmem,hid,hg,hl i hfirst⟩ ha
  | begun id' =>
    cases hd
    rcases act_beginImage ha with ⟨i,rfl,-,hres⟩ | ⟨-,e,he,-⟩
    · rcases hres with hres | ⟨e,he,-⟩
      · cases hres
        exact begins_built
      · cases he
    · cases he
  | built | kept => exact hold id hd
  | unkept id' e _ hn => rcases hn with rfl | rfl <;> cases hd
  | left res u => cases res with
    | some id' => exact hold id hd
    | none => cases hd
  | _ => cases hd

theorem Provenance.step (hi : Provenance deploys calls rep s.world st)
    (hm : DiskMove (deploys (rep t)) (calls t).group (st t) o.cmd r p) (hl : ListsOwn deploys rep s (.task t o r h))
    (ha : act rep t o s.world r h = some w) : Provenance deploys calls rep w (upd st t p) where
  memo i g id hb := by
    rcases act_builtDisks ha hb with hb | ⟨rfl,ho⟩
    · exact (hi.memo i g id hb).acted ha
    · obtain ⟨c,timed⟩ := o
      cases ho
      generalize hst : st t = x at hm
      have hpicked : (st t).disk = some id ∧ g = (deploys (rep t)).groupNames (calls t).group := by
        cases hm with
        | aside _ _ _ _ hc => cases hc
        | kept | unkept => exact ⟨congrArg DiskStage.disk hst,rfl⟩
      exact hpicked.2 ▸ (hi.known t id hpicked.1).acted ha
  known i id hd := by
    by_cases hit : i = t
    · subst hit
      rw [upd_same] at hd
      exact disk_source hi hm hl ha hd
    · rw [upd_other _ _ hit] at hd
      exact (hi.known i id hd).acted ha

theorem Provenance.env {e : Env} (hi : Provenance deploys calls rep w st) (he : env e w = some w') :
    Provenance deploys calls rep w' st where
  memo i g id hb := (hi.memo i g id (env_builtDisks he ▸ hb)).shifted he
  known i id hd := (hi.known i id hd).shifted he

variable {images : List Image} {now : Nat} {g : Unit}

theorem provenance_run (hr : (machine rep).Run (fun s _ l => ListsOwn deploys rep s l) (fun _ _ g => g)
      (startOn images (fun t => deploys (rep t)) calls now) () s g) :
    ∃ st, Provenance deploys calls rep s.world st ∧
      ∀ t, Follows (DiskSteps (deploys (rep t)) (calls t).group) (st t) (s.pool t) (fun st _ => Outside st) := by
  refine hr.tracked (I := fun w _ st => Provenance deploys calls rep w st) (fun _ => DiskStage.away)
    (startOn_follows images (fun t => deploys (rep t)) calls now) ⟨?_,?_⟩ ?_ ?_
  · intro i g id hb
    cases hb
  · intro i id hd
    cases hd
  · exact fun s g st t o r h w p hi _ hl hm ha => hi.step hm hl ha
  · exact fun s g st e w hi _ he => hi.env he

-- Whatever processes ran before and whatever images they or others left: a sandbox that is about to be
-- created boots from an image of the process's own configuration.
theorem boots_configured (deploys : Nat → Config) (calls : Nat → SessionCtx)
    (hid : ∀ i, orElse (deploys i).diskId "" = "")
    (hr : (machine rep).Run (fun s _ l => ListsOwn deploys rep s l) (fun _ _ g => g)
      (startOn images (fun t => deploys (rep t)) calls now) () s g)
    {spec : Spec} {b : Bool} {groupName : String} (hn : (s.pool t).next = some ⟨.beginCreate groupName spec,b⟩)
    {id : String} (hd : spec.disk = .diskId id) :
    BuiltFrom s.world groupName (orElse (deploys (rep t)).diskImage "") id := by
  obtain ⟨st,hi,hst⟩ := provenance_run hr
  obtain ⟨st',hm⟩ := (hst t).next hn (.error .cancelled)
  generalize hx : st t = x at hm
  cases hm with
  | aside _ _ _ _ hc => cases hc
  | created _ _ _ _ hdisk => exact hi.known t id (by rw [hx,hdisk id (hid _) hd]; rfl)

end Provenance

section Restarts

def imageConfig (image : String) : Config := { sampleConfig with diskId := none, diskImage := some image }

-- The first process, and those that replace it.
def imageDeploys : Nat → Config
  | 0 => imageConfig "mcp-sandbox:v1"
  | _ => imageConfig "mcp-sandbox:v2"

def imageCall : SessionCtx := sampleCtx "s1" .action

-- A call that misses its session and the memo of disks, up to its look at the images of the group.
def scanning (t : Nat) (ctx : SessionCtx) (l : List DiskImage) : List Step :=
  let g := sampleConfig.groupNames ctx.group
  [answers t (.acquire (routingKey ctx)) (),answers t (.get (ctxKey sampleConfig ctx)) none,
    answers t (.acquire (diskLock g)) () true,answers t (.builtDiskGet g) none true,answers t (.listDiskImages g) l true]

def keeping (t : Nat) (ctx : SessionCtx) (id : String) : List Step :=
  let g := sampleConfig.groupNames ctx.group
  [answers t (.builtDiskPut g id) () true,answers t (.release (diskLock g)) () true]

def beginning (t : Nat) (ctx : SessionCtx) (image id : String) : List Step :=
  [answers t (.beginCreateDiskImage (sampleConfig.groupNames ctx.group) image) id true]

def building (t : Nat) (ctx : SessionCtx) (image id : String) : List Step :=
  beginning t ctx image id ++ [.env (.imageState id "Ready"),
    answers t (.pollDiskImage (sampleConfig.groupNames ctx.group) id) () true] ++ keeping t ctx id

def bootSpec (id : String) : Spec := { sampleSpec sampleConfig imageCall with disk := .diskId id }

def listsOwn (deploys : Nat → Config) (s : System) : Step → Bool
  | .task t ⟨.listDiskImages g,_⟩ (.ok _) _ =>
    (firstUsable s.world g).all (fun i => decide (i.source = orElse (deploys t).diskImage ""))
  | _ => true

theorem listsOwn_sound {deploys : Nat → Config} (s : System) (l : Step) (hl : listsOwn deploys s l = true) :
    ListsOwn deploys id s l := by
  unfold ListsOwn
  split
  · intro i hi
    simpa [listsOwn,hi] using hl
  · trivial

-- The image of the first process is gone by the time the second one looks.
theorem boots_configured_rebuilt : ∃ s g, (machine id).Run (fun s _ l => ListsOwn imageDeploys id s l) (fun _ _ g => g)
      (startOn [] imageDeploys (fun _ => imageCall) 0) () s g ∧
    (s.pool 1).next = some ⟨.beginCreate "sg-action" (bootSpec "img2"),true⟩ ∧
    BuiltFrom s.world "sg-action" "mcp-sandbox:v2" "img2" := by
  obtain ⟨s,g,hr,hn⟩ : ∃ s g, (machine id).Run (fun s _ l => ListsOwn imageDeploys id s l) (fun _ _ g => g)
      (startOn [] imageDeploys (fun _ => imageCall) 0) () s g ∧
      (s.pool 1).next = some ⟨.beginCreate "sg-action" (bootSpec "img2"),true⟩ :=
    Machine.replay_reaches (fun s _ l => listsOwn imageDeploys s l)
      (scanning 0 imageCall [] ++ building 0 imageCall "mcp-sandbox:v1" "img1" ++
        [.env (.imageState "img1" "Deleted")] ++ scanning 1 imageCall [⟨"img1",some "Deleted"⟩] ++
        building 1 imageCall "mcp-sandbox:v2" "img2")
      (fun s _ l hl => listsOwn_sound s l hl) (by decide +kernel)
  have hid : ∀ i, orElse (imageDeploys i).diskId "" = "" := by
    intro i
    cases i <;> rfl
  exact ⟨s,g,hr,hn,boots_configured imageDeploys (fun _ => imageCall) hid hr hn rfl⟩

theorem boots_stale : ∃ s g, (machine id).Run (fun _ _ _ => True) (fun _ _ g => g)
      (startOn [] imageDeploys (fun _ => imageCall) 0) () s g ∧
    (s.pool 1).next = some ⟨.beginCreate "sg-action" (bootSpec "img1"),true⟩ ∧
    ¬ BuiltFrom s.world "sg-action" (orElse (imageDeploys 1).diskImage "") "img1" := by
  obtain ⟨s,g,hr,hn⟩ : ∃ s g, (machine id).Run (fun _ _ _ => True) (fun _ _ g => g)
      (startOn [] imageDeploys (fun _ => imageCall) 0) () s g ∧ ((s.pool 1).next,s.world.images) =
        (some ⟨.beginCreate "sg-action" (bootSpec "img1"),true⟩,
          [⟨"img1","sg-action","mcp-sandbox:v1","Ready"⟩]) :=
    Machine.replay_reaches (fun _ _ _ => true)
      (scanning 0 imageCall [] ++ building 0 imageCall "mcp-sandbox:v1" "img1" ++
        scanning 1 imageCall [⟨"img1",some "Ready"⟩] ++ keeping 1 imageCall "img1")
      (fun _ _ _ _ => trivial) (by decide +kernel)
  obtain ⟨hnext,himages⟩ := Prod.mk.inj hn
  refine ⟨s,g,hr,hnext,?_⟩
  rintro ⟨i,hi,-,-,hs⟩
  rw [himages,List.mem_singleton] at hi
  rw [hi] at hs
  revert hs
  decide

end Restarts

end IdentityAwareMcp
