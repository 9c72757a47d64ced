import IdentityAwareMcp.Control.Keys
import IdentityAwareMcp.Control.Walk

namespace IdentityAwareMcp

open Coop SandboxManager

def diskLock (groupName : String) : String := "diskimage:" ++ groupName

-- The choice of a disk inside a call, each stage named after what is known so far.
inductive DiskStage where
  | away
  | entered
  | unknown
  | missing
  | building (id : String)
  | picked (id : String)
  | leaving (res : Option String)
  | chosen (id : String)

def DiskStage.inside : DiskStage → Bool
  | .away => false
  | .chosen _ => false
  | _ => true

def DiskStage.out : Option String → DiskStage
  | some id => .chosen id
  | none => .away

-- The commands that have no part in the choice of a disk.
def Cmd.aside : Cmd → Prop
  | .acquire k => ∀ n, k ≠ diskLock n
  | .release k => ∀ n, k ≠ diskLock n
  | .builtDiskGet _ => False
  | .builtDiskPut _ _ => False
  | .listDiskImages _ => False
  | .beginCreateDiskImage _ _ => False
  | .pollDiskImage _ _ => False
  | .beginCreate _ _ => False
  | _ => True

variable (cfg : Config) (group : Group)

inductive DiskMove : DiskStage → (c : Cmd) → Except Exc c.Ans → DiskStage → Prop
  | aside (st : DiskStage) (c : Cmd) (r : Except Exc c.Ans) : st.inside = false → c.aside → DiskMove st c r st
  | created (st : DiskStage) (spec : Spec) (r : Except Exc Client) : st.inside = false →
      (∀ id, orElse cfg.diskId "" = "" → spec.disk = .diskId id → st = .chosen id) →
      DiskMove st (.beginCreate (cfg.groupNames group) spec) r st
  | entered (st : DiskStage) (u : Unit) : st.inside = false →
      DiskMove st (.acquire (diskLock (cfg.groupNames group))) (.ok u) .entered
  | barred (st : DiskStage) (e : Exc) : st.inside = false →
      DiskMove st (.acquire (diskLock (cfg.groupNames group))) (.error e) st
  | remembered (v : Option String) (id : String) : v = some id →
      DiskMove .entered (.builtDiskGet (cfg.groupNames group)) (.ok v) (.leaving (some id))
  | forgotten (v : Option String) : DiskMove .entered (.builtDiskGet (cfg.groupNames group)) (.ok v) .unknown
  | memoFailed (e : Exc) : DiskMove .entered (.builtDiskGet (cfg.groupNames group)) (.error e) (.leaving none)
  | reusable (l : List DiskImage) (img : DiskImage) : l.find? usable = some img →
      DiskMove .unknown (.listDiskImages (cfg.groupNames group)) (.ok l) (.picked img.id)
  | unusable (l : List DiskImage) : l.find? usable = none →
      DiskMove .unknown (.listDiskImages (cfg.groupNames group)) (.ok l) .missing
  | listFailed (e : Exc) : e.isException = true →
      DiskMove .unknown (.listDiskImages (cfg.groupNames group)) (.error e) .missing
  | listCut (e : Exc) : e.isException = false →
      DiskMove .unknown (.listDiskImages (cfg.groupNames group)) (.error e) (.leaving none)
  | begun (id : String) : DiskMove .missing
      (.beginCreateDiskImage (cfg.groupNames group) (orElse cfg.diskImage "")) (.ok id) (.building id)
  | beginFailed (e : Exc) : DiskMove .missing
      (.beginCreateDiskImage (cfg.groupNames group) (orElse cfg.diskImage "")) (.error e) (.leaving none)
  | built (id : String) (u : Unit) :
      DiskMove (.building id) (.pollDiskImage (cfg.groupNames group) id) (.ok u) (.picked id)
  | unbuilt (id : String) (e : Exc) :
      DiskMove (.building id) (.pollDiskImage (cfg.groupNames group) id) (.error e) (.leaving none)
  | kept (id : String) (u : Unit) :
      DiskMove (.picked id) (.builtDiskPut (cfg.groupNames group) id) (.ok u) (.leaving (some id))
  | unkept (id : String) (e : Exc) (st : DiskStage) : st = .missing ∨ st = .leaving none →
      DiskMove (.picked id) (.builtDiskPut (cfg.groupNames group) id) (.error e) st
  | left (res : Option String) (u : Unit) :
      DiskMove (.leaving res) (.release (diskLock (cfg.groupNames group))) (.ok u) (.out res)
  | leftFailed (res : Option String) (e : Exc) :
      DiskMove (.leaving res) (.release (diskLock (cfg.groupNames group))) (.error e) .away

abbrev DiskSteps : DiskStage → (o : Op) → Except Exc o.Ans → DiskStage → Prop :=
  fun st o r st' => DiskMove cfg group st o.cmd r st'

abbrev Outside (st : DiskStage) : Prop := st.inside = false

section Elsewhere

variable {cfg group} {α : Type}

theorem routing_aside (ctx : SessionCtx) (n : String) : routingKey ctx ≠ diskLock n :=
  routingKey_ne (p := "diskimage") (by decide) (by decide) (by decide)

theorem volume_aside (x n : String) : "volume:" ++ x ≠ diskLock n := by
  intro h
  have hc := congrArg (fun s => s.toList.head?) h
  simp [diskLock] at hc

variable {P : DiskStage → Prop}

theorem confined_waitFor {p : M α} (hp : Confined (DiskSteps cfg group) P p) :
    Confined (DiskSteps cfg group) P (waitFor p) :=
  fun st h => follows_waitFor (hp st h) (fun _ _ h => h) (fun _ _ h => h)

-- All these keep the stage, so they keep whatever is known of it.
variable (hP : ∀ st, P st → Outside st)
include hP

theorem confined_aside {c : Cmd} (hc : c.aside) : Confined (DiskSteps cfg group) P (perform c) :=
  .perform (fun st r h => ⟨st,.aside st c r (hP st h) hc,h⟩)

theorem confined_everyday (c : Cmd) (hc : c.everyday) : Confined (DiskSteps cfg group) P (perform c) := by
  refine confined_aside hP ?_
  cases c <;> trivial

theorem confined_subscription (oid : Option Guid) :
    Confined (DiskSteps cfg group) P (userSubscription cfg oid) := by
  unfold userSubscription
  cases oid with
  | none => exact .ret _
  | some g =>
    refine Confined.bind (confined_everyday hP (.get _) trivial) (fun v => ?_)
    split
    · split <;> exact .ret _
    · exact .ret _

theorem confined_volumes : Confined (DiskSteps cfg group) P (workspaceVolumes cfg group) := by
  unfold workspaceVolumes
  cases cfg.blobContainerResourceId with
  | none => exact .ret none
  | some container =>
    refine Confined.bind ?_ (fun _ => .ret _)
    refine Confined.bind (confined_aside hP (by trivial)) (fun seen => ?_)
    split
    · exact .ret ()
    · refine walk_withLock (confined_compositional _ P) (confined_aside hP (volume_aside _)) (confined_aside hP (volume_aside _)) ?_
      refine Confined.bind (confined_aside hP (by trivial)) (fun seen => ?_)
      split
      · exact .ret ()
      · refine ((confined_aside hP (by trivial)).handle (fun e => ?_)).bind (fun _ => confined_aside hP (by trivial))
        split
        · exact .ret ()
        · exact .raise e

end Elsewhere

section Choice

def AtLeaving {α : Type} (f : α → Option String) : DiskStage → Except Exc α → Prop
  | st, .ok a => st = .leaving (f a)
  | st, .error _ => st = .leaving none

-- A scan leaves the memo filled, or a build to be started.
def Scanned : DiskStage → Except Exc (Option String) → Prop
  | st, .ok (some id) => st = .leaving (some id)
  | st, .ok none => st = .missing
  | st, .error _ => st = .leaving none

def Scanning : DiskStage → Except Exc (Option String) → Prop
  | st, .ok (some id) => st = .leaving (some id)
  | st, .ok none => st = .missing
  | st, .error e => if e.isException then st = .missing else st = .leaving none

theorem scan_follows : Follows (DiskSteps cfg group) .unknown (reuseDiskImage (cfg.groupNames group)) Scanning := by
  refine follows_call (fun l => ?_) (fun e => ?_)
  · cases hf : List.find? usable l with
    | none =>
      exact ⟨_,.unusable l hf,rfl⟩
    | some img =>
      refine ⟨_,.reusable l img hf,follows_call (fun u => ⟨_,.kept img.id u,rfl⟩) (fun e => ?_)⟩
      cases he : e.isException with
      | true => exact ⟨_,.unkept img.id e _ (.inl rfl),by simp [Scanning,he]⟩
      | false => exact ⟨_,.unkept img.id e _ (.inr rfl),by simp [Scanning,he]⟩
  · cases he : e.isException with
    | true => exact ⟨_,.listFailed e he,by simp [Scanning,he]⟩
    | false => exact ⟨_,.listCut e he,by simp [Scanning,he]⟩

theorem reuse_disk_follows : Follows (DiskSteps cfg group) .unknown
    (exceptException (reuseDiskImage (cfg.groupNames group)) (fun _ => return none)) Scanned := by
  refine follows_except (scan_follows cfg group) (fun st found h => ?_) (fun st e he h => ?_) (fun st e he h => ?_)
  · cases found <;> exact h
  · simp only [Scanning,he,if_true] at h
    exact h
  · simp only [Scanning,he,Bool.false_eq_true,if_false] at h
    exact h

theorem build_follows : Follows (DiskSteps cfg group) .missing (do
      let id ← perform (.beginCreateDiskImage (cfg.groupNames group) (orElse cfg.diskImage ""))
      perform (.pollDiskImage (cfg.groupNames group) id)
      perform (.builtDiskPut (cfg.groupNames group) id)
      return id) (AtLeaving some) :=
  follows_call (fun id => ⟨_,.begun id,
    follows_call (fun u => ⟨_,.built id u,
      follows_call (fun u => ⟨_,.kept id u,rfl⟩) (fun e => ⟨_,.unkept id e _ (.inr rfl),rfl⟩)⟩)
    (fun e => ⟨_,.unbuilt id e,rfl⟩)⟩) (fun e => ⟨_,.beginFailed e,rfl⟩)

theorem orElse_blank (s : String) : orElse (some s) "" = s := by
  unfold orElse
  split <;> simp_all

-- Where a choice of a disk ends: with the lock released, and its id chosen.
def Chosen : DiskStage → Except Exc String → Prop
  | st, .ok id => st = .chosen id
  | st, .error _ => Outside st

theorem ensure_disk_follows {st : DiskStage} (hst : Outside st) : Follows (DiskSteps cfg group) st
    (ensureDiskImage cfg group (orElse cfg.diskImage "")) Chosen := by
  refine follows_withLock (Q := AtLeaving some) (fun e => ⟨st,.barred st e hst,hst⟩)
    (fun u => ⟨_,.entered st u hst,follows_call (fun v => ?_) (fun e => ⟨_,.memoFailed e,rfl⟩)⟩) (fun st r h u => ?_)
  · split
    · refine ⟨_,.forgotten v,(reuse_disk_follows cfg group).bind (fun st found h => ?_) (fun st e h => h)⟩
      cases found with
      | some id => exact h
      | none =>
        cases h
        exact build_follows cfg group
    · rename_i hv
      cases v with
      | none => exact (hv rfl).elim
      | some id => exact ⟨_,.remembered _ id rfl,congrArg (fun x => DiskStage.leaving (some x)) (orElse_blank id).symm⟩
  · cases r with
    | ok id =>
      cases h
      cases u with
      | ok u => exact ⟨_,.left (some id) u,rfl⟩
      | error e => exact ⟨_,.leftFailed (some id) e,rfl⟩
    | error e' =>
      cases h
      cases u with
      | ok u => exact ⟨_,.left none u,rfl⟩
      | error e => exact ⟨_,.leftFailed none e,rfl⟩

theorem resolve_disk_follows {st : DiskStage} (hst : Outside st) : Follows (DiskSteps cfg group) st
    (resolveDisk cfg group) (fun st r => Outside st ∧
      ∀ disk, r = .ok disk → ∀ id, orElse cfg.diskId "" = "" → disk = .diskId id → st = .chosen id) := by
  unfold resolveDisk
  split
  · rename_i hid
    refine ⟨hst,fun _ _ _ hn => absurd hn hid⟩
  · split
    · refine (ensure_disk_follows cfg group hst).bind (fun st id h => ?_) (fun st e h => ⟨h,by simp⟩)
      cases h
      refine ⟨rfl,fun disk hd id' _ he => ?_⟩
      cases hd
      cases he
      rfl
    · refine ⟨hst,fun disk hd id _ he => ?_⟩
      cases hd
      cases he

theorem creation_confined (ctx : SessionCtx) :
    Confined (DiskSteps cfg group) Outside (createSandbox cfg ctx group) := by
  refine fun st hst => (resolve_disk_follows cfg group hst).bind (fun st disk h => ?_) (fun st e h => h.1)
  have hP : ∀ st', st' = st → Outside st' := fun st' he => he ▸ h.1
  refine (confined_subscription hP ctx.userOid st rfl).bind (fun st' sub hs => ?_) (fun st' e hs => hP st' hs)
  subst hs
  refine (confined_volumes hP st' rfl).bind (fun st vol hs => ?_) (fun st e hs => hP st hs)
  subst hs
  refine follows_call (fun c => ⟨st,.created st _ _ h.1 (h.2 disk rfl),?_⟩)
    (fun e => ⟨st,.created st _ _ h.1 (h.2 disk rfl),h.1⟩)
  have hdone : Confined (DiskSteps cfg group) Outside (do
      perform (.pollCreate c)
      applyIdleAutodelete cfg c
      return c : M Client) :=
    (confined_aside (fun _ h => h) (by trivial)).bind (fun _ =>
      (walk_except (confined_compositional _ Outside) (confined_aside (fun _ h => h) (by trivial))
        (fun _ => .ret ())).bind (fun _ => .ret c))
  exact hdone st h.1

end Choice

theorem call_disk_follows (ctx : SessionCtx) : Confined (DiskSteps cfg ctx.group) Outside (getOrCreate cfg ctx) :=
  walk_getOrCreate (confined_compositional _ Outside) (confined_everyday (fun _ h => h)) ctx
    (confined_aside (fun _ h => h) (routing_aside ctx)) (confined_aside (fun _ h => h) (routing_aside ctx))
    (confined_waitFor (creation_confined cfg ctx.group ctx))

section Starting

-- Calls of any number of processes, each with its own configuration, on groups that hold images already.
def startOn (images : List Image) (cfgs : Nat → Config) (calls : Nat → SessionCtx) (now : Nat) : System :=
  ⟨{ World.empty now with images := images },fun t => (Job.getOrCreate (calls t)).task (cfgs t)⟩

theorem startOn_follows (images : List Image) (cfgs : Nat → Config) (calls : Nat → SessionCtx) (now t : Nat) :
    Follows (DiskSteps (cfgs t) (calls t).group) .away ((startOn images cfgs calls now).pool t)
      (fun st _ => Outside st) :=
  ((call_disk_follows (cfgs t) (calls t)).bind (fun _ => .ret _)) .away rfl

end Starting

end IdentityAwareMcp
