import IdentityAwareMcp.Coop.Pool
import IdentityAwareMcp.Model.Identity

namespace IdentityAwareMcp

-- CancelledError reaches a task from outside or, as `deadline`, from a wait_for around it.
-- Both are no subclass of Exception; everything below them is.
inductive Exc where
  | cancelled
  | deadline
  | timeout
  | redis
  | notOwned
  | notFound
  | http (status : Option Nat)
  | other
  | bootstrapFailed (rc : Int)
deriving DecidableEq, Repr

def Exc.isException : Exc → Bool
  | .cancelled => false
  | .deadline => false
  | _ => true

def Exc.isHttp : Exc → Bool
  | .notFound => true
  | .http _ => true
  | _ => false

def Exc.statusCode : Exc → Option Nat
  | .notFound => some 404
  | .http s => s
  | _ => none

inductive Value where
  | text (s : String)
  | flag (b : Bool)
  | binding (oid session : Option String) (group : String)
  | profile (subscriptionId : Option String)
  | names (l : List String)
  | token (n : Nat)
deriving DecidableEq

structure Entry where
  val : Value
  deadline : Option Nat
deriving DecidableEq

def Entry.live (now : Nat) (e : Entry) : Bool :=
  match e.deadline with
  | none => true
  | some d => decide (now < d)

structure Labels where
  user : String
  session : String
  group : String
deriving DecidableEq

structure Environment where
  spAppId : String
  azureTenantId : String
  azureSubscriptionId : String
deriving DecidableEq

inductive Disk where
  | diskId (id : String)
  | disk (name : String)
deriving DecidableEq

structure Spec where
  labels : Labels
  environment : Environment
  cpu : String
  memory : String
  autoSuspendSeconds : Nat
  volumes : Option String
  disk : Disk
deriving DecidableEq

structure Client where
  groupName : String
  sandboxId : String
deriving DecidableEq

structure RawResult where
  exitCode : Int
  stdout : Option Text
  stderr : Option Text
deriving DecidableEq

-- What _bootstrap takes for success: it also strips stdout, which must not be None.
def RawResult.boots (r : RawResult) : Bool := decide (r.exitCode = 0) && r.stdout.isSome

structure DiskImage where
  id : String
  state : Option String
deriving DecidableEq

-- The awaited commands, and the accesses to what the tasks of one replica share.
inductive Cmd where
  | clock
  | uuid
  | acquire (key : String)
  | release (key : String)
  | lockRedis (name : String) (ttl : Nat)
  | unlockRedis (name : String)
  | get (key : String)
  | set (key : String) (v : Value) (ex : Option Nat)
  | del (key : String)
  | setNx (key : String) (v : Value) (ex : Nat)
  | evalRelease (key : String) (v : Value)
  | builtDiskGet (groupName : String)
  | builtDiskPut (groupName id : String)
  | volumeSeen (groupName : String)
  | volumeAdd (groupName : String)
  | createVolume (groupName container : String)
  | listDiskImages (groupName : String)
  | beginCreateDiskImage (groupName image : String)
  | pollDiskImage (groupName id : String)
  | beginCreate (groupName : String) (spec : Spec)
  | pollCreate (c : Client)
  | setLifecyclePolicy (c : Client) (deleteInterval : Nat)
  | ensureRunning (c : Client)
  | exec (c : Client) (command : String)
  | listSandboxes (groupName : String)
  | beginDelete (c : Client)
deriving DecidableEq

abbrev Cmd.Ans : Cmd → Type
  | .clock => Nat
  | .uuid => Nat
  | .lockRedis _ _ => Bool
  | .get _ => Option Value
  | .setNx _ _ _ => Bool
  | .builtDiskGet _ => Option String
  | .volumeSeen _ => Bool
  | .listDiskImages _ => List DiskImage
  | .beginCreateDiskImage _ _ => String
  | .beginCreate _ _ => Client
  | .exec _ _ => RawResult
  | .listSandboxes _ => List String
  | _ => Unit

-- `timed`: the await lies inside a wait_for, whose timer may cancel it.
structure Op where
  cmd : Cmd
  timed : Bool := false
deriving DecidableEq

abbrev Op.Ans (o : Op) : Type := o.cmd.Ans

abbrev M (α : Type) := Coop.Task Op Op.Ans Exc α

def perform (c : Cmd) : M c.Ans := Coop.Task.perform (Op.mk c false)

structure Box where
  groupName : String
  spec : Spec
  creator : Nat
  ready : Bool
  policy : Bool
  bootstrapped : Bool
  deleting : Bool
  gone : Bool
deriving DecidableEq

structure Image where
  id : String
  groupName : String
  source : String
  state : String
deriving DecidableEq

structure World where
  now : Nat
  uuids : Nat
  redis : String → Option Entry
  made : List String
  boxes : String → Option Box
  images : List Image
  locks : Nat → String → Option Nat
  builtDisks : Nat → String → Option String
  volumes : Nat → String → Bool

namespace World

def lookup (w : World) (k : String) : Option Value :=
  match w.redis k with
  | some e => if e.live w.now then some e.val else none
  | none => none

def store (w : World) (k : String) (v : Value) (ex : Option Nat) : World :=
  { w with redis := Coop.upd w.redis k (some ⟨v,ex.map (fun s => w.now + s * 1000)⟩) }

def erase (w : World) (k : String) : World := { w with redis := Coop.upd w.redis k none }

def lock (w : World) (rep : Nat) (k : String) (h : Option Nat) : World :=
  { w with locks := Coop.upd w.locks rep (Coop.upd (w.locks rep) k h) }

def putBox (w : World) (id : String) (b : Box) : World := { w with boxes := Coop.upd w.boxes id (some b) }

def create (w : World) (id groupName : String) (spec : Spec) (t : Nat) : World :=
  { w.putBox id ⟨groupName,spec,t,false,false,false,false,false⟩ with made := w.made ++ [id] }

def modifyBox (w : World) (id : String) (f : Box → Box) : World :=
  match w.boxes id with
  | some b => w.putBox id (f b)
  | none => w

def present (w : World) (c : Client) : Bool :=
  match w.boxes c.sandboxId with
  | some b => decide (b.groupName = c.groupName) && !b.gone
  | none => false

def listed (w : World) (groupName : String) : List String :=
  w.made.filter (fun id => w.present ⟨groupName,id⟩)

end World

-- What the environment chose where the code leaves it open: whether a failed or
-- cancelled command still took effect, and the id a service gave out.
structure Hint where
  reached : Bool
  fresh : String := ""
deriving DecidableEq

def Op.interrupts (o : Op) (e : Exc) : Bool :=
  match e with
  | .cancelled => true
  | .deadline => o.timed
  | _ => false

def redisFails (o : Op) (e : Exc) : Bool := decide (e = .redis) || o.interrupts e

def platformFails (o : Op) (e : Exc) : Bool :=
  match e with
  | .http _ => true
  | .other => true
  | e => o.interrupts e

def bootstrapCommand : String := "bash /opt/bootstrap.sh"

def act (rep : Nat → Nat) (t : Nat) (o : Op) (w : World) (r : Except Exc o.Ans) (h : Hint) :
    Option World :=
  match o, r with
  | ⟨.clock,_⟩, .ok n => if n = w.now / 1000 then some w else none
  | ⟨.clock,_⟩, .error _ => none
  | ⟨.uuid,_⟩, .ok n => if n = w.uuids then some { w with uuids := w.uuids + 1 } else none
  | ⟨.uuid,_⟩, .error _ => none
  | ⟨.acquire k,_⟩, .ok _ => if w.locks (rep t) k = none then some (w.lock (rep t) k (some t)) else none
  | ⟨.acquire k,b⟩, .error e => if Op.interrupts ⟨.acquire k,b⟩ e then some w else none
  | ⟨.release k,_⟩, .ok _ => some (w.lock (rep t) k none)
  | ⟨.release _,_⟩, .error _ => none
  | ⟨.lockRedis k ttl,_⟩, .ok got =>
    if got then if w.lookup k = none then some (w.store k (.token t) (some ttl)) else none else some w
  | ⟨.lockRedis k ttl,b⟩, .error e =>
    if redisFails ⟨.lockRedis k ttl,b⟩ e then
      some (if h.reached && decide (w.lookup k = none) then w.store k (.token t) (some ttl) else w)
    else none
  | ⟨.unlockRedis k,_⟩, .ok _ => if w.lookup k = some (.token t) then some (w.erase k) else none
  | ⟨.unlockRedis k,b⟩, .error e =>
    if w.lookup k = some (.token t) then
      if redisFails ⟨.unlockRedis k,b⟩ e then some (if h.reached then w.erase k else w) else none
    else if e = .notOwned || redisFails ⟨.unlockRedis k,b⟩ e then some w else none
  | ⟨.get k,_⟩, .ok v => if v = w.lookup k then some w else none
  | ⟨.get k,b⟩, .error e => if redisFails ⟨.get k,b⟩ e then some w else none
  | ⟨.set k v ex,_⟩, .ok _ => some (w.store k v ex)
  | ⟨.set k v ex,b⟩, .error e =>
    if redisFails ⟨.set k v ex,b⟩ e then some (if h.reached then w.store k v ex else w) else none
  | ⟨.del k,_⟩, .ok _ => some (w.erase k)
  | ⟨.del k,b⟩, .error e =>
    if redisFails ⟨.del k,b⟩ e then some (if h.reached then w.erase k else w) else none
  | ⟨.setNx k v ex,_⟩, .ok got =>
    if got = decide (w.lookup k = none) then some (if got then w.store k v (some ex) else w) else none
  | ⟨.setNx k v ex,b⟩, .error e =>
    if redisFails ⟨.setNx k v ex,b⟩ e then
      some (if h.reached && decide (w.lookup k = none) then w.store k v (some ex) else w)
    else none
  | ⟨.evalRelease k v,_⟩, .ok _ => some (if w.lookup k = some v then w.erase k else w)
  | ⟨.evalRelease k v,b⟩, .error e =>
    if redisFails ⟨.evalRelease k v,b⟩ e then
      some (if h.reached && decide (w.lookup k = some v) then w.erase k else w)
    else none
  | ⟨.builtDiskGet g,_⟩, .ok v => if v = w.builtDisks (rep t) g then some w else none
  | ⟨.builtDiskGet _,_⟩, .error _ => none
  | ⟨.builtDiskPut g id,_⟩, .ok _ =>
    some { w with builtDisks := Coop.upd w.builtDisks (rep t) (Coop.upd (w.builtDisks (rep t)) g (some id)) }
  | ⟨.builtDiskPut _ _,_⟩, .error _ => none
  | ⟨.volumeSeen g,_⟩, .ok v => if v = w.volumes (rep t) g then some w else none
  | ⟨.volumeSeen _,_⟩, .error _ => none
  | ⟨.volumeAdd g,_⟩, .ok _ =>
    some { w with volumes := Coop.upd w.volumes (rep t) (Coop.upd (w.volumes (rep t)) g true) }
  | ⟨.volumeAdd _,_⟩, .error _ => none
  | ⟨.createVolume _ _,_⟩, .ok _ => some w
  | ⟨.createVolume g c,b⟩, .error e => if platformFails ⟨.createVolume g c,b⟩ e then some w else none
  | ⟨.listDiskImages g,_⟩, .ok l =>
    if l = (w.images.filter (fun i => i.groupName = g)).map (fun i => ⟨i.id,some i.state⟩) then some w
    else none
  | ⟨.listDiskImages g,b⟩, .error e => if platformFails ⟨.listDiskImages g,b⟩ e then some w else none
  | ⟨.beginCreateDiskImage g src,_⟩, .ok id =>
    if w.images.all (fun i => i.id ≠ id) then
      some { w with images := w.images ++ [⟨id,g,src,"Building"⟩] }
    else none
  | ⟨.beginCreateDiskImage g src,b⟩, .error e =>
    if platformFails ⟨.beginCreateDiskImage g src,b⟩ e then
      if h.reached then
        if w.images.all (fun i => i.id ≠ h.fresh) then
          some { w with images := w.images ++ [⟨h.fresh,g,src,"Building"⟩] }
        else none
      else some w
    else none
  | ⟨.pollDiskImage g id,_⟩, .ok _ =>
    if w.images.any (fun i => i.id = id && i.groupName = g && i.state = "Ready") then some w else none
  | ⟨.pollDiskImage g id,b⟩, .error e => if platformFails ⟨.pollDiskImage g id,b⟩ e then some w else none
  | ⟨.beginCreate g spec,_⟩, .ok c =>
    if c.groupName = g && (w.boxes c.sandboxId).isNone then some (w.create c.sandboxId g spec t) else none
  | ⟨.beginCreate g spec,b⟩, .error e =>
    if platformFails ⟨.beginCreate g spec,b⟩ e then
      if h.reached then
        if (w.boxes h.fresh).isNone then some (w.create h.fresh g spec t) else none
      else some w
    else none
  | ⟨.pollCreate c,_⟩, .ok _ =>
    if w.present c then some (w.modifyBox c.sandboxId (fun b => { b with ready := true })) else none
  | ⟨.pollCreate c,b⟩, .error e =>
    if platformFails ⟨.pollCreate c,b⟩ e then
      some (if h.reached then w.modifyBox c.sandboxId (fun b => { b with gone := true }) else w)
    else none
  | ⟨.setLifecyclePolicy c _,_⟩, .ok _ =>
    some (w.modifyBox c.sandboxId (fun b => { b with policy := true }))
  | ⟨.setLifecyclePolicy c i,b⟩, .error e =>
    if e = .notFound || platformFails ⟨.setLifecyclePolicy c i,b⟩ e then
      some (if h.reached then w.modifyBox c.sandboxId (fun b => { b with policy := true }) else w)
    else none
  | ⟨.ensureRunning c,_⟩, .ok _ => if w.present c then some w else none
  | ⟨.ensureRunning c,b⟩, .error e =>
    if e = .notFound then
      if w.present c && (w.boxes c.sandboxId).all (fun b => !b.deleting) then none else some w
    else if platformFails ⟨.ensureRunning c,b⟩ e then some w else none
  | ⟨.exec c cmd,_⟩, .ok res =>
    if w.present c then
      some (if cmd = bootstrapCommand && res.boots then
        w.modifyBox c.sandboxId (fun b => { b with bootstrapped := true }) else w)
    else none
  | ⟨.exec c cmd,b⟩, .error e =>
    if e = .notFound || platformFails ⟨.exec c cmd,b⟩ e then some w else none
  | ⟨.listSandboxes g,_⟩, .ok l => if l = w.listed g then some w else none
  | ⟨.listSandboxes g,b⟩, .error e => if platformFails ⟨.listSandboxes g,b⟩ e then some w else none
  | ⟨.beginDelete c,_⟩, .ok _ =>
    if w.present c then some (w.modifyBox c.sandboxId (fun b => { b with deleting := true })) else none
  | ⟨.beginDelete c,b⟩, .error e =>
    if e = .notFound then if w.present c then none else some w
    else if platformFails ⟨.beginDelete c,b⟩ e then
      some (if h.reached && w.present c then w.modifyBox c.sandboxId (fun b => { b with deleting := true })
        else w)
    else none

inductive Env where
  | tick (ms : Nat)
  | built (id : String)
  | vanish (id : String)
  | imageState (id state : String)

-- Time passes; a sandbox is finished, whether or not anyone waits for it; a sandbox
-- disappears (deleted, by whoever); an image build ends.
def env : Env → World → Option World
  | .tick ms, w => some { w with now := w.now + ms }
  | .built id, w =>
    match w.boxes id with
    | some b => if b.gone then none else some (w.putBox id { b with ready := true })
    | none => none
  | .vanish id, w =>
    match w.boxes id with
    | some b => some (w.putBox id { b with gone := true })
    | none => none
  | .imageState id state, w =>
    some { w with images := w.images.map (fun i => if i.id = id then { i with state := state } else i) }

def machine (rep : Nat → Nat) : Coop.Machine Op Op.Ans Exc Nat Hint World Env := ⟨act rep,env⟩

end IdentityAwareMcp
