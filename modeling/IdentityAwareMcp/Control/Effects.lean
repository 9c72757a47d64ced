import IdentityAwareMcp.Control.Keys

namespace IdentityAwareMcp

open Coop

variable {rep : Nat → Nat} {t : Nat} {o : Op} {w w' : World} {r : Except Exc o.Ans} {h : Hint}

-- What stays true of a sandbox once it has been made.
structure Box.Becomes (b b' : Box) : Prop where
  groupName : b'.groupName = b.groupName
  spec : b'.spec = b.spec
  creator : b'.creator = b.creator
  policy : b.policy = true → b'.policy = true
  bootstrapped : b.bootstrapped = true → b'.bootstrapped = true
  deleting : b.deleting = true → b'.deleting = true
  gone : b.gone = true → b'.gone = true

theorem Box.Becomes.refl (b : Box) : b.Becomes b := ⟨rfl,rfl,rfl,id,id,id,id⟩

theorem Box.Becomes.trans {a b c : Box} (h : a.Becomes b) (h' : b.Becomes c) : a.Becomes c :=
  ⟨h'.groupName.trans h.groupName,h'.spec.trans h.spec,h'.creator.trans h.creator,
    fun x => h'.policy (h.policy x),fun x => h'.bootstrapped (h.bootstrapped x),
    fun x => h'.deleting (h.deleting x),fun x => h'.gone (h.gone x)⟩

def World.Grows (w w' : World) : Prop := ∀ id b, w.boxes id = some b → ∃ b', w'.boxes id = some b' ∧ b.Becomes b'

theorem World.Grows.of_eq (h : w'.boxes = w.boxes) : w.Grows w' := by
  intro id b hb
  exact ⟨b,h ▸ hb,.refl b⟩

theorem grows_modifyBox {f : Box → Box} (hf : ∀ b : Box, b.Becomes (f b)) (id : String) :
    w.Grows (w.modifyBox id f) := by
  intro i b hb
  simp only [World.modifyBox]
  split
  · rename_i b' hb'
    by_cases hi : i = id
    · subst hi
      rw [hb] at hb'
      cases hb'
      exact ⟨f b,by simp [World.putBox],hf b⟩
    · exact ⟨b,by simpa [World.putBox,hi] using hb,.refl b⟩
  · exact ⟨b,hb,.refl b⟩

theorem grows_create {id g : String} {spec : Spec} (hn : w.boxes id = none) : w.Grows (w.create id g spec t) := by
  intro i b hb
  have hi : i ≠ id := by
    intro he
    rw [he,hn] at hb
    cases hb
  exact ⟨b,by simpa [World.create,World.putBox,hi] using hb,.refl b⟩

@[simp] theorem store_boxes (k : String) (v : Value) (ex : Option Nat) : (w.store k v ex).boxes = w.boxes := rfl

@[simp] theorem erase_boxes (k : String) : (w.erase k).boxes = w.boxes := rfl

@[simp] theorem lock_boxes (i : Nat) (k : String) (x : Option Nat) : (w.lock i k x).boxes = w.boxes := rfl

theorem becomes_ready (b : Box) : b.Becomes { b with ready := true } := ⟨rfl,rfl,rfl,id,id,id,id⟩

theorem becomes_policy (b : Box) : b.Becomes { b with policy := true } := ⟨rfl,rfl,rfl,fun _ => rfl,id,id,id⟩

theorem becomes_bootstrapped (b : Box) : b.Becomes { b with bootstrapped := true } :=
  ⟨rfl,rfl,rfl,id,fun _ => rfl,id,id⟩

theorem becomes_deleting (b : Box) : b.Becomes { b with deleting := true } := ⟨rfl,rfl,rfl,id,id,fun _ => rfl,id⟩

theorem becomes_gone (b : Box) : b.Becomes { b with gone := true } := ⟨rfl,rfl,rfl,id,id,id,fun _ => rfl⟩

-- What a command of task t can do to the world, whatever it answers.
inductive Alters (rep : Nat → Nat) (t : Nat) (w : World) : Cmd → World → Prop where
  | same {c : Cmd} : Alters rep t w c w
  | uuid : Alters rep t w .uuid { w with uuids := w.uuids + 1 }
  | acquire {k : String} (hn : w.locks (rep t) k = none) : Alters rep t w (.acquire k) (w.lock (rep t) k (some t))
  | release {k : String} : Alters rep t w (.release k) (w.lock (rep t) k none)
  | lockRedis {k : String} {ttl : Nat} (hn : w.lookup k = none) :
      Alters rep t w (.lockRedis k ttl) (w.store k (.token t) (some ttl))
  | unlockRedis {k : String} (hl : w.lookup k = some (.token t)) : Alters rep t w (.unlockRedis k) (w.erase k)
  | set {k : String} {v : Value} {ex : Option Nat} : Alters rep t w (.set k v ex) (w.store k v ex)
  | del {k : String} : Alters rep t w (.del k) (w.erase k)
  | setNx {k : String} {v : Value} {ex : Nat} (hn : w.lookup k = none) :
      Alters rep t w (.setNx k v ex) (w.store k v (some ex))
  | evalRelease {k : String} {v : Value} (hl : w.lookup k = some v) : Alters rep t w (.evalRelease k v) (w.erase k)
  | disk {g id : String} {d : Nat → String → Option String} :
      Alters rep t w (.builtDiskPut g id) { w with builtDisks := d }
  | volume {g : String} {v : Nat → String → Bool} : Alters rep t w (.volumeAdd g) { w with volumes := v }
  | image {g src : String} {l : List Image} : Alters rep t w (.beginCreateDiskImage g src) { w with images := l }
  | create {id g : String} {spec : Spec} (hn : w.boxes id = none) :
      Alters rep t w (.beginCreate g spec) (w.create id g spec t)
  | ready {c : Client} : Alters rep t w (.pollCreate c) (w.modifyBox c.sandboxId (fun b => { b with ready := true }))
  | gone {c : Client} : Alters rep t w (.pollCreate c) (w.modifyBox c.sandboxId (fun b => { b with gone := true }))
  | policy {c : Client} {i : Nat} :
      Alters rep t w (.setLifecyclePolicy c i) (w.modifyBox c.sandboxId (fun b => { b with policy := true }))
  | bootstrapped {c : Client} {cmd : String} :
      Alters rep t w (.exec c cmd) (w.modifyBox c.sandboxId (fun b => { b with bootstrapped := true }))
  | deleting {c : Client} :
      Alters rep t w (.beginDelete c) (w.modifyBox c.sandboxId (fun b => { b with deleting := true }))

theorem act_alters (ha : act rep t o w r h = some w') : Alters rep t w o.cmd w' := by
  obtain ⟨c,b⟩ := o
  cases c <;> cases r <;> simp only [act] at ha <;> (repeat' split at ha) <;>
    first
      | (cases ha; constructor; done)
      | (cases ha; constructor; grind)
      | (cases ha; exact .create (by simp_all))
      | cases ha

theorem act_grows (ha : act rep t o w r h = some w') : w.Grows w' := by
  obtain ⟨c,b⟩ := o
  have halt : Alters rep t w c w' := act_alters ha
  cases halt with
  | create hn => exact grows_create hn
  | ready => exact grows_modifyBox becomes_ready _
  | gone => exact grows_modifyBox becomes_gone _
  | policy => exact grows_modifyBox becomes_policy _
  | bootstrapped => exact grows_modifyBox becomes_bootstrapped _
  | deleting => exact grows_modifyBox becomes_deleting _
  | _ => exact .of_eq rfl

@[simp] theorem modifyBox_now (id : String) (f : Box → Box) : (w.modifyBox id f).now = w.now := by
  simp only [World.modifyBox]
  split <;> rfl

theorem act_now (ha : act rep t o w r h = some w') : w'.now = w.now := by
  obtain ⟨c,b⟩ := o
  have halt : Alters rep t w c w' := act_alters ha
  cases halt with
  | ready | gone | policy | bootstrapped | deleting => exact modifyBox_now _ _
  | _ => rfl

theorem store_redis {k i : String} {v : Value} {ex : Option Nat} {e : Entry}
    (he : (w.store k v ex).redis i = some e) :
    i = k ∧ e = ⟨v,ex.map (fun s => w.now + s * 1000)⟩ ∨ w.redis i = some e := by
  by_cases hi : i = k
  · subst hi
    simp only [World.store,upd_same,Option.some.injEq] at he
    exact .inl ⟨rfl,he.symm⟩
  · exact .inr (by simpa [World.store,hi] using he)

theorem erase_redis {k i : String} {e : Entry} (he : (w.erase k).redis i = some e) :
    i ≠ k ∧ w.redis i = some e := by
  by_cases hi : i = k
  · subst hi
    simp [World.erase] at he
  · exact ⟨hi,by simpa [World.erase,hi] using he⟩

@[simp] theorem modifyBox_redis (id : String) (f : Box → Box) : (w.modifyBox id f).redis = w.redis := by
  simp only [World.modifyBox]
  split <;> rfl

@[simp] theorem modifyBox_locks (id : String) (f : Box → Box) : (w.modifyBox id f).locks = w.locks := by
  simp only [World.modifyBox]
  split <;> rfl

theorem lookup_some {k : String} {v : Value} (hl : w.lookup k = some v) :
    ∃ e, w.redis k = some e ∧ e.val = v ∧ e.live w.now = true := by
  simp only [World.lookup] at hl
  split at hl
  · rename_i e he
    split at hl
    · rename_i hlive
      cases hl
      exact ⟨e,he,rfl,hlive⟩
    · cases hl
  · cases hl

-- Where an entry of the store can come from.
def Writes (t now : Nat) (c : Cmd) (k : String) (e : Entry) : Prop :=
  match c with
  | .set k' v ex => k' = k ∧ e = ⟨v,ex.map (fun s => now + s * 1000)⟩
  | .setNx k' v _ => k' = k ∧ e.val = v
  | .lockRedis k' _ => k' = k ∧ e.val = .token t
  | _ => False

theorem act_entry (ha : act rep t o w r h = some w') {k : String} {e : Entry} (he : w'.redis k = some e) :
    w.redis k = some e ∨ Writes t w.now o.cmd k e := by
  obtain ⟨c,b⟩ := o
  have halt : Alters rep t w c w' := act_alters ha
  cases halt with
  | lockRedis | set | setNx =>
    rcases store_redis he with ⟨rfl,rfl⟩ | he
    · exact .inr ⟨rfl,rfl⟩
    · exact .inl he
  | unlockRedis | del | evalRelease => exact .inl (erase_redis he).2
  | ready | gone | policy | bootstrapped | deleting => exact .inl (by simpa using he)
  | _ => exact .inl he

-- The commands that may change what a key holds.
def Touches (t : Nat) (w : World) (c : Cmd) (k : String) : Prop :=
  match c with
  | .set k' _ _ => k' = k
  | .del k' => k' = k
  | .setNx k' _ _ => k' = k ∧ w.lookup k = none
  | .lockRedis k' _ => k' = k ∧ w.lookup k = none
  | .unlockRedis k' => k' = k ∧ w.lookup k = some (.token t)
  | .evalRelease k' v => k' = k ∧ w.lookup k = some v
  | _ => False

theorem store_other {k i : String} (v : Value) (ex : Option Nat) (hi : i ≠ k) :
    (w.store k v ex).redis i = w.redis i := by simp [World.store,hi]

theorem erase_other {k i : String} (hi : i ≠ k) : (w.erase k).redis i = w.redis i := by simp [World.erase,hi]

theorem act_untouched (ha : act rep t o w r h = some w') {k : String} (hk : ¬ Touches t w o.cmd k) :
    w'.redis k = w.redis k := by
  obtain ⟨c,b⟩ := o
  have halt : Alters rep t w c w' := act_alters ha
  cases halt with
  | lockRedis hn | setNx hn => exact store_other _ _ (fun hi => hk ⟨hi.symm,hi ▸ hn⟩)
  | unlockRedis hl | evalRelease hl => exact erase_other (fun hi => hk ⟨hi.symm,hi ▸ hl⟩)
  | set => exact store_other _ _ (fun hi => hk hi.symm)
  | del => exact erase_other (fun hi => hk hi.symm)
  | ready | gone | policy | bootstrapped | deleting => exact congrFun (modifyBox_redis _ _) k
  | _ => rfl

theorem lock_locks (j : Nat) (k' : String) (x : Option Nat) (i : Nat) (k : String) :
    (w.lock j k' x).locks i k = if i = j ∧ k = k' then x else w.locks i k := by
  by_cases hi : i = j
  · subst hi
    by_cases hk : k = k' <;> simp [World.lock,hk]
  · simp [World.lock,hi]

theorem act_locks (ha : act rep t o w r h = some w') (i : Nat) (k : String) :
    w'.locks i k = w.locks i k ∨ i = rep t ∧ (o.cmd = .acquire k ∧ w.locks i k = none ∧ w'.locks i k = some t ∨
      o.cmd = .release k ∧ w'.locks i k = none) := by
  obtain ⟨c,b⟩ := o
  have halt : Alters rep t w c w' := act_alters ha
  cases halt with
  | acquire hn =>
    rw [lock_locks]
    grind
  | release =>
    rw [lock_locks]
    grind
  | ready | gone | policy | bootstrapped | deleting => exact .inl (by rw [modifyBox_locks])
  | _ => exact .inl rfl

@[simp] theorem modifyBox_images (id : String) (f : Box → Box) : (w.modifyBox id f).images = w.images := by
  simp only [World.modifyBox]
  split <;> rfl

@[simp] theorem modifyBox_builtDisks (id : String) (f : Box → Box) : (w.modifyBox id f).builtDisks = w.builtDisks := by
  simp only [World.modifyBox]
  split <;> rfl

theorem act_images (ha : act rep t o w r h = some w') (hc : ∀ g src, o.cmd ≠ .beginCreateDiskImage g src) :
    w'.images = w.images := by
  obtain ⟨c,b⟩ := o
  have halt : Alters rep t w c w' := act_alters ha
  cases halt with
  | @image g src l => exact absurd rfl (hc g src)
  | ready | gone | policy | bootstrapped | deleting => exact modifyBox_images _ _
  | _ => rfl

-- Where an entry of the memo of disks can come from.
theorem act_builtDisks (ha : act rep t o w r h = some w') {i : Nat} {g id : String}
    (hb : w'.builtDisks i g = some id) : w.builtDisks i g = some id ∨ i = rep t ∧ o.cmd = .builtDiskPut g id := by
  obtain ⟨c,b⟩ := o
  have halt : Alters rep t w c w' := act_alters ha
  cases halt with
  | @disk g' id' d =>
    cases r with
    | error e => cases ha
    | ok u =>
      have hd : upd w.builtDisks (rep t) (upd (w.builtDisks (rep t)) g' (some id')) = d :=
        congrArg World.builtDisks (Option.some.inj ha)
      subst hd
      simp only [upd] at hb
      split at hb
      · rename_i hi
        rw [upd] at hb
        split at hb
        · rename_i hg
          cases hb
          exact .inr ⟨hi,by rw [hg]⟩
        · exact .inl (hi ▸ hb)
      · exact .inl hb
  | ready | gone | policy | bootstrapped | deleting => exact .inl (by simpa using hb)
  | _ => exact .inl hb

def World.begins (w : World) (id g src : String) : World := { w with images := w.images ++ [⟨id,g,src,"Building"⟩] }

theorem act_beginImage {g src : String} {b : Bool} {res : Except Exc String}
    (ha : act rep t ⟨.beginCreateDiskImage g src,b⟩ w res h = some w') :
    (∃ id, w' = w.begins id g src ∧ (∀ i ∈ w.images, i.id ≠ id) ∧
      (res = .ok id ∨ ∃ e, res = .error e ∧ h.reached = true ∧ id = h.fresh)) ∨
      w' = w ∧ ∃ e, res = .error e ∧ h.reached = false := by
  cases res with
  | ok id =>
    simp only [act] at ha
    split at ha
    · rename_i hf
      cases ha
      exact .inl ⟨id,rfl,by simpa using hf,.inl rfl⟩
    · cases ha
  | error e =>
    simp only [act] at ha
    split at ha
    · split at ha
      · rename_i hr
        split at ha
        · rename_i hf
          cases ha
          exact .inl ⟨h.fresh,rfl,by simpa using hf,.inr ⟨e,rfl,hr,rfl⟩⟩
        · cases ha
      · rename_i hr
        cases ha
        exact .inr ⟨rfl,e,rfl,by simpa using hr⟩
    · cases ha

theorem modifyBox_boxes (id : String) (f : Box → Box) (i : String) :
    (w.modifyBox id f).boxes i = if i = id then (w.boxes i).map f else w.boxes i := by
  by_cases hi : i = id
  · subst hi
    simp only [World.modifyBox,if_true]
    split
    · rename_i b hb
      simp [World.putBox,hb]
    · rename_i hb
      simp [hb]
  · simp only [World.modifyBox,hi,if_false]
    split
    · simp [World.putBox,hi]
    · rfl

theorem modifyBox_none {id : String} (f : Box → Box) {i : String} (hn : w.boxes i = none) :
    (w.modifyBox id f).boxes i = none := by
  rw [modifyBox_boxes,hn]
  simp

theorem create_boxes (id g : String) (spec : Spec) (t : Nat) (i : String) :
    (w.create id g spec t).boxes i =
      if i = id then some ⟨g,spec,t,false,false,false,false,false⟩ else w.boxes i := by
  by_cases hi : i = id
  · simp [World.create,World.putBox,hi]
  · simp [World.create,World.putBox,hi]

theorem act_fresh (ha : act rep t o w r h = some w') {id : String} {b : Box} (hn : w.boxes id = none)
    (hb : w'.boxes id = some b) :
    ∃ g spec, o.cmd = .beginCreate g spec ∧ b = ⟨g,spec,t,false,false,false,false,false⟩ := by
  obtain ⟨c,timed⟩ := o
  have halt : Alters rep t w c w' := act_alters ha
  have hold : w'.boxes = w.boxes → False := by
    intro he
    rw [he,hn] at hb
    cases hb
  cases halt with
  | create =>
    rw [create_boxes] at hb
    grind
  | ready | gone | policy | bootstrapped | deleting =>
    rw [modifyBox_none _ hn] at hb
    cases hb
  | _ => exact absurd rfl hold

theorem act_made (ha : act rep t o w r h = some w') :
    (w'.made = w.made ∧ ∀ id, w'.boxes id = none ↔ w.boxes id = none) ∨
      ∃ id g spec, w.boxes id = none ∧ w' = w.create id g spec t := by
  have hsame : w'.made = w.made → w'.boxes = w.boxes → (w'.made = w.made ∧ ∀ id, w'.boxes id = none ↔ w.boxes id = none) ∨
      ∃ id g spec, w.boxes id = none ∧ w' = w.create id g spec t := fun hm hb => .inl ⟨hm,fun id => by rw [hb]⟩
  have hmod : ∀ (i : String) (f : Box → Box), w' = w.modifyBox i f →
      (w'.made = w.made ∧ ∀ id, w'.boxes id = none ↔ w.boxes id = none) ∨
        ∃ id g spec, w.boxes id = none ∧ w' = w.create id g spec t := by
    rintro i f rfl
    refine .inl ⟨by simp only [World.modifyBox]; split <;> rfl,fun id => ?_⟩
    rw [modifyBox_boxes]
    split <;> simp
  obtain ⟨c,timed⟩ := o
  have halt : Alters rep t w c w' := act_alters ha
  cases halt with
  | create hn => exact .inr ⟨_,_,_,hn,rfl⟩
  | ready | gone | policy | bootstrapped | deleting => exact hmod _ _ rfl
  | _ => exact hsame rfl rfl

-- Only two commands change whether a sandbox exists or is being deleted.
theorem act_steady (ha : act rep t o w r h = some w') (hd : ∀ c, o.cmd ≠ .beginDelete c)
    (hp : ∀ c, o.cmd ≠ .pollCreate c) {id : String} {b : Box} (hb : w.boxes id = some b) :
    ∃ b', w'.boxes id = some b' ∧ b'.deleting = b.deleting ∧ b'.gone = b.gone := by
  have hsame : w'.boxes = w.boxes → ∃ b', w'.boxes id = some b' ∧ b'.deleting = b.deleting ∧ b'.gone = b.gone :=
    fun h => ⟨b,h ▸ hb,rfl,rfl⟩
  have hmod : ∀ (i : String) (f : Box → Box), (∀ b, (f b).deleting = b.deleting ∧ (f b).gone = b.gone) →
      w' = w.modifyBox i f → ∃ b', w'.boxes id = some b' ∧ b'.deleting = b.deleting ∧ b'.gone = b.gone := by
    rintro i f hf rfl
    rw [modifyBox_boxes,hb]
    split
    · exact ⟨f b,rfl,hf b⟩
    · exact ⟨b,rfl,rfl,rfl⟩
  have hnew : ∀ (i g : String) (spec : Spec), w.boxes i = none → w' = w.create i g spec t →
      ∃ b', w'.boxes id = some b' ∧ b'.deleting = b.deleting ∧ b'.gone = b.gone := by
    rintro i g spec hn rfl
    have hi : id ≠ i := by
      rintro rfl
      rw [hn] at hb
      cases hb
    exact ⟨b,by rw [create_boxes,if_neg hi,hb],rfl,rfl⟩
  obtain ⟨c,timed⟩ := o
  have halt : Alters rep t w c w' := act_alters ha
  cases halt with
  | create hn => exact hnew _ _ _ hn rfl
  | ready | gone => exact absurd rfl (hp _)
  | deleting => exact absurd rfl (hd _)
  | policy | bootstrapped =>
    refine hmod _ _ ?_ rfl
    exact fun _ => ⟨rfl,rfl⟩
  | _ => exact hsame rfl

theorem act_deletes {c : Client} {b : Bool} {r : Except Exc Unit} (ha : act rep t ⟨.beginDelete c,b⟩ w r h = some w') :
    w' = w ∨ w' = w.modifyBox c.sandboxId (fun b => { b with deleting := true }) := by
  have halt : Alters rep t w (.beginDelete c) w' := act_alters ha
  cases halt with
  | same => exact .inl rfl
  | deleting => exact .inr rfl

section Environment

variable {e : Env}

inductive Shifts (w : World) : Env → World → Prop where
  | tick (ms : Nat) : Shifts w (.tick ms) { w with now := w.now + ms }
  | built {id : String} {b : Box} (hb : w.boxes id = some b) : Shifts w (.built id) (w.putBox id { b with ready := true })
  | vanish {id : String} {b : Box} (hb : w.boxes id = some b) : Shifts w (.vanish id) (w.putBox id { b with gone := true })
  | imageState (id state : String) : Shifts w (.imageState id state)
      { w with images := w.images.map (fun i => if i.id = id then { i with state := state } else i) }

theorem env_shifts (he : env e w = some w') : Shifts w e w' := by
  cases e with
  | tick ms =>
    cases he
    exact .tick ms
  | built id =>
    simp only [env] at he
    split at he
    · rename_i b hb
      split at he <;> cases he
      exact .built hb
    · cases he
  | vanish id =>
    simp only [env] at he
    split at he
    · rename_i b hb
      cases he
      exact .vanish hb
    · cases he
  | imageState id state =>
    cases he
    exact .imageState id state

-- The environment changes a sandbox as modifyBox does, or none at all.
theorem env_modifies (he : env e w = some w') : w'.boxes = w.boxes ∨
    ∃ id b f, w.boxes id = some b ∧ (∀ b : Box, b.Becomes (f b)) ∧ w' = w.modifyBox id f := by
  cases env_shifts he with
  | tick ms => exact .inl rfl
  | imageState id state => exact .inl rfl
  | built hb => exact .inr ⟨_,_,_,hb,becomes_ready,by simp only [World.modifyBox,hb]⟩
  | vanish hb => exact .inr ⟨_,_,_,hb,becomes_gone,by simp only [World.modifyBox,hb]⟩

theorem env_grows (he : env e w = some w') : w.Grows w' := by
  rcases env_modifies he with hs | ⟨id,b,f,_,hf,rfl⟩
  · exact .of_eq hs
  · exact grows_modifyBox hf id

theorem env_fresh (he : env e w = some w') {id : String} (hn : w.boxes id = none) : w'.boxes id = none := by
  rcases env_modifies he with hs | ⟨i,b,f,_,_,rfl⟩
  · rw [hs,hn]
  · exact modifyBox_none f hn

theorem env_made (he : env e w = some w') : w'.made = w.made := by
  cases env_shifts he <;> rfl

theorem env_redis (he : env e w = some w') : w'.redis = w.redis := by
  cases env_shifts he <;> rfl

theorem env_locks (he : env e w = some w') : w'.locks = w.locks := by
  cases env_shifts he <;> rfl

theorem env_uuids (he : env e w = some w') : w'.uuids = w.uuids := by
  cases env_shifts he <;> rfl

theorem env_builtDisks (he : env e w = some w') : w'.builtDisks = w.builtDisks := by
  cases env_shifts he <;> rfl

theorem env_still (he : env e w = some w') (htick : ∀ ms, e ≠ .tick ms) : w'.now = w.now := by
  cases env_shifts he with
  | tick ms => exact absurd rfl (htick ms)
  | _ => rfl

theorem env_now (he : env e w = some w') : w.now ≤ w'.now := by
  by_cases htick : ∃ ms, e = .tick ms
  · obtain ⟨ms,rfl⟩ := htick
    cases he
    exact Nat.le_add_right _ _
  · exact Nat.le_of_eq (env_still he (fun ms hms => htick ⟨ms,hms⟩)).symm

end Environment

end IdentityAwareMcp
