import IdentityAwareMcp.Safety.Creation

namespace IdentityAwareMcp

open Coop SandboxManager

section Worlds

variable (cfg : Config) (u : Guid) (mine : Nat → Bool)

def Strange (w : World) (id : String) : Prop := ∃ b, w.boxes id = some b ∧ mine b.creator = false

def own (w : World) (id : String) : Bool :=
  match w.boxes id with
  | some b => mine b.creator
  | none => false

-- The keys a user shares with nobody but the reaper.
def Visible (w : World) (k : String) : Prop :=
  k = leaderKey ∨ k = userKey cfg u ∨ (∃ x : SessionCtx, x.userOid = some u ∧ (k = ctxKey cfg x ∨ k = lockKey x)) ∨
    ∃ id, ¬ Strange mine w id ∧ (k = indexKey cfg id ∨ k = flagKey cfg id)

-- The same sandbox, but for what it was made from.
def Matches : Option Box → Option Box → Prop
  | none, none => True
  | none, some _ => False
  | some b, none => mine b.creator = false
  | some b, some b' => mine b.creator = true ∧ ∃ spec, b' = { b with spec := spec }

-- What there is of one world for a single user: other users' sandboxes, entries and locks are missing.
structure Mirrors (w w' : World) : Prop where
  now : w'.now = w.now
  uuids : w'.uuids = w.uuids
  redis : ∀ k, Visible cfg u mine w k → w'.redis k = w.redis k
  boxes : ∀ id, Matches mine (w.boxes id) (w'.boxes id)
  named : ∀ id ∈ w.made, w.boxes id ≠ none
  made : w'.made = w.made.filter (own mine w)
  locks : ∀ i x, x.userOid = some u → w'.locks i (routingKey x) = w.locks i (routingKey x)
  vacant : ∀ i k, SetUpKey k → w'.locks i k = none

variable {cfg u mine} {w w' w₂ : World} {k id : String} {f : Box → Box}

theorem Strange.mono (hs : Strange mine w id) (hg : w.Grows w₂) : Strange mine w₂ id := by
  obtain ⟨b,hb,hm⟩ := hs
  obtain ⟨b',hb',hbb⟩ := hg id b hb
  exact ⟨b',hb',by rwa [hbb.creator]⟩

theorem own_stays (hg : w.Grows w₂) (hb : w.boxes id ≠ none) : own mine w₂ id = own mine w id := by
  obtain ⟨b,hb⟩ := Option.ne_none_iff_exists'.mp hb
  obtain ⟨b',hb',hbb⟩ := hg id b hb
  simp only [own,hb,hb',hbb.creator]

theorem not_own (hb : w.boxes id ≠ none) (ho : own mine w id = false) : Strange mine w id := by
  obtain ⟨b,hb⟩ := Option.ne_none_iff_exists'.mp hb
  simp only [own,hb] at ho
  exact ⟨b,hb,ho⟩

theorem own_known (ho : own mine w id = true) : ¬ Strange mine w id := by
  rintro ⟨b,hb,hm⟩
  simp only [own,hb,hm] at ho
  cases ho

theorem Visible.back (hv : Visible cfg u mine w₂ k) (hg : w.Grows w₂) : Visible cfg u mine w k := by
  rcases hv with h | h | h | ⟨id,hs,hk⟩
  · exact .inl h
  · exact .inr (.inl h)
  · exact .inr (.inr (.inl h))
  · exact .inr (.inr (.inr ⟨id,fun h => hs (h.mono hg),hk⟩))

theorem filter_own (hg : w.Grows w₂) (hn : ∀ id ∈ w.made, w.boxes id ≠ none) :
    w.made.filter (own mine w₂) = w.made.filter (own mine w) :=
  List.filter_congr (fun id hid => own_stays hg (hn id hid))

theorem Mirrors.known (hm : Mirrors cfg u mine w w') (hs : ¬ Strange mine w id) :
    (w.boxes id = none ∧ w'.boxes id = none) ∨
      ∃ b spec, w.boxes id = some b ∧ w'.boxes id = some { b with spec := spec } := by
  have hb := hm.boxes id
  cases hx : w.boxes id with
  | none =>
    cases hy : w'.boxes id with
    | none => exact .inl ⟨rfl,rfl⟩
    | some b' =>
      rw [hx,hy] at hb
      exact hb.elim
  | some b =>
    cases hy : w'.boxes id with
    | none =>
      rw [hx,hy] at hb
      exact absurd ⟨b,hx,hb⟩ hs
    | some b' =>
      rw [hx,hy] at hb
      obtain ⟨_,spec,rfl⟩ := hb
      exact .inr ⟨b,spec,rfl,rfl⟩

theorem Mirrors.present (hm : Mirrors cfg u mine w w') {c : Client} (hs : ¬ Strange mine w c.sandboxId) :
    w'.present c = w.present c := by
  rcases hm.known hs with ⟨hb,hb'⟩ | ⟨b,spec,hb,hb'⟩ <;> simp only [World.present,hb,hb']

theorem Mirrors.absent (hm : Mirrors cfg u mine w w') (hn : w.boxes id = none) : w'.boxes id = none := by
  have hs : ¬ Strange mine w id := by
    rintro ⟨b,hb,-⟩
    rw [hn] at hb
    cases hb
  rcases hm.known hs with ⟨-,hb'⟩ | ⟨b,spec,hb,-⟩
  · exact hb'
  · rw [hn] at hb
    cases hb

theorem Mirrors.lookup (hm : Mirrors cfg u mine w w') (hv : Visible cfg u mine w k) : w'.lookup k = w.lookup k :=
  lookup_congr (hm.redis k hv) hm.now

theorem Mirrors.listed (hm : Mirrors cfg u mine w w') (g : String) :
    w'.listed g = (w.listed g).filter (own mine w) := by
  rw [World.listed,World.listed,hm.made,List.filter_filter,List.filter_filter]
  refine List.filter_congr (fun id hid => ?_)
  cases ho : own mine w id with
  | true => rw [hm.present (c := ⟨g,id⟩) (own_known ho),Bool.and_true,Bool.true_and]
  | false => rw [Bool.and_false,Bool.false_and]

-- A change that leaves a sandbox to its creator, and what it was made from out of account.
structure Plainly (f : Box → Box) : Prop where
  creator : ∀ b, (f b).creator = b.creator
  spec : ∀ b spec, f { b with spec := spec } = { f b with spec := spec }

theorem plainly_ready : Plainly (fun b => { b with ready := true }) := ⟨fun _ => rfl,fun _ _ => rfl⟩

theorem plainly_gone : Plainly (fun b => { b with gone := true }) := ⟨fun _ => rfl,fun _ _ => rfl⟩

theorem plainly_policy : Plainly (fun b => { b with policy := true }) := ⟨fun _ => rfl,fun _ _ => rfl⟩

theorem plainly_bootstrapped : Plainly (fun b => { b with bootstrapped := true }) := ⟨fun _ => rfl,fun _ _ => rfl⟩

theorem plainly_deleting : Plainly (fun b => { b with deleting := true }) := ⟨fun _ => rfl,fun _ _ => rfl⟩

theorem Matches.map {x y : Option Box} (hf : Plainly f) (h : Matches mine x y) : Matches mine (x.map f) (y.map f) := by
  cases x with
  | none =>
    cases y with
    | none => trivial
    | some b' => exact h
  | some b =>
    cases y with
    | none => exact (congrArg mine (hf.creator b)).trans h
    | some b' =>
      obtain ⟨hb,spec,rfl⟩ := h
      exact ⟨(congrArg mine (hf.creator b)).trans hb,spec,hf.spec b spec⟩

end Worlds

section Changes

variable {cfg : Config} {u : Guid} {mine : Nat → Bool} {w w' w₂ : World} {k id : String} {f : Box → Box} {t : Nat}

@[simp] theorem modifyBox_made : (w.modifyBox id f).made = w.made := by
  simp only [World.modifyBox]
  split <;> rfl

@[simp] theorem modifyBox_uuids : (w.modifyBox id f).uuids = w.uuids := by
  simp only [World.modifyBox]
  split <;> rfl

theorem own_modifyBox (hf : Plainly f) : own mine (w.modifyBox id f) = own mine w := by
  funext i
  simp only [own,modifyBox_boxes]
  by_cases hi : i = id
  · simp only [hi,if_true]
    cases w.boxes id with
    | none => rfl
    | some b => exact congrArg mine (hf.creator b)
  · simp only [hi,if_false]

theorem strange_modifyBox (hf : Plainly f) (i : String) : Strange mine (w.modifyBox id f) i ↔ Strange mine w i := by
  rw [Strange,Strange,modifyBox_boxes]
  split
  · cases w.boxes i with
    | none => simp
    | some b => simp [hf.creator b]
  · rfl

theorem visible_modifyBox (hf : Plainly f) (k : String) :
    Visible cfg u mine (w.modifyBox id f) k ↔ Visible cfg u mine w k := by
  simp only [Visible,strange_modifyBox hf]

theorem Mirrors.modify (hm : Mirrors cfg u mine w w') (hf : Plainly f) (id : String) :
    Mirrors cfg u mine (w.modifyBox id f) (w'.modifyBox id f) where
  now := by simpa using hm.now
  uuids := by simpa using hm.uuids
  redis k hv := by
    rw [visible_modifyBox hf] at hv
    simpa using hm.redis k hv
  boxes i := by
    rw [modifyBox_boxes,modifyBox_boxes]
    split
    · exact (hm.boxes i).map hf
    · exact hm.boxes i
  named i hi := by
    rw [modifyBox_boxes]
    rw [modifyBox_made] at hi
    split
    · simpa using hm.named i hi
    · exact hm.named i hi
  made := by
    rw [modifyBox_made,modifyBox_made,own_modifyBox hf]
    exact hm.made
  locks i x hx := by simpa using hm.locks i x hx
  vacant i k hk := by simpa using hm.vacant i k hk

-- A sandbox that is not shown may change unseen.
theorem Mirrors.modify_strange (hm : Mirrors cfg u mine w w') (hf : Plainly f) (hs : Strange mine w id) :
    Mirrors cfg u mine (w.modifyBox id f) w' := by
  obtain ⟨b,hb,hmine⟩ := hs
  have hhid : w'.boxes id = none := by
    have hx := hm.boxes id
    cases hy : w'.boxes id with
    | none => rfl
    | some b' =>
      rw [hb,hy] at hx
      exact absurd (hmine.symm.trans hx.1) (by simp)
  have hsame : w'.modifyBox id f = w' := by simp only [World.modifyBox,hhid]
  have hall := hm.modify hf id
  rwa [hsame] at hall

theorem store_congr {v : Value} {ex : Option Nat} (hn : w'.now = w.now) {i : String} (hi : i = k ∨ w'.redis i = w.redis i) :
    (w'.store k v ex).redis i = (w.store k v ex).redis i := by
  by_cases hik : i = k
  · subst hik
    simp [World.store,hn]
  · rw [store_other _ _ hik,store_other _ _ hik]
    exact hi.resolve_left hik

theorem Mirrors.store (hm : Mirrors cfg u mine w w') (k : String) (v : Value) (ex : Option Nat) :
    Mirrors cfg u mine (w.store k v ex) (w'.store k v ex) :=
  ⟨hm.now,hm.uuids,fun i hv => store_congr hm.now (.inr (hm.redis i hv)),hm.boxes,hm.named,hm.made,hm.locks,hm.vacant⟩

theorem Mirrors.store_unseen (hm : Mirrors cfg u mine w w') (hk : ¬ Visible cfg u mine w k) (v : Value) (ex : Option Nat) :
    Mirrors cfg u mine (w.store k v ex) w' :=
  ⟨hm.now,hm.uuids,fun i hv => (hm.redis i hv).trans (store_other v ex (fun (h : i = k) => hk (h ▸ hv))).symm,hm.boxes,hm.named,
    hm.made,hm.locks,hm.vacant⟩

theorem Mirrors.erase (hm : Mirrors cfg u mine w w') (k : String) : Mirrors cfg u mine (w.erase k) (w'.erase k) := by
  refine ⟨hm.now,hm.uuids,fun i hv => ?_,hm.boxes,hm.named,hm.made,hm.locks,hm.vacant⟩
  by_cases hik : i = k
  · subst hik
    simp [World.erase]
  · rw [erase_other hik,erase_other hik]
    exact hm.redis i hv

theorem Mirrors.erase_unseen (hm : Mirrors cfg u mine w w') (hk : ¬ Visible cfg u mine w k) :
    Mirrors cfg u mine (w.erase k) w' :=
  ⟨hm.now,hm.uuids,fun i hv => (hm.redis i hv).trans (erase_other (fun (h : i = k) => hk (h ▸ hv))).symm,hm.boxes,hm.named,
    hm.made,hm.locks,hm.vacant⟩

theorem Mirrors.lock (hm : Mirrors cfg u mine w w') (j : Nat) (hk : ¬ SetUpKey k) (h : Option Nat) :
    Mirrors cfg u mine (w.lock j k h) (w'.lock j k h) := by
  refine ⟨hm.now,hm.uuids,hm.redis,hm.boxes,hm.named,hm.made,fun i x hx => ?_,fun i k' hk' => ?_⟩
  · rw [lock_locks,lock_locks,hm.locks i x hx]
  · rw [lock_locks,if_neg (fun (h : i = j ∧ k' = k) => hk (h.2 ▸ hk'))]
    exact hm.vacant i k' hk'

theorem Mirrors.lock_unseen (hm : Mirrors cfg u mine w w') (j : Nat) (hk : ∀ x : SessionCtx, x.userOid = some u → k ≠ routingKey x)
    (h : Option Nat) : Mirrors cfg u mine (w.lock j k h) w' := by
  refine ⟨hm.now,hm.uuids,hm.redis,hm.boxes,hm.named,hm.made,fun i x hx => ?_,hm.vacant⟩
  rw [lock_locks,if_neg (fun (h : i = j ∧ routingKey x = k) => hk x hx h.2.symm)]
  exact hm.locks i x hx

theorem Mirrors.create (hm : Mirrors cfg u mine w w') (hn : w.boxes id = none) (ht : mine t = true) (g : String)
    (spec spec' : Spec) : Mirrors cfg u mine (w.create id g spec t) (w'.create id g spec' t) := by
  have hg : w.Grows (w.create id g spec t) := grows_create hn
  have hown : own mine (w.create id g spec t) id = true := by
    rw [own,create_boxes,if_pos rfl]
    exact ht
  refine ⟨hm.now,hm.uuids,fun k hv => hm.redis k (hv.back hg),fun i => ?_,fun i hi => ?_,?_,hm.locks,hm.vacant⟩
  · rw [create_boxes,create_boxes]
    split
    · exact ⟨ht,spec',rfl⟩
    · exact hm.boxes i
  · rw [create_boxes]
    split
    · simp
    · rename_i hne
      rcases List.mem_append.mp hi with hi | hi
      · exact hm.named i hi
      · exact absurd (List.mem_singleton.mp hi) hne
  · change w'.made ++ [id] = (w.made ++ [id]).filter (own mine (w.create id g spec t))
    rw [List.filter_append,filter_own hg hm.named,hm.made]
    simp [hown]

theorem Mirrors.create_unseen (hm : Mirrors cfg u mine w w') (hn : w.boxes id = none) (ht : mine t = false) (g : String)
    (spec : Spec) : Mirrors cfg u mine (w.create id g spec t) w' := by
  have hg : w.Grows (w.create id g spec t) := grows_create hn
  have hown : own mine (w.create id g spec t) id = false := by
    rw [own,create_boxes,if_pos rfl]
    exact ht
  refine ⟨hm.now,hm.uuids,fun k hv => hm.redis k (hv.back hg),fun i => ?_,fun i hi => ?_,?_,hm.locks,hm.vacant⟩
  · rw [create_boxes]
    split
    · rename_i hid
      rw [hid,hm.absent hn]
      exact ht
    · exact hm.boxes i
  · rw [create_boxes]
    split
    · simp
    · rename_i hne
      rcases List.mem_append.mp hi with hi | hi
      · exact hm.named i hi
      · exact absurd (List.mem_singleton.mp hi) hne
  · change w'.made = (w.made ++ [id]).filter (own mine (w.create id g spec t))
    rw [List.filter_append,filter_own hg hm.named,hm.made]
    simp [hown]

theorem Mirrors.unmoved (hm : Mirrors cfg u mine w w') (hw : Unmoved w' w₂) : Mirrors cfg u mine w w₂ :=
  ⟨hw.now.trans hm.now,hw.uuids.trans hm.uuids,fun k hv => (congrFun hw.redis k).trans (hm.redis k hv),
    fun i => by rw [hw.boxes]; exact hm.boxes i,hm.named,hw.made.trans hm.made,
    fun i x hx => by rw [hw.locks]; exact hm.locks i x hx,fun i k hk => by rw [hw.locks]; exact hm.vacant i k hk⟩

end Changes

section Steps

variable (cfg : Config) (u : Guid) (mine : Nat → Bool)

-- Commands whose answer is the same wherever the user's part of the world is.
def Seen (w : World) : Cmd → Prop
  | .clock => True
  | .uuid => True
  | .acquire k => ∃ x, x.userOid = some u ∧ k = routingKey x
  | .release k => ∃ x, x.userOid = some u ∧ k = routingKey x
  | .lockRedis k _ => Visible cfg u mine w k
  | .unlockRedis k => Visible cfg u mine w k
  | .get k => Visible cfg u mine w k
  | .set k _ _ => Visible cfg u mine w k
  | .del k => Visible cfg u mine w k
  | .setNx k _ _ => Visible cfg u mine w k
  | .evalRelease k _ => Visible cfg u mine w k
  | .pollCreate c => ¬ Strange mine w c.sandboxId
  | .setLifecyclePolicy c _ => ¬ Strange mine w c.sandboxId
  | .ensureRunning c => ¬ Strange mine w c.sandboxId
  | .exec c _ => ¬ Strange mine w c.sandboxId
  | .beginDelete c => ¬ Strange mine w c.sandboxId
  | _ => False

-- Commands that change nothing of the user's part of the world.
def Unseen (t : Nat) (w : World) : Cmd → Prop
  | .uuid => False
  | .acquire k => ∀ x : SessionCtx, x.userOid = some u → k ≠ routingKey x
  | .release k => ∀ x : SessionCtx, x.userOid = some u → k ≠ routingKey x
  | .lockRedis k _ => ¬ Visible cfg u mine w k
  | .unlockRedis k => ¬ Visible cfg u mine w k
  | .set k _ _ => ¬ Visible cfg u mine w k
  | .del k => ¬ Visible cfg u mine w k
  | .setNx k _ _ => ¬ Visible cfg u mine w k
  | .evalRelease k _ => ¬ Visible cfg u mine w k
  | .pollCreate c => Strange mine w c.sandboxId
  | .setLifecyclePolicy c _ => Strange mine w c.sandboxId
  | .exec c _ => Strange mine w c.sandboxId
  | .beginDelete c => Strange mine w c.sandboxId
  | .beginCreate _ _ => mine t = false
  | _ => True

variable {cfg u mine} {x : SessionCtx} {id : String} {rep : Nat → Nat} {t : Nat} {o : Op} {r : Except Exc o.Ans} {h : Hint}
  {w w' w₂ : World} {e : Env}

theorem index_unseen {w : World} (hs : Strange mine w id) : ¬ Visible cfg u mine w (indexKey cfg id) := by
  rintro (h | h | ⟨x,-,h | h⟩ | ⟨i,hi,h | h⟩)
  · exact key_ne (by simp) h
  · exact key_ne (by simp) h
  · exact key_ne (by simp) h
  · exact lockKey_ne (head_indexKey cfg id) h.symm
  · exact hi (indexKey_injective cfg h ▸ hs)
  · exact key_ne (by simp) h

theorem flag_unseen {w : World} (hs : Strange mine w id) : ¬ Visible cfg u mine w (flagKey cfg id) := by
  rintro (h | h | ⟨x,-,h | h⟩ | ⟨i,hi,h | h⟩)
  · exact key_ne (by simp) h
  · exact key_ne (by simp) h
  · exact key_ne (by simp) h
  · exact lockKey_ne (head_flagKey cfg id) h.symm
  · exact key_ne (by simp) h
  · exact hi (flagKey_injective cfg h ▸ hs)

theorem ctx_unseen {w : World} (hx : x.userOid ≠ some u) : ¬ Visible cfg u mine w (ctxKey cfg x) := by
  rintro (h | h | ⟨y,hy,h | h⟩ | ⟨i,hi,h | h⟩)
  · exact key_ne (by simp) h
  · exact key_ne (by simp) h
  · exact hx ((routingKey_parts (ctxKey_injective cfg h)).1.trans hy)
  · exact lockKey_ne (head_ctxKey cfg x) h.symm
  · exact key_ne (by simp) h
  · exact key_ne (by simp) h

theorem head_userKey (oid : Guid) : (userKey cfg oid).toList.head? = some 'm' := by
  simp [userKey,UserSessionCache.key,RedisBackend.k,Config.sessions]

theorem lock_unseen {w : World} (hx : x.userOid ≠ some u) : ¬ Visible cfg u mine w (lockKey x) := by
  rintro (h | h | ⟨y,hy,h | h⟩ | ⟨i,hi,h | h⟩)
  · exact lockKey_ne rfl h
  · exact lockKey_ne (head_userKey u) h
  · exact lockKey_ne (head_ctxKey cfg y) h
  · exact hx ((routingKey_parts (lockKey_injective h)).1.trans hy)
  · exact lockKey_ne (head_indexKey cfg i) h
  · exact lockKey_ne (head_flagKey cfg i) h

theorem user_unseen {w : World} {g : Guid} (hg : g ≠ u) : ¬ Visible cfg u mine w (userKey cfg g) := by
  rintro (h | h | ⟨y,hy,h | h⟩ | ⟨i,hi,h | h⟩)
  · exact key_ne (by simp) h
  · exact hg (userKey_injective cfg h)
  · exact key_ne (by simp) h
  · exact lockKey_ne (head_userKey g) h.symm
  · exact key_ne (by simp) h
  · exact key_ne (by simp) h

theorem Mirrors.other (hm : Mirrors cfg u mine w w') (hn : w₂.now = w.now) (hu : w₂.uuids = w.uuids)
    (hr : w₂.redis = w.redis) (hd : w₂.made = w.made) (hb : w₂.boxes = w.boxes) (hl : w₂.locks = w.locks) :
    Mirrors cfg u mine w₂ w' := by
  obtain ⟨now,uuids,redis,made,boxes,images,locks,disks,volumes⟩ := w₂
  subst hn hu hr hd hb hl
  exact ⟨hm.now,hm.uuids,hm.redis,hm.boxes,hm.named,hm.made,hm.locks,hm.vacant⟩

theorem Mirrors.unseen (hm : Mirrors cfg u mine w w') (hu : Unseen cfg u mine t w o.cmd) (ha : act rep t o w r h = some w₂) :
    Mirrors cfg u mine w₂ w' := by
  obtain ⟨c,b⟩ := o
  have halt : Alters rep t w c w₂ := act_alters ha
  cases halt with
  | same => exact hm
  | uuid => exact hu.elim
  | acquire hn => exact hm.lock_unseen _ hu _
  | release => exact hm.lock_unseen _ hu _
  | lockRedis hn => exact hm.store_unseen hu _ _
  | set => exact hm.store_unseen hu _ _
  | setNx hn => exact hm.store_unseen hu _ _
  | unlockRedis hl => exact hm.erase_unseen hu
  | del => exact hm.erase_unseen hu
  | evalRelease hl => exact hm.erase_unseen hu
  | create hn => exact hm.create_unseen hn hu _ _
  | ready => exact hm.modify_strange plainly_ready hu
  | gone => exact hm.modify_strange plainly_gone hu
  | policy => exact hm.modify_strange plainly_policy hu
  | bootstrapped => exact hm.modify_strange plainly_bootstrapped hu
  | deleting => exact hm.modify_strange plainly_deleting hu
  | disk => exact hm.other rfl rfl rfl rfl rfl rfl
  | volume => exact hm.other rfl rfl rfl rfl rfl rfl
  | image => exact hm.other rfl rfl rfl rfl rfl rfl

theorem healthy_error {c : Cmd} {b : Bool} {x : Exc} (hh : healthy ⟨c,b⟩ (.error x) = true) :
    (∃ k, c = .unlockRedis k ∧ x = .notOwned) ∨ (∃ d, c = .ensureRunning d ∧ x = .notFound) ∨
      (∃ d, c = .beginDelete d ∧ x = .notFound) ∨ ∃ g d, c = .createVolume g d := by
  cases c <;> first
    | cases hh
    | exact .inl ⟨_,rfl,of_decide_eq_true hh⟩
    | exact .inr (.inl ⟨_,rfl,of_decide_eq_true hh⟩)
    | exact .inr (.inr (.inl ⟨_,rfl,of_decide_eq_true hh⟩))
    | exact .inr (.inr (.inr ⟨_,_,rfl⟩))

theorem routing_plain {x : SessionCtx} : ¬ SetUpKey (routingKey x) := fun hk => setUpKey_ne hk x rfl

theorem Mirrors.deleting (hm : Mirrors cfg u mine w w') {c : Client} (hs : ¬ Strange mine w c.sandboxId) :
    (w'.boxes c.sandboxId).all (fun b => !b.deleting) = (w.boxes c.sandboxId).all (fun b => !b.deleting) := by
  rcases hm.known hs with ⟨hb,hb'⟩ | ⟨b,spec,hb,hb'⟩ <;> simp only [hb,hb',Option.all]

theorem Mirrors.act_error (hm : Mirrors cfg u mine w w') {c : Cmd} {b : Bool} {x : Exc} (hs : Seen cfg u mine w c)
    (hh : healthy ⟨c,b⟩ (.error x) = true) (ha : act rep t ⟨c,b⟩ w (.error x) h = some w₂) :
    ∃ w₂', act rep t ⟨c,b⟩ w' (.error x) h = some w₂' ∧ Mirrors cfg u mine w₂ w₂' := by
  rcases healthy_error hh with ⟨k,rfl,rfl⟩ | ⟨d,rfl,rfl⟩ | ⟨d,rfl,rfl⟩ | ⟨g,d,rfl⟩
  · simp only [act] at ha ⊢
    rw [hm.lookup hs]
    split at ha
    · cases ha
    · rename_i hl
      cases ha
      exact ⟨w',if_neg hl,hm⟩
  · simp only [act,if_true] at ha ⊢
    rw [hm.present hs,hm.deleting hs]
    split at ha
    · cases ha
    · rename_i hl
      cases ha
      exact ⟨w',if_neg hl,hm⟩
  · simp only [act,if_true] at ha ⊢
    rw [hm.present hs]
    split at ha
    · cases ha
    · rename_i hl
      cases ha
      exact ⟨w',if_neg hl,hm⟩
  · exact hs.elim

-- What the user's task does in the whole world, it does in its part.
theorem Mirrors.act_ok (hm : Mirrors cfg u mine w w') {c : Cmd} {b : Bool} {a : c.Ans} (hs : Seen cfg u mine w c)
    (ha : act rep t ⟨c,b⟩ w (.ok a) h = some w₂) :
    ∃ w₂', act rep t ⟨c,b⟩ w' (.ok a) h = some w₂' ∧ Mirrors cfg u mine w₂ w₂' := by
  cases c with
  | clock =>
    simp only [act,Option.ite_none_right_eq_some,Option.some.injEq] at ha ⊢
    obtain ⟨hn,rfl⟩ := ha
    exact ⟨w',⟨by rwa [hm.now],rfl⟩,hm⟩
  | uuid =>
    simp only [act,Option.ite_none_right_eq_some,Option.some.injEq] at ha ⊢
    obtain ⟨hn,rfl⟩ := ha
    exact ⟨_,⟨by rwa [hm.uuids],rfl⟩,hm.now,congrArg (· + 1) hm.uuids,hm.redis,hm.boxes,hm.named,hm.made,hm.locks,hm.vacant⟩
  | acquire k =>
    obtain ⟨x,hx,rfl⟩ := hs
    simp only [act,Option.ite_none_right_eq_some,Option.some.injEq] at ha ⊢
    obtain ⟨hn,rfl⟩ := ha
    exact ⟨_,⟨by rwa [hm.locks _ x hx],rfl⟩,hm.lock _ routing_plain _⟩
  | release k =>
    obtain ⟨x,hx,rfl⟩ := hs
    cases ha
    exact ⟨_,rfl,hm.lock _ routing_plain _⟩
  | lockRedis k ttl =>
    simp only [act] at ha ⊢
    rw [hm.lookup hs]
    split at ha
    · rename_i hgot
      rw [if_pos hgot]
      simp only [Option.ite_none_right_eq_some,Option.some.injEq] at ha ⊢
      obtain ⟨hn,rfl⟩ := ha
      exact ⟨_,⟨hn,rfl⟩,hm.store _ _ _⟩
    · rename_i hgot
      cases ha
      exact ⟨w',if_neg hgot,hm⟩
  | unlockRedis k =>
    simp only [act,Option.ite_none_right_eq_some,Option.some.injEq] at ha ⊢
    obtain ⟨hl,rfl⟩ := ha
    exact ⟨_,⟨by rwa [hm.lookup hs],rfl⟩,hm.erase _⟩
  | get k =>
    simp only [act,Option.ite_none_right_eq_some,Option.some.injEq] at ha ⊢
    obtain ⟨hl,rfl⟩ := ha
    exact ⟨w',⟨by rwa [hm.lookup hs],rfl⟩,hm⟩
  | set k v ex =>
    cases ha
    exact ⟨_,rfl,hm.store _ _ _⟩
  | del k =>
    cases ha
    exact ⟨_,rfl,hm.erase _⟩
  | setNx k v ex =>
    simp only [act,Option.ite_none_right_eq_some,Option.some.injEq] at ha ⊢
    obtain ⟨hgot,rfl⟩ := ha
    refine ⟨_,⟨by rwa [hm.lookup hs],rfl⟩,?_⟩
    split
    · exact hm.store _ _ _
    · exact hm
  | evalRelease k v =>
    cases ha
    refine ⟨_,rfl,?_⟩
    rw [hm.lookup hs]
    split
    · exact hm.erase _
    · exact hm
  | pollCreate c =>
    simp only [act,Option.ite_none_right_eq_some,Option.some.injEq] at ha ⊢
    obtain ⟨hp,rfl⟩ := ha
    exact ⟨_,⟨by rwa [hm.present hs],rfl⟩,hm.modify plainly_ready _⟩
  | setLifecyclePolicy c i =>
    cases ha
    exact ⟨_,rfl,hm.modify plainly_policy _⟩
  | ensureRunning c =>
    simp only [act,Option.ite_none_right_eq_some,Option.some.injEq] at ha ⊢
    obtain ⟨hp,rfl⟩ := ha
    exact ⟨w',⟨by rwa [hm.present hs],rfl⟩,hm⟩
  | exec c command =>
    simp only [act,Option.ite_none_right_eq_some,Option.some.injEq] at ha ⊢
    obtain ⟨hp,rfl⟩ := ha
    refine ⟨_,⟨by rwa [hm.present hs],rfl⟩,?_⟩
    split
    · exact hm.modify plainly_bootstrapped _
    · exact hm
  | beginDelete c =>
    simp only [act,Option.ite_none_right_eq_some,Option.some.injEq] at ha ⊢
    obtain ⟨hp,rfl⟩ := ha
    exact ⟨_,⟨by rwa [hm.present hs],rfl⟩,hm.modify plainly_deleting _⟩
  | _ => exact hs.elim

theorem Mirrors.act (hm : Mirrors cfg u mine w w') (hs : Seen cfg u mine w o.cmd) (hh : healthy o r = true)
    (ha : IdentityAwareMcp.act rep t o w r h = some w₂) :
    ∃ w₂', IdentityAwareMcp.act rep t o w' r h = some w₂' ∧ Mirrors cfg u mine w₂ w₂' := by
  cases r with
  | ok a => exact hm.act_ok hs ha
  | error x => exact hm.act_error hs hh ha

-- Time passes for everybody; what happens to another user's sandbox is not shown.
theorem Mirrors.env (hm : Mirrors cfg u mine w w') (he : env e w = some w₂) : Mirrors cfg u mine w₂ w' ∨
    ∃ w₂', IdentityAwareMcp.env e w' = some w₂' ∧ Mirrors cfg u mine w₂ w₂' := by
  have hbox : ∀ {i : String} {f : Box → Box} {b : Box}, Plainly f → w.boxes i = some b → w.putBox i (f b) = w₂ →
      Mirrors cfg u mine w₂ w' ∨ ∃ spec, w'.boxes i = some { b with spec := spec } ∧
        Mirrors cfg u mine w₂ (w'.putBox i (f { b with spec := spec })) := by
    intro i f b hf hb hw
    have hw : w.modifyBox i f = w₂ := by simpa only [World.modifyBox,hb] using hw
    subst hw
    by_cases hs : Strange mine w i
    · exact .inl (hm.modify_strange hf hs)
    · rcases hm.known hs with ⟨hn,-⟩ | ⟨b',spec,hb₁,hb'⟩
      · rw [hb] at hn
        cases hn
      · cases hb.symm.trans hb₁
        refine .inr ⟨spec,hb',?_⟩
        have hall := hm.modify hf i
        rwa [show w'.modifyBox i f = w'.putBox i (f { b with spec := spec }) by simp only [World.modifyBox,hb']] at hall
  cases e with
  | tick ms =>
    cases he
    exact .inr ⟨_,rfl,congrArg (· + ms) hm.now,hm.uuids,hm.redis,hm.boxes,hm.named,hm.made,hm.locks,hm.vacant⟩
  | imageState i state =>
    cases he
    exact .inl (hm.other rfl rfl rfl rfl rfl rfl)
  | built i =>
    simp only [IdentityAwareMcp.env] at he ⊢
    split at he
    · rename_i b hb
      split at he
      · cases he
      · rename_i hgone
        cases he
        rcases hbox plainly_ready hb rfl with h | ⟨spec,hb',h⟩
        · exact .inl h
        · exact .inr ⟨_,by rw [hb']; exact if_neg hgone,h⟩
    · cases he
  | vanish i =>
    simp only [IdentityAwareMcp.env] at he ⊢
    split at he
    · rename_i b hb
      cases he
      rcases hbox plainly_gone hb rfl with h | ⟨spec,hb',h⟩
      · exact .inl h
      · exact .inr ⟨_,by rw [hb'],h⟩
    · cases he

end Steps

end IdentityAwareMcp
