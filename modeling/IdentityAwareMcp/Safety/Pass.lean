import IdentityAwareMcp.Coop.Alone
import IdentityAwareMcp.Safety.Reaper

namespace IdentityAwareMcp

open Coop SandboxManager

section Sweeping

variable {α : Type} {o o' f : α → Prop} {ids l : List α} {x z : α}

-- A walk along a list that acts on some elements, on each of them once, and ends at the first one where it fails.
inductive Swept (f : α → Prop) : (α → Prop) → List α → List α → Prop
  | nil {o : α → Prop} : Swept f o [] []
  | skip {o : α → Prop} {x : α} {ids l : List α} : ¬ o x → Swept f o ids l → Swept f o (x :: ids) l
  | go {o : α → Prop} {x : α} {ids l : List α} : o x → ¬ f x → Swept f (fun y => o y ∧ y ≠ x) ids l →
      Swept f o (x :: ids) (x :: l)
  | stop {o : α → Prop} {x : α} {ids : List α} : o x → f x → Swept f o (x :: ids) [x]

-- Somewhere in the list x stands with no element before it where such a walk fails.
def Reached (o f : α → Prop) (ids : List α) (x : α) : Prop := ∃ a b, ids = a ++ x :: b ∧ ∀ y ∈ a, o y → ¬ f y

theorem Swept.congr (h : Swept f o ids l) (ho : ∀ x, o x ↔ o' x) : Swept f o' ids l := by
  rwa [← funext (fun x => propext (ho x))]

theorem Reached.congr (h : Reached o f ids x) (ho : ∀ y ∈ ids, f y → o' y → o y) : Reached o' f ids x := by
  obtain ⟨a,b,rfl,ha⟩ := h
  exact ⟨a,b,rfl,fun y hy hoy hfy => ha y hy (ho y (by simp [hy]) hfy hoy) hfy⟩

end Sweeping

variable (cfg : Config) {rep : Nat → Nat} {t : Nat}

def requests (tr : Task.Played Op Op.Ans Exc) : List String :=
  tr.filterMap (fun x => match x.1.cmd with
    | .beginDelete c => some c.sandboxId
    | _ => none)

-- The listings that the platform answered.
def listings (tr : Task.Played Op Op.Ans Exc) : List (List String) :=
  tr.filterMap (fun x => match x with
    | ⟨⟨.listSandboxes _,_⟩,.ok ids⟩ => some ids
    | _ => none)

-- Between two calls the platform may do anything; neither what Redis holds nor the clock changes.
def SameStore (w w₁ : World) : Prop := w₁.redis = w.redis ∧ w₁.now = w.now

-- Redis and the listings answer; a deletion fails for the sandboxes of F and no others.
def Reported (F : Client → Prop) (x : Σ o : Op, Except Exc o.Ans) : Prop :=
  match x with
  | ⟨⟨.beginDelete c,_⟩,r⟩ =>
    (F c ∧ ∃ e, r = .error e ∧ e ≠ .notFound ∧ e.isException = true) ∨ ¬ F c ∧ ∀ e, r = .error e → e = .notFound
  | ⟨_,r⟩ => r.isOk = true

-- Reading, listing, deleting a sandbox of P and dropping its index entry.
def Reaps (P : String → Prop) : Cmd → Prop
  | .get _ => True
  | .listSandboxes _ => True
  | .beginDelete c => P c.sandboxId
  | .del k => ∃ id, k = indexKey cfg id ∧ P id
  | _ => False

structure Drops (F : String → Prop) (l : List String) (w w' : World) : Prop where
  now : w'.now = w.now
  gone : ∀ id ∈ l, ¬ F id → w'.redis (indexKey cfg id) = none
  kept : ∀ k, (∀ id ∈ l, ¬ F id → k ≠ indexKey cfg id) → w'.redis k = w.redis k

section Spec

variable {cfg} {F : String → Prop} {G : Client → Prop} {drift : World → World → Prop} {w w₁ w' : World}
  {tr tr₁ tr₂ : Task.Played Op Op.Ans Exc} {id g : String} {l l' : List String}
  {lists lists' : List (List String)}

theorem Drops.refl (h : w'.redis = w.redis) (hn : w'.now = w.now) : Drops cfg F [] w w' :=
  ⟨hn,by simp,fun k _ => congrFun h k⟩

theorem other_entry (hl : ¬ (id ∈ l ∧ ¬ F id)) : ∀ i ∈ l, ¬ F i → indexKey cfg id ≠ indexKey cfg i := by
  intro i hi hf he
  cases indexKey_injective cfg he
  exact hl ⟨hi,hf⟩

theorem Drops.trans (h : Drops cfg F l w w₁) (h' : Drops cfg F l' w₁ w') : Drops cfg F (l ++ l') w w' where
  now := h'.now.trans h.now
  gone := by
    intro id hid hf
    by_cases hl : id ∈ l'
    · exact h'.gone id hl hf
    · rw [h'.kept _ (other_entry (fun hx => hl hx.1))]
      exact h.gone id ((List.mem_append.mp hid).resolve_right hl) hf
  kept := by
    intro k hk
    rw [h'.kept k (fun i hi => hk i (List.mem_append_right _ hi)),h.kept k (fun i hi => hk i (List.mem_append_left _ hi))]

theorem Drops.lookup (h : Drops cfg F l w w') {k : String} (hk : ∀ id ∈ l, ¬ F id → k ≠ indexKey cfg id) :
    w'.lookup k = w.lookup k := lookup_congr (h.kept k hk) h.now

theorem session_ne_index {oid s : Option String} {gr : String} : sessionKey cfg oid s gr ≠ indexKey cfg id :=
  key_ne (by simp)

theorem reported_ok {c : Cmd} {b : Bool} {r : Except Exc c.Ans} (h : Reported G ⟨⟨c,b⟩,r⟩) (hc : ∀ x, c ≠ .beginDelete x) :
    ∃ a, r = .ok a := by
  have hok : r.isOk = true := by
    cases c <;> first | exact h | exact absurd rfl (hc _)
  cases r with
  | ok a => exact ⟨a,rfl⟩
  | error e => cases hok

theorem alone_act {c : Cmd} {r : Except Exc c.Ans} (ha : (machine rep).Alone drift t w (perform c) tr w' r) :
    ∃ w₁ h, drift w w₁ ∧ act rep t ⟨c,false⟩ w₁ r h = some w' ∧ tr = [⟨⟨c,false⟩,r⟩] := Machine.alone_perform ha

theorem alone_get {k : String} {r : Except Exc (Option Value)}
    (ha : (machine rep).Alone drift t w (perform (.get k)) tr w' r) (hf : ∀ x ∈ tr, Reported G x) :
    ∃ w₁, drift w w₁ ∧ w' = w₁ ∧ r = .ok (w₁.lookup k) ∧ tr = [⟨⟨.get k,false⟩,r⟩] := by
  obtain ⟨w₁,h,hd,hact,rfl⟩ := alone_act ha
  obtain ⟨v,rfl⟩ := reported_ok (hf _ List.mem_cons_self) (by simp)
  obtain ⟨rfl,rfl⟩ := act_get hact
  exact ⟨_,hd,rfl,rfl,rfl⟩

theorem alone_del {k : String} {r : Except Exc Unit}
    (ha : (machine rep).Alone drift t w (perform (.del k)) tr w' r) (hf : ∀ x ∈ tr, Reported G x) :
    ∃ w₁, drift w w₁ ∧ w' = w₁.erase k ∧ r = .ok () ∧ tr = [⟨⟨.del k,false⟩,r⟩] := by
  obtain ⟨w₁,h,hd,hact,rfl⟩ := alone_act ha
  obtain ⟨v,rfl⟩ := reported_ok (hf _ List.mem_cons_self) (by simp)
  cases hact
  exact ⟨w₁,hd,rfl,rfl,rfl⟩

-- A deletion, where a sandbox that is not there counts as deleted.
theorem alone_kill {c : Client} {r : Except Exc Unit}
    (ha : (machine rep).Alone drift t w ((perform (.beginDelete c)).handle (fun e =>
      if e = .notFound then .ret () else .raise e)) tr w' r) (hf : ∀ x ∈ tr, Reported G x) :
    ∃ w₁ r', drift w w₁ ∧ (w' = w₁ ∨ w' = w₁.modifyBox c.sandboxId (fun b => { b with deleting := true })) ∧
      tr = [⟨⟨.beginDelete c,false⟩,r'⟩] ∧
      ((G c ∧ ∃ e, r = .error e ∧ e.isException = true) ∨ ¬ G c ∧ r = .ok ()) := by
  rcases Machine.alone_handle ha with ⟨_,hp,rfl⟩ | ⟨tr₁,tr₂,w₁,e,rfl,hp,hh⟩
  · obtain ⟨w₁,h,hd,hact,rfl⟩ := alone_act hp
    refine ⟨w₁,_,hd,act_deletes hact,rfl,?_⟩
    rcases hf _ List.mem_cons_self with ⟨_,_,he,_⟩ | ⟨hnf,_⟩
    · cases he
    · exact .inr ⟨hnf,rfl⟩
  · obtain ⟨w₂,h,hd,hact,rfl⟩ := alone_act hp
    rcases hf _ List.mem_cons_self with ⟨hx,e',he,hne,hexc⟩ | ⟨hnf,hall⟩
    · cases he
      rw [if_neg hne] at hh
      obtain ⟨rfl,rfl,rfl⟩ := Machine.alone_raise hh
      exact ⟨w₂,_,hd,act_deletes hact,rfl,.inl ⟨hx,_,rfl,hexc⟩⟩
    · rw [if_pos (hall e rfl)] at hh
      obtain ⟨rfl,rfl,rfl⟩ := Machine.alone_ret hh
      exact ⟨w₂,_,hd,act_deletes hact,rfl,.inr ⟨hnf,rfl⟩⟩

theorem alone_peek {b : RedisBackend} {oid s : Option String} {gr : String} {r : Except Exc (Option String)}
    (ha : (machine rep).Alone drift t w (SessionSandboxCache.peek b oid s gr) tr w' r) (hf : ∀ x ∈ tr, Reported G x) :
    drift w w' ∧ r = .ok ((w'.lookup (b.k (SessionSandboxCache.key oid s gr))).bind Value.asText) ∧
      tr = [⟨⟨.get (b.k (SessionSandboxCache.key oid s gr)),false⟩,.ok (w'.lookup (b.k (SessionSandboxCache.key oid s gr)))⟩] := by
  rcases Machine.alone_bind ha with ⟨tr₁,tr₂,w₁,v,rfl,hget,hret⟩ | ⟨e,hget,rfl⟩
  · obtain ⟨rfl,rfl,rfl⟩ := Machine.alone_ret hret
    obtain ⟨w₂,hd,rfl,hv,rfl⟩ := alone_get hget (fun x hx => hf x (List.mem_append_left _ hx))
    cases hv
    exact ⟨hd,rfl,rfl⟩
  · obtain ⟨w₂,hd,rfl,hv,rfl⟩ := alone_get hget hf
    cases hv

theorem Reaps.mono {P Q : String → Prop} (hpq : ∀ id, P id → Q id) {c : Cmd} (h : Reaps cfg P c) : Reaps cfg Q c := by
  cases c with
  | get k => trivial
  | listSandboxes g => trivial
  | beginDelete c => exact hpq _ h
  | del k =>
    obtain ⟨id,hk,hp⟩ := h
    exact ⟨id,hk,hpq id hp⟩
  | _ => exact h.elim

structure Reaped (cfg : Config) (F : String → Prop) (lists : List (List String)) (l : List String) (w : World)
    (tr : Task.Played Op Op.Ans Exc) (w' : World) : Prop where
  listings : listings tr = lists
  requests : requests tr = l
  reaps : ∀ x ∈ tr, Reaps cfg (· ∈ l) x.1.cmd
  drops : Drops cfg F l w w'

theorem Reaped.nil : Reaped cfg F [] [] w [] w := ⟨rfl,rfl,by simp,.refl rfl rfl⟩

theorem Reaped.read {k : String} {r : Except Exc (Option Value)} (h : SameStore w w') :
    Reaped cfg F [] [] w [⟨⟨.get k,false⟩,r⟩] w' :=
  ⟨rfl,rfl,fun x hx => by rw [List.mem_singleton.mp hx]; trivial,.refl h.1 h.2⟩

theorem Reaped.list {ids : List String} (h : SameStore w w') :
    Reaped cfg F [ids] [] w [⟨⟨.listSandboxes g,false⟩,.ok ids⟩] w' :=
  ⟨rfl,rfl,fun x hx => by rw [List.mem_singleton.mp hx]; trivial,.refl h.1 h.2⟩

theorem killed_same (hbox : w' = w₁ ∨ w' = w₁.modifyBox id (fun b => { b with deleting := true })) (hd : SameStore w w₁) :
    SameStore w w' := by
  rcases hbox with rfl | rfl
  · exact hd
  · exact ⟨(modifyBox_redis _ _).trans hd.1,(modifyBox_now _ _).trans hd.2⟩

section Exactly

variable {r : Except Exc Unit}

end Exactly

end Spec

section Schedules

def leftSpec : Spec := sampleSpec sampleConfig (sampleCtx "s1" .diagnose)

def leftBinding : Value := .binding none (some "s1") "diagnose"

def plain (c : Cmd) (r : Except Exc c.Ans) : Σ o : Op, Except Exc o.Ans × Hint := ⟨⟨c,false⟩,r,⟨false,""⟩⟩

end Schedules

end IdentityAwareMcp
