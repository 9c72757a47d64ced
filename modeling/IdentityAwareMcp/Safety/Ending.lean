import IdentityAwareMcp.Safety.Pass

namespace IdentityAwareMcp

open Coop SandboxManager

section Spec

variable (cfg : Config) (oid : Option Guid) (sid : Option String)

def forwardKey (g : Group) : String := sessionKey cfg (oidText oid) sid g.name

def Routed (w : World) (g : Group) (id : String) : Prop := w.lookup (forwardKey cfg oid sid g) = some (.text id)

def deletions (tr : Task.Played Op Op.Ans Exc) : List Client :=
  tr.filterMap (fun x => match x.1.cmd with
    | .beginDelete c => some c
    | _ => none)

structure EndsSafely (F : Client → Prop) (w : World) (tr : Task.Played Op Op.Ans Exc) (w' : World) : Prop where
  requested : ∀ g id, Routed cfg oid sid w g id → ⟨cfg.groupNames g,id⟩ ∈ deletions tr
  unrouted : ∀ g id, ¬ Routed cfg oid sid w' g id
  kept : ∀ g id, Routed cfg oid sid w g id → F ⟨cfg.groupNames g,id⟩ → w'.redis (indexKey cfg id) = w.redis (indexKey cfg id)

-- A deletion that fails concerns a sandbox without an index entry, and the last one of the session.
def FailsBare (F : Client → Prop) (w : World) : Prop :=
  ∀ g id, Routed cfg oid sid w g id → F ⟨cfg.groupNames g,id⟩ →
    (cfg.index = true → w.redis (indexKey cfg id) = none) ∧ (g = .diagnose → ∀ id', ¬ Routed cfg oid sid w .action id')

def SafeFor (F : Client → Prop) (w : World) (tr : Task.Played Op Op.Ans Exc) (w' : World) (g : Group) : Prop :=
  (∀ id, Routed cfg oid sid w g id → ⟨cfg.groupNames g,id⟩ ∈ deletions tr ∧
    (F ⟨cfg.groupNames g,id⟩ → w'.redis (indexKey cfg id) = w.redis (indexKey cfg id))) ∧ ∀ id, ¬ Routed cfg oid sid w' g id

def BareFor (F : Client → Prop) (w : World) (g : Group) : Prop :=
  ∀ id, Routed cfg oid sid w g id → F ⟨cfg.groupNames g,id⟩ →
    (cfg.index = true → w.redis (indexKey cfg id) = none) ∧ (g = .diagnose → ∀ id', ¬ Routed cfg oid sid w .action id')

-- What ending one group leaves of the store.
structure Forgets (g : Group) (id : String) (w w' : World) : Prop where
  now : w'.now = w.now
  forward : w'.redis (forwardKey cfg oid sid g) = none
  index : cfg.index = true → w'.redis (indexKey cfg id) = none
  kept : ∀ k, k ≠ forwardKey cfg oid sid g → (cfg.index = true → k ≠ indexKey cfg id) → w'.redis k = w.redis k

variable {cfg oid sid} {rep : Nat → Nat} {t : Nat} {G : Client → Prop} {w w₁ w' : World}
  {tr tr₁ tr₂ : Task.Played Op Op.Ans Exc} {id : String} {g : Group} {r : Except Exc Unit}

theorem deletions_append : deletions (tr₁ ++ tr₂) = deletions tr₁ ++ deletions tr₂ := List.filterMap_append

theorem forward_ne_index : forwardKey cfg oid sid g ≠ indexKey cfg id := session_ne_index

theorem endOne_alone (ha : (machine rep).Alone Eq t w (Task.ensuring
      ((perform (.beginDelete ⟨cfg.groupNames g,id⟩)).handle (fun e => if e = .notFound then .ret () else .raise e))
      (do
        SessionSandboxCache.delete cfg.sessions (oidText oid) sid g.name
        if cfg.index then cfg.indexBackend.delete id)) tr w' r) (hf : ∀ x ∈ tr, Reported G x) :
    deletions tr = [⟨cfg.groupNames g,id⟩] ∧ Forgets cfg oid sid g id w w' ∧
      (G ⟨cfg.groupNames g,id⟩ ∧ (∃ e, r = .error e) ∨ ¬ G ⟨cfg.groupNames g,id⟩ ∧ r = .ok ()) := by
  obtain ⟨tr₁,tr₂,w₁,r₁,rfl,hkill,hfin⟩ := Machine.alone_ensuring ha
  obtain ⟨_,r',rfl,hbox,rfl,hout⟩ := alone_kill hkill (fun x hx => hf x (List.mem_append_left _ hx))
  obtain ⟨hr,hn⟩ := killed_same hbox ⟨rfl,rfl⟩
  have hf₂ : ∀ x ∈ tr₂, Reported G x := fun x hx => hf x (List.mem_append_right _ hx)
  have hdel : ∀ {r : Except Exc Unit}, (machine rep).Alone Eq t w₁ (do
        SessionSandboxCache.delete cfg.sessions (oidText oid) sid g.name
        if cfg.index then cfg.indexBackend.delete id) tr₂ w' r →
      deletions tr₂ = [] ∧ Forgets cfg oid sid g id w w' ∧ r = .ok () := by
    intro r h
    rcases Machine.alone_bind h with ⟨tr₃,tr₄,w₃,u,rfl,hforward,hindex⟩ | ⟨e,hforward,rfl⟩
    · obtain ⟨_,rfl,rfl,-,rfl⟩ := alone_del hforward (fun x hx => hf₂ x (List.mem_append_left _ hx))
      have hgone : (w₁.erase (forwardKey cfg oid sid g)).redis (forwardKey cfg oid sid g) = none := upd_same _ _ _
      have hsame : ∀ k, k ≠ forwardKey cfg oid sid g → (w₁.erase (forwardKey cfg oid sid g)).redis k = w.redis k :=
        fun k hk => (erase_other hk).trans (congrFun hr k)
      split at hindex
      · rename_i hi
        obtain ⟨_,rfl,rfl,rfl,rfl⟩ := alone_del hindex (fun x hx => hf₂ x (List.mem_append_right _ hx))
        refine ⟨rfl,⟨hn,?_,fun _ => upd_same _ _ _,fun k hk hki => ?_⟩,rfl⟩
        · exact (erase_other forward_ne_index).trans hgone
        · exact (erase_other (hki hi)).trans (hsame k hk)
      · rename_i hi
        obtain ⟨rfl,rfl,rfl⟩ := Machine.alone_ret hindex
        exact ⟨rfl,⟨hn,hgone,fun h => absurd h hi,fun k hk _ => hsame k hk⟩,rfl⟩
    · obtain ⟨_,_,_,he,_⟩ := alone_del hforward hf₂
      cases he
  rcases hfin with ⟨hfin,rfl⟩ | ⟨e,hfin,rfl⟩
  · obtain ⟨hd,hforgets,-⟩ := hdel hfin
    refine ⟨by rw [deletions_append,hd]; rfl,hforgets,?_⟩
    exact hout.imp_left (fun h => ⟨h.1,h.2.imp (fun _ he => he.1)⟩)
  · obtain ⟨-,-,he⟩ := hdel hfin
    cases he

theorem endGroups_alone {rest : List Group} (ha : (machine rep).Alone Eq t w (endGroups cfg oid sid (g :: rest)) tr w' r)
    (hf : ∀ x ∈ tr, Reported G x) :
    (∀ id, ¬ Routed cfg oid sid w g id) ∧ (∃ tr₁, (machine rep).Alone Eq t w (endGroups cfg oid sid rest) tr₁ w' r ∧
        (∀ x ∈ tr₁, Reported G x) ∧ deletions tr = deletions tr₁) ∨
      ∃ id, Routed cfg oid sid w g id ∧ (G ⟨cfg.groupNames g,id⟩ ∧ deletions tr = [⟨cfg.groupNames g,id⟩] ∧
          Forgets cfg oid sid g id w w' ∨
        ¬ G ⟨cfg.groupNames g,id⟩ ∧ ∃ w₁ tr₁, Forgets cfg oid sid g id w w₁ ∧
          (machine rep).Alone Eq t w₁ (endGroups cfg oid sid rest) tr₁ w' r ∧ (∀ x ∈ tr₁, Reported G x) ∧
          deletions tr = ⟨cfg.groupNames g,id⟩ :: deletions tr₁) := by
  unfold endGroups at ha
  rcases Machine.alone_bind ha with ⟨tr₁,tr₂,w₁,live,rfl,hpeek,hrest⟩ | ⟨e,hpeek,rfl⟩
  · obtain ⟨rfl,hlive,rfl⟩ := alone_peek hpeek (fun x hx => hf x (List.mem_append_left _ hx))
    cases hlive
    have hf₂ : ∀ x ∈ tr₂, Reported G x := fun x hx => hf x (List.mem_append_right _ hx)
    split at hrest
    · rename_i hnone
      refine .inl ⟨fun id hid => ?_,tr₂,hrest,hf₂,rfl⟩
      rw [show w.lookup (cfg.sessions.k (SessionSandboxCache.key (oidText oid) sid g.name)) = some (.text id) from hid] at hnone
      cases hnone
    · rename_i id hsome
      refine .inr ⟨id,asText_some hsome,?_⟩
      rcases Machine.alone_bind hrest with ⟨tr₃,tr₄,w₃,u,rfl,hone,hgo⟩ | ⟨e,hone,rfl⟩
      · obtain ⟨hd,hforgets,⟨_,_,he⟩ | ⟨hng,-⟩⟩ := endOne_alone hone (fun x hx => hf₂ x (List.mem_append_left _ hx))
        · cases he
        · refine .inr ⟨hng,w₃,tr₄,hforgets,hgo,fun x hx => hf₂ x (List.mem_append_right _ hx),?_⟩
          rw [deletions_append,deletions_append,hd]
          rfl
      · obtain ⟨hd,hforgets,⟨hg,-⟩ | ⟨-,he⟩⟩ := endOne_alone hone hf₂
        · refine .inl ⟨hg,?_,hforgets⟩
          rw [deletions_append,hd]
          rfl
        · cases he
  · obtain ⟨_,hlive,_⟩ := alone_peek hpeek hf
    cases hlive

theorem endLast_alone (ha : (machine rep).Alone Eq t w (endGroups cfg oid sid [g]) tr w' r) (hf : ∀ x ∈ tr, Reported G x) :
    (∀ id, ¬ Routed cfg oid sid w g id) ∧ w' = w ∧ deletions tr = [] ∨
      ∃ id, Routed cfg oid sid w g id ∧ deletions tr = [⟨cfg.groupNames g,id⟩] ∧ Forgets cfg oid sid g id w w' := by
  rcases endGroups_alone ha hf with ⟨hno,tr₁,hend,-,hd⟩ | ⟨id,hid,⟨-,hd,hforgets⟩ | ⟨-,w₁,tr₁,hforgets,hend,-,hd⟩⟩
  · obtain ⟨rfl,rfl,-⟩ := Machine.alone_ret hend
    exact .inl ⟨hno,rfl,hd⟩
  · exact .inr ⟨id,hid,hd,hforgets⟩
  · obtain ⟨rfl,rfl,-⟩ := Machine.alone_ret hend
    exact .inr ⟨id,hid,hd,hforgets⟩

theorem Routed.unique {i : String} (h : Routed cfg oid sid w g id) (h' : Routed cfg oid sid w g i) : id = i := by
  have he : some (Value.text id) = some (.text i) := h.symm.trans h'
  cases he
  rfl

theorem Forgets.unrouted (h : Forgets cfg oid sid g id w w') (i : String) : ¬ Routed cfg oid sid w' g i := by
  intro hi
  simp only [Routed,World.lookup,h.forward] at hi
  cases hi

theorem Forgets.routed (h : Forgets cfg oid sid g id w w') {g' : Group} (hg : g' ≠ g) {i : String} :
    Routed cfg oid sid w' g' i ↔ Routed cfg oid sid w g' i := by
  have hkey : forwardKey cfg oid sid g' ≠ forwardKey cfg oid sid g := fun he => hg (sessionKey_parts cfg he).2.2
  rw [Routed,Routed,lookup_congr (h.kept _ hkey (fun _ => forward_ne_index)) h.now]

theorem Forgets.entry (h : Forgets cfg oid sid g id w w') :
    w'.redis (indexKey cfg id) = w.redis (indexKey cfg id) ↔ (cfg.index = true → w.redis (indexKey cfg id) = none) := by
  by_cases hi : cfg.index = true
  · rw [h.index hi]
    exact ⟨fun he _ => he.symm,fun he => (he hi).symm⟩
  · exact ⟨fun _ h => absurd h hi,fun _ => h.kept _ forward_ne_index.symm (fun h => absurd h hi)⟩

theorem Forgets.entry_after {g' : Group} {i : String} (h : Forgets cfg oid sid g id w w₁)
    (h' : Forgets cfg oid sid g' i w₁ w') :
    w'.redis (indexKey cfg i) = w.redis (indexKey cfg i) ↔ (cfg.index = true → w.redis (indexKey cfg i) = none) := by
  by_cases hi : cfg.index = true
  · rw [h'.index hi]
    exact ⟨fun he _ => he.symm,fun he => (he hi).symm⟩
  · refine ⟨fun _ h => absurd h hi,fun _ => ?_⟩
    rw [h'.kept _ forward_ne_index.symm (fun h => absurd h hi),h.kept _ forward_ne_index.symm (fun h => absurd h hi)]

end Spec

section Ending

variable {cfg : Config} {oid : Option Guid} {sid : Option String} {rep : Nat → Nat} {t : Nat} {w w' : World}
  {tr : Task.Played Op Op.Ans Exc} {r : Except Exc Unit} {F : Client → Prop} {g : Group} {id : String} {P : Prop}

theorem every_group {P : Group → Prop} : (∀ g, P g) ↔ P .diagnose ∧ P .action := by
  refine ⟨fun h => ⟨h _,h _⟩,fun h g => ?_⟩
  cases g with
  | diagnose => exact h.1
  | action => exact h.2

theorem endsSafely_groups : EndsSafely cfg oid sid F w tr w' ↔ ∀ g, SafeFor cfg oid sid F w tr w' g :=
  ⟨fun h g => ⟨fun id hid => ⟨h.requested g id hid,h.kept g id hid⟩,h.unrouted g⟩,
    fun h => ⟨fun g id hid => ((h g).1 id hid).1,fun g => (h g).2,fun g id hid => ((h g).1 id hid).2⟩⟩

theorem safe_unrouted (hno : ∀ id, ¬ Routed cfg oid sid w g id) :
    SafeFor cfg oid sid F w tr w' g ↔ ∀ id, ¬ Routed cfg oid sid w' g id :=
  ⟨fun h => h.2,fun h => ⟨fun id hid => absurd hid (hno id),h⟩⟩

theorem bare_unrouted (hno : ∀ id, ¬ Routed cfg oid sid w g id) : BareFor cfg oid sid F w g :=
  fun id hid => absurd hid (hno id)

theorem safe_routed (hid : Routed cfg oid sid w g id) (hmem : ⟨cfg.groupNames g,id⟩ ∈ deletions tr)
    (hno : ∀ id, ¬ Routed cfg oid sid w' g id) (hentry : w'.redis (indexKey cfg id) = w.redis (indexKey cfg id) ↔ P) :
    SafeFor cfg oid sid F w tr w' g ↔ (F ⟨cfg.groupNames g,id⟩ → P) := by
  refine ⟨fun h hf => hentry.mp ((h.1 id hid).2 hf),fun h => ⟨fun i hi => ?_,hno⟩⟩
  cases hid.unique hi
  exact ⟨hmem,fun hf => hentry.mpr (h hf)⟩

theorem bare_routed (hid : Routed cfg oid sid w g id) : BareFor cfg oid sid F w g ↔ (F ⟨cfg.groupNames g,id⟩ →
    (cfg.index = true → w.redis (indexKey cfg id) = none) ∧ (g = .diagnose → ∀ id', ¬ Routed cfg oid sid w .action id')) := by
  refine ⟨fun h => h id hid,fun h i hi => ?_⟩
  cases hid.unique hi
  exact h

-- The first deletion that fails ends the loop, and each takes the index entry with it.
theorem end_session_safe (F : Client → Prop) (ha : (machine rep).Alone Eq t w (endSession cfg oid sid) tr w' r)
    (hf : ∀ x ∈ tr, Reported F x) : EndsSafely cfg oid sid F w tr w' ↔ FailsBare cfg oid sid F w := by
  have hother : Group.action ≠ .diagnose := by decide
  rw [endsSafely_groups,show FailsBare cfg oid sid F w ↔ ∀ g, BareFor cfg oid sid F w g from Iff.rfl,every_group,every_group]
  rcases endGroups_alone ha hf with ⟨hno,tr₁,hend,hf₁,hd⟩ | ⟨x,hx,⟨hfx,hd,hforgets⟩ | ⟨hfx,w₁,tr₁,hforgets,hend,hf₁,hd⟩⟩
  · rcases endLast_alone hend hf₁ with ⟨hno',rfl,hd'⟩ | ⟨y,hy,hd',hforgets⟩
    · simp only [safe_unrouted hno,safe_unrouted hno',bare_unrouted hno,bare_unrouted hno',hno,hno',not_false_eq_true,
        implies_true,and_self]
    · have hafter : ∀ i, ¬ Routed cfg oid sid w' .diagnose i := fun i hi => hno i ((hforgets.routed hother.symm).mp hi)
      have hmem : ⟨cfg.groupNames .action,y⟩ ∈ deletions tr := by simp [hd,hd']
      simp only [safe_unrouted hno,safe_routed hy hmem hforgets.unrouted hforgets.entry,bare_unrouted hno,bare_routed hy,
        hafter,not_false_eq_true,implies_true,true_and,hother,false_implies,and_true]
  · have hmem : ⟨cfg.groupNames .diagnose,x⟩ ∈ deletions tr := by simp [hd]
    simp only [safe_routed hx hmem hforgets.unrouted hforgets.entry,bare_routed hx,hfx,true_implies]
    have hstays : (∀ i, ¬ Routed cfg oid sid w' .action i) ↔ ∀ i, ¬ Routed cfg oid sid w .action i :=
      forall_congr' (fun i => not_congr (hforgets.routed hother))
    refine ⟨fun h => ⟨⟨h.1,hstays.mp h.2.2⟩,bare_unrouted (hstays.mp h.2.2)⟩,fun h => ⟨h.1.1,?_⟩⟩
    exact (safe_unrouted h.1.2).mpr (hstays.mpr h.1.2)
  · have hmem : ⟨cfg.groupNames .diagnose,x⟩ ∈ deletions tr := by simp [hd]
    rcases endLast_alone hend hf₁ with ⟨hno',rfl,hd'⟩ | ⟨y,hy',hd',hforgets'⟩
    · have hno : ∀ i, ¬ Routed cfg oid sid w .action i := fun i hi => hno' i ((hforgets.routed hother).mpr hi)
      simp only [safe_routed hx hmem hforgets.unrouted hforgets.entry,bare_routed hx,hfx,false_implies,safe_unrouted hno,
        bare_unrouted hno,hno',not_false_eq_true,implies_true,and_self]
    · have hy : Routed cfg oid sid w .action y := (hforgets.routed hother).mp hy'
      have hmem' : ⟨cfg.groupNames .action,y⟩ ∈ deletions tr := by simp [hd,hd']
      have hafter : ∀ i, ¬ Routed cfg oid sid w' .diagnose i :=
        fun i hi => hforgets.unrouted i ((hforgets'.routed hother.symm).mp hi)
      simp only [safe_routed hx hmem hafter Iff.rfl,bare_routed hx,hfx,false_implies,true_and,
        safe_routed hy hmem' hforgets'.unrouted (hforgets.entry_after hforgets'),bare_routed hy,hother,and_true]

end Ending

section Schedules

def twoSandboxes : World :=
  let w := (((start sampleConfig sampleExec 0).world.create "b1" "sg-diagnose" leftSpec 0).create "b2" "sg-action" leftSpec 0)
  (((w.store (forwardKey sampleConfig none (some "s1") .diagnose) (.text "b1") (some 1800)).store
    (forwardKey sampleConfig none (some "s1") .action) (.text "b2") (some 1800)).store
      (indexKey sampleConfig "b1") leftBinding none)

def refusedEnd : List (Σ o : Op, Except Exc o.Ans × Hint) :=
  [plain (.get (forwardKey sampleConfig none (some "s1") .diagnose)) (.ok (some (.text "b1"))),
    plain (.beginDelete ⟨"sg-diagnose","b1"⟩) (.error (.http (some 500))),
    plain (.del (forwardKey sampleConfig none (some "s1") .diagnose)) (.ok ()),
    plain (.del (indexKey sampleConfig "b1")) (.ok ())]

theorem refusedEnd_alone : ∃ w', (machine id).Alone Eq 0 twoSandboxes (endSession sampleConfig none (some "s1"))
    (Machine.played refusedEnd) w' (.error (.http (some 500))) ∧ w'.lookup (forwardKey sampleConfig none (some "s1") .action) =
      some (.text "b2") ∧ w'.redis (indexKey sampleConfig "b1") = none := by
  obtain ⟨x,hx,hr⟩ : ∃ x, (machine id).alone 0 (endSession sampleConfig none (some "s1")) twoSandboxes refusedEnd = some x ∧
      (x.2,x.1.lookup (forwardKey sampleConfig none (some "s1") .action),x.1.redis (indexKey sampleConfig "b1")) =
        (.error (.http (some 500)),some (.text "b2"),none) := Option.map_eq_some_iff.mp (by decide +kernel)
  obtain ⟨w',r⟩ := x
  obtain ⟨rfl,hrest⟩ := Prod.mk.inj hr
  exact ⟨w',Machine.alone_of_play hx,Prod.mk.inj hrest⟩

def refusesFirst (c : Client) : Prop := c = ⟨"sg-diagnose","b1"⟩

theorem refusedEnd_reported : ∀ x ∈ Machine.played refusedEnd, Reported refusesFirst x := by
  simp [Machine.played,refusedEnd,plain,Reported,Except.isOk,Except.toBool,Exc.isException,refusesFirst]

theorem end_session_safe_refused : ∃ w', (machine id).Alone Eq 0 twoSandboxes (endSession sampleConfig none (some "s1"))
    (Machine.played refusedEnd) w' (.error (.http (some 500))) ∧
    (EndsSafely sampleConfig none (some "s1") refusesFirst twoSandboxes (Machine.played refusedEnd) w' ↔
      FailsBare sampleConfig none (some "s1") refusesFirst twoSandboxes) := by
  obtain ⟨w',ha,-⟩ := refusedEnd_alone
  exact ⟨w',ha,end_session_safe refusesFirst ha refusedEnd_reported⟩

-- The diagnose deletion fails: its index entry is gone, the action sandbox is left as it was.
theorem end_session_stops : ∃ w', (machine id).Alone Eq 0 twoSandboxes (endSession sampleConfig none (some "s1"))
    (Machine.played refusedEnd) w' (.error (.http (some 500))) ∧ (∀ x ∈ Machine.played refusedEnd, Reported refusesFirst x) ∧
    Routed sampleConfig none (some "s1") w' .action "b2" ∧ w'.redis (indexKey sampleConfig "b1") = none ∧
    ¬ EndsSafely sampleConfig none (some "s1") refusesFirst twoSandboxes (Machine.played refusedEnd) w' := by
  obtain ⟨w',ha,hrouted,hentry⟩ := refusedEnd_alone
  exact ⟨w',ha,refusedEnd_reported,hrouted,hentry,fun h => h.unrouted .action "b2" hrouted⟩

end Schedules

end IdentityAwareMcp
