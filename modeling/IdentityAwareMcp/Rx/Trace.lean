import IdentityAwareMcp.Rx.Reach

namespace Rx

variable {σ : Type}

-- A letter together with where it stood in the original text; a mask has no such place.
abbrev Cell (σ : Type) := σ × Option Nat

def tagFrom (i : Nat) (s : List σ) : List (Cell σ) := (s.zipIdx i).map (fun x => (x.1,some x.2))

def tag (s : List σ) : List (Cell σ) := tagFrom 0 s

def blank (m : List σ) : List (Cell σ) := m.map (fun c => (c,none))

def letters (cs : List (Cell σ)) : List σ := cs.map Prod.fst

def origins (cs : List (Cell σ)) : List Nat := cs.filterMap Prod.snd

def place (o : Nat) (cs : List (Cell σ)) : Nat := cs.findIdx (fun x => x.2 == some o)

variable (mask : List σ)

def Rule.pass (ru : Rule σ) (cs : List (Cell σ)) : List (Cell σ) := ru.sub Prod.fst (blank mask) cs

def passes (rules : List (Rule σ)) (cs : List (Cell σ)) : List (Cell σ) := rules.foldl (fun cs ru => ru.pass mask cs) cs

variable {mask}

@[simp] theorem letters_tagFrom (i : Nat) (s : List σ) : letters (tagFrom i s) = s := by
  simp only [letters,tagFrom,List.map_map]
  exact List.zipIdx_map_fst i s

@[simp] theorem letters_tag (s : List σ) : letters (tag s) = s := letters_tagFrom 0 s

theorem tagFrom_append (i : Nat) (s t : List σ) : tagFrom i (s ++ t) = tagFrom i s ++ tagFrom (i + s.length) t := by
  simp only [tagFrom,List.zipIdx_append,List.map_append]

@[simp] theorem tagFrom_length (i : Nat) (s : List σ) : (tagFrom i s).length = s.length := by
  simp only [tagFrom,List.length_map,List.length_zipIdx]

@[simp] theorem letters_blank (m : List σ) : letters (blank m) = m := by
  simp only [letters,blank,List.map_map]
  exact List.map_id m

@[simp] theorem letters_append (a b : List (Cell σ)) : letters (a ++ b) = letters a ++ letters b := List.map_append

@[simp] theorem origins_append (a b : List (Cell σ)) : origins (a ++ b) = origins a ++ origins b :=
  List.filterMap_append

@[simp] theorem origins_blank (m : List σ) : origins (blank m) = [] := by
  induction m with
  | nil => rfl
  | cons c m ih => exact ih

theorem origins_tagFrom (i : Nat) (s : List σ) : origins (tagFrom i s) = List.range' i s.length := by
  simp only [origins,tagFrom,List.filterMap_map]
  rw [← List.zipIdx_map_snd i s,← List.filterMap_eq_map]
  rfl

theorem origins_nodup (s : List σ) : (origins (tag s)).Nodup := by
  rw [tag,origins_tagFrom]
  exact List.nodup_range'

theorem place_append {p q : List (Cell σ)} {c : σ} {o : Nat} (h : o ∉ origins p) :
    place o (p ++ (c,some o) :: q) = p.length := by
  induction p with
  | nil => simp [place,List.findIdx_cons]
  | cons x p ih =>
    obtain ⟨d,y⟩ := x
    have hy : (y == some o) = false := by
      cases y with
      | none => rfl
      | some i =>
        simp only [origins,List.filterMap_cons,List.mem_cons,not_or] at h
        simpa using fun hi => h.1 hi.symm
    have hp : o ∉ origins p := by
      intro hm
      apply h
      rw [show (d,y) :: p = [(d,y)] ++ p from rfl,origins_append]
      exact List.mem_append_right _ hm
    have hplace := ih hp
    simp only [place] at hplace ⊢
    simp only [List.cons_append,List.findIdx_cons,hy,hplace,cond_false,List.length_cons]

section Rendering

theorem letters_render (m : List σ) (cs : List (Cell σ)) (f : List Fate) :
    letters (render (blank m) cs f) = render m (letters cs) f := by
  induction cs generalizing f with
  | nil => cases f <;> rfl
  | cons x cs ih =>
    cases f with
    | nil => rfl
    | cons y f =>
      cases y with
      | kept => exact congrArg (x.1 :: ·) (ih f)
      | masked =>
        simp only [render,letters_append,letters_blank,ih]
        rfl
      | dropped => exact ih f

theorem origins_render (m : List σ) (cs : List (Cell σ)) (f : List Fate) :
    (origins (render (blank m) cs f)).Sublist (origins cs) := by
  induction cs generalizing f with
  | nil => cases f <;> exact List.Sublist.refl _
  | cons x cs ih =>
    cases f with
    | nil => exact List.nil_sublist _
    | cons y f =>
      have hcons : ∀ l : List (Cell σ), origins (x :: l) = origins [x] ++ origins l := fun l => origins_append [x] l
      rw [hcons]
      cases y with
      | kept =>
        simp only [render]
        rw [hcons]
        exact (ih f).append_left _
      | masked =>
        simp only [render,origins_append,origins_blank,List.nil_append]
        exact (ih f).trans (List.sublist_append_right _ _)
      | dropped => exact (ih f).trans (List.sublist_append_right _ _)

theorem pass_render (ru : Rule σ) (cs : List (Cell σ)) :
    ru.pass mask cs = render (blank mask) cs (ru.fates (letters cs)) := sub_eq_render ru cs

theorem pass_letters (ru : Rule σ) (cs : List (Cell σ)) :
    letters (ru.pass mask cs) = ru.sub id mask (letters cs) := by
  rw [pass_render,letters_render,sub_eq_render,List.map_id]

theorem pass_origins (ru : Rule σ) (cs : List (Cell σ)) : (origins (ru.pass mask cs)).Sublist (origins cs) := by
  rw [pass_render]
  exact origins_render mask cs _

theorem passes_origins (rules : List (Rule σ)) (cs : List (Cell σ)) :
    (origins (passes mask rules cs)).Sublist (origins cs) := by
  induction rules generalizing cs with
  | nil => exact List.Sublist.refl _
  | cons ru rules ih => exact (ih (ru.pass mask cs)).trans (pass_origins ru cs)

theorem passes_append (a b : List (Rule σ)) (cs : List (Cell σ)) :
    passes mask (a ++ b) cs = passes mask b (passes mask a cs) := List.foldl_append

theorem passes_cons (ru : Rule σ) (rules : List (Rule σ)) (cs : List (Cell σ)) :
    passes mask (ru :: rules) cs = passes mask rules (ru.pass mask cs) := rfl

end Rendering

section Cuts

-- What later passes leave of a text: nothing but some of its letters, and masks.
structure Thinner (mask : List σ) (y v : List (Cell σ)) : Prop where
  origins : (origins y).Sublist (origins v)
  count : ∀ p : σ → Bool, (∀ c ∈ mask, p c = false) → (letters y).countP p ≤ (letters v).countP p

theorem Thinner.refl (v : List (Cell σ)) : Thinner mask v v := ⟨List.Sublist.refl _,fun _ _ => Nat.le_refl _⟩

theorem Thinner.trans {x y z : List (Cell σ)} (h : Thinner mask x y) (h' : Thinner mask y z) : Thinner mask x z :=
  ⟨h.origins.trans h'.origins,fun p hp => Nat.le_trans (h.count p hp) (h'.count p hp)⟩

theorem render_thinner (v : List (Cell σ)) (f : List Fate) : Thinner mask (render (blank mask) v f) v := by
  refine ⟨origins_render mask v f,fun p hp => ?_⟩
  rw [letters_render]
  generalize letters v = s
  induction s generalizing f with
  | nil => cases f <;> exact Nat.le_refl _
  | cons c s ih =>
    cases f with
    | nil => exact Nat.zero_le _
    | cons x f =>
      have hmask : mask.countP p = 0 := List.countP_eq_zero.mpr (fun c hc => by simp [hp c hc])
      have hrest := ih f
      cases x with
      | kept =>
        simp only [render,List.countP_cons]
        omega
      | masked =>
        simp only [render,List.countP_cons,List.countP_append,hmask]
        omega
      | dropped =>
        simp only [render,List.countP_cons]
        omega

variable {x : Cell σ}

-- Up to a separator that no match runs over, a pass does to the text what it does to its left part alone.
theorem pass_cut {ru : Rule σ} (hl : ru.label.neutral x.1 = true) (hb : ru.body.neutral x.1 = true)
    {u v : List (Cell σ)} (hc : Uncovered (ru.spans (letters (u ++ x :: v))) u.length) :
    ∃ y, ru.pass mask (u ++ x :: v) = ru.pass mask u ++ x :: y ∧ Thinner mask y v := by
  have hlen : u.length = (letters u).length := (List.length_map _).symm
  have hletters : letters (u ++ x :: v) = letters u ++ x.1 :: letters v := letters_append u (x :: v)
  have hcut : ru.fates (letters u ++ x.1 :: letters v) =
      ru.fates (letters u) ++ .kept :: ru.fatesFrom (letters v) [] (some x.1) := by
    refine fates_cut (i := 0) hl hb (Nat.zero_le _) ?_
    rw [Nat.zero_add,← hlen]
    exact hletters ▸ hc
  refine ⟨render (blank mask) v (ru.fatesFrom (letters v) [] (some x.1)),?_,render_thinner v _⟩
  have hfates : (ru.fates (letters u)).length = u.length := (fates_length ru (letters u) [] none).trans hlen.symm
  rw [pass_render,pass_render,hletters,hcut,render_append _ _ _ _ hfates]
  rfl

def Rule.blind (w : σ) (ru : Rule σ) : Bool :=
  ru.label.neutral w && ru.body.neutral w && ru.label.avoids w && ru.body.avoids w

theorem passes_cut {rules : List (Rule σ)} (hr : ∀ ru ∈ rules, ru.blind x.1 = true) (u v : List (Cell σ)) :
    ∃ y, passes mask rules (u ++ x :: v) = passes mask rules u ++ x :: y ∧ Thinner mask y v := by
  induction rules generalizing u v with
  | nil => exact ⟨v,rfl,.refl v⟩
  | cons ru rules ih =>
    have hru := hr ru (List.mem_cons_self ..)
    simp only [Rule.blind,Bool.and_eq_true] at hru
    obtain ⟨⟨⟨hl,hb⟩,hla⟩,hba⟩ := hru
    have hfree : Uncovered (ru.spans (letters (u ++ x :: v))) u.length := by
      have h := uncovered_avoids (u := letters u) (v := letters v) hla hba
      rw [show (letters u).length = u.length from List.length_map _] at h
      rwa [show letters (u ++ x :: v) = letters u ++ x.1 :: letters v from letters_append u (x :: v)]
    obtain ⟨y,hy,hthin⟩ : ∃ y, ru.pass mask (u ++ x :: v) = ru.pass mask u ++ x :: y ∧ Thinner mask y v :=
      pass_cut hl hb hfree
    obtain ⟨z,hz,hthin'⟩ := ih (fun ru' h => hr ru' (List.mem_cons_of_mem _ h)) (ru.pass mask u) y
    exact ⟨z,(congrArg (passes mask rules) hy).trans hz,hthin'.trans hthin⟩

end Cuts

end Rx
