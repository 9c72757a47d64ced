import Mathlib.Data.List.Induction

namespace Path

abbrev Part := List Char

-- One step along a path: an empty part and '.' stay, '..' goes up, the root is its own parent.
def enter (dir : List Part) (p : Part) : List Part :=
  if p = [] ∨ p = ['.'] then dir
  else if p = ['.','.'] then dir.dropLast
  else dir ++ [p]

def follow (dir ps : List Part) : List Part := ps.foldl enter dir

def resolve (cwd : List Part) (path : List Char) : List Part :=
  follow (if path.head? = some '/' then [] else cwd) (path.splitOn '/')

structure Name (p : Part) : Prop where
  nonempty : p ≠ []
  here : p ≠ ['.']
  up : p ≠ ['.','.']
  slash : '/' ∉ p

variable {dir cwd ps qs : List Part} {p : Part} {a b : List Char}

theorem enter_name (h : Name p) : enter dir p = dir ++ [p] := by
  rw [enter,if_neg (fun he => he.elim h.nonempty h.here),if_neg h.up]

theorem follow_append : follow dir (ps ++ qs) = follow (follow dir ps) qs := List.foldl_append

theorem follow_name (h : Name p) : follow dir (p.splitOn '/') = dir ++ [p] := by
  rw [List.splitOn_eq_singleton h.slash]
  exact enter_name h

theorem resolve_append : resolve cwd (a ++ '/' :: b) = follow (resolve cwd (a ++ ['/'])) (b.splitOn '/') := by
  have hhead : (a ++ '/' :: b).head? = (a ++ ['/']).head? := by cases a <;> rfl
  simp only [resolve,hhead,List.splitOn_append_cons_self,follow_append]
  rfl

theorem splitOn_slash (t : List Char) : ∀ p ∈ t.splitOn '/', '/' ∉ p := by
  induction t with
  | nil => simp
  | cons c t ih =>
    rw [List.splitOn_cons_eq_if_modifyHead]
    split
    · intro p hp
      rcases List.mem_cons.mp hp with rfl | hp
      · exact List.not_mem_nil
      · exact ih p hp
    · rename_i hc
      obtain ⟨q,qs,hq⟩ := List.exists_cons_of_ne_nil (List.splitOn_ne_nil '/' t)
      rw [hq] at ih ⊢
      intro p hp
      rcases List.mem_cons.mp hp with rfl | hp
      · intro hs
        rcases List.mem_cons.mp hs with he | hs
        · exact hc (beq_iff_eq.mpr he.symm)
        · exact ih q List.mem_cons_self hs
      · exact ih p (List.mem_cons_of_mem _ hp)

-- What is left of the directory one starts from, and names below it.
theorem follow_kept (dir : List Part) (h : ∀ p ∈ ps, '/' ∉ p) : ∃ k names, k ≤ dir.length ∧ follow dir ps = dir.take k ++ names ∧
    ∀ n ∈ names, Name n := by
  induction ps using List.reverseRecOn with
  | nil => exact ⟨dir.length,[],Nat.le_refl _,by simp [follow],by simp⟩
  | append_singleton ps p ih =>
    obtain ⟨k,names,hk,hf,hn⟩ := ih (fun q hq => h q (List.mem_append_left _ hq))
    rw [follow_append,hf]
    simp only [follow,List.foldl_cons,List.foldl_nil,enter]
    split
    · exact ⟨k,names,hk,rfl,hn⟩
    · rename_i hstay
      split
      · cases names with
        | nil =>
          refine ⟨k - 1,[],by omega,?_,by simp⟩
          simp only [List.append_nil,List.dropLast_eq_take,List.take_take,List.length_take]
          congr 1
          omega
        | cons n names =>
          refine ⟨k,(n :: names).dropLast,hk,?_,fun x hx => hn x ((List.dropLast_sublist _).subset hx)⟩
          exact List.dropLast_append_of_ne_nil (List.cons_ne_nil _ _)
      · rename_i hup
        refine ⟨k,names ++ [p],hk,List.append_assoc _ _ _,?_⟩
        intro n hmem
        rcases List.mem_append.mp hmem with hmem | hmem
        · exact hn n hmem
        · rw [List.mem_singleton.mp hmem]
          exact ⟨fun he => hstay (.inl he),fun he => hstay (.inr he),hup,
            h p (List.mem_append_right _ List.mem_cons_self)⟩

theorem follow_names {x y : Part} (h : ∀ p ∈ ps, '/' ∉ p) (hf : follow dir ps = dir ++ [x,y]) : Name x ∧ Name y := by
  obtain ⟨k,names,hk,he,hn⟩ := follow_kept dir h
  have hdrop : names.drop (dir.length - k) = [x,y] := by
    have hd := congrArg (List.drop dir.length) (he.symm.trans hf)
    rwa [List.drop_append,List.drop_eq_nil_of_le (by simp [hk]),List.nil_append,List.length_take,Nat.min_eq_left hk,
      List.drop_left] at hd
  have hmem : ∀ z ∈ [x,y], Name z := fun z hz => hn z (List.mem_of_mem_drop (hdrop ▸ hz))
  exact ⟨hmem x (by simp),hmem y (by simp)⟩

end Path
