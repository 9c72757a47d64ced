import IdentityAwareMcp.Coop.Pool

namespace Coop

namespace Machine

variable {Op : Type} {Ans : Op → Type} {ε Tid Hint World Env α β : Type} (M : Machine Op Ans ε Tid Hint World Env)

-- A task that runs by itself: before each of its calls the world changes as drift allows.
inductive Alone (drift : World → World → Prop) (t : Tid) :
    World → Task Op Ans ε α → Task.Played Op Ans ε → World → Except ε α → Prop
  | ret (w : World) (a : α) : Alone drift t w (.ret a) [] w (.ok a)
  | raise (w : World) (e : ε) : Alone drift t w (.raise e) [] w (.error e)
  | call {w w₁ w₂ w' : World} {o : Op} {k : Except ε (Ans o) → Task Op Ans ε α} {r : Except ε (Ans o)} {h : Hint}
      {tr : Task.Played Op Ans ε} {res : Except ε α} :
      drift w w₁ → M.act t o w₁ r h = some w₂ → Alone drift t w₂ (k r) tr w' res →
      Alone drift t w (.call o k) (⟨o,r⟩ :: tr) w' res

variable {M} {drift : World → World → Prop} {t : Tid} {w w' : World} {tr : Task.Played Op Ans ε}

theorem alone_ret {a : α} {res : Except ε α} (ha : M.Alone drift t w (.ret a) tr w' res) :
    tr = [] ∧ w' = w ∧ res = .ok a := by
  cases ha
  exact ⟨rfl,rfl,rfl⟩

theorem alone_raise {e : ε} {res : Except ε α} (ha : M.Alone drift t w (.raise e) tr w' res) :
    tr = [] ∧ w' = w ∧ res = .error e := by
  cases ha
  exact ⟨rfl,rfl,rfl⟩

theorem alone_perform {o : Op} {res : Except ε (Ans o)} (ha : M.Alone drift t w (Task.perform o) tr w' res) :
    ∃ w₁ h, drift w w₁ ∧ M.act t o w₁ res h = some w' ∧ tr = [⟨o,res⟩] := by
  cases ha with
  | @call _ w₁ w₂ _ _ _ r h tr _ hd hact hk =>
    cases r with
    | ok a =>
      obtain ⟨rfl,rfl,rfl⟩ := alone_ret hk
      exact ⟨w₁,h,hd,hact,rfl⟩
    | error e =>
      obtain ⟨rfl,rfl,rfl⟩ := alone_raise hk
      exact ⟨w₁,h,hd,hact,rfl⟩

theorem alone_bind {p : Task Op Ans ε α} {f : α → Task Op Ans ε β} {res : Except ε β}
    (ha : M.Alone drift t w (p.bind f) tr w' res) :
    (∃ tr₁ tr₂ w₁ a, tr = tr₁ ++ tr₂ ∧ M.Alone drift t w p tr₁ w₁ (.ok a) ∧ M.Alone drift t w₁ (f a) tr₂ w' res) ∨
      ∃ e, M.Alone drift t w p tr w' (.error e) ∧ res = .error e := by
  induction p generalizing w tr with
  | ret a => exact .inl ⟨[],tr,w,a,rfl,.ret w a,ha⟩
  | raise e =>
    obtain ⟨rfl,rfl,rfl⟩ := alone_raise ha
    exact .inr ⟨e,.raise w' e,rfl⟩
  | call o k ih =>
    cases ha with
    | call hd hact hk =>
      rcases ih _ hk with ⟨tr₁,tr₂,w₁,a,rfl,h₁,h₂⟩ | ⟨e,h,he⟩
      · exact .inl ⟨_,tr₂,w₁,a,rfl,.call hd hact h₁,h₂⟩
      · exact .inr ⟨e,.call hd hact h,he⟩

theorem alone_handle {p : Task Op Ans ε α} {f : ε → Task Op Ans ε α} {res : Except ε α}
    (ha : M.Alone drift t w (p.handle f) tr w' res) :
    (∃ a, M.Alone drift t w p tr w' (.ok a) ∧ res = .ok a) ∨
      ∃ tr₁ tr₂ w₁ e, tr = tr₁ ++ tr₂ ∧ M.Alone drift t w p tr₁ w₁ (.error e) ∧ M.Alone drift t w₁ (f e) tr₂ w' res := by
  induction p generalizing w tr with
  | ret a =>
    obtain ⟨rfl,rfl,rfl⟩ := alone_ret ha
    exact .inl ⟨a,.ret w' a,rfl⟩
  | raise e => exact .inr ⟨[],tr,w,e,rfl,.raise w e,ha⟩
  | call o k ih =>
    cases ha with
    | call hd hact hk =>
      rcases ih _ hk with ⟨a,h,he⟩ | ⟨tr₁,tr₂,w₁,e,rfl,h₁,h₂⟩
      · exact .inl ⟨a,.call hd hact h,he⟩
      · exact .inr ⟨_,tr₂,w₁,e,rfl,.call hd hact h₁,h₂⟩

theorem alone_ensuring {p : Task Op Ans ε α} {fin : Task Op Ans ε Unit} {res : Except ε α}
    (ha : M.Alone drift t w (p.ensuring fin) tr w' res) :
    ∃ tr₁ tr₂ w₁ r, tr = tr₁ ++ tr₂ ∧ M.Alone drift t w p tr₁ w₁ r ∧
      (M.Alone drift t w₁ fin tr₂ w' (.ok ()) ∧ res = r ∨
        ∃ e, M.Alone drift t w₁ fin tr₂ w' (.error e) ∧ res = .error e) := by
  induction p generalizing w tr with
  | ret a =>
    refine ⟨[],tr,w,.ok a,rfl,.ret w a,?_⟩
    rcases alone_bind ha with ⟨tr₁,tr₂,w₁,_,rfl,h₁,h₂⟩ | h
    · obtain ⟨rfl,rfl,rfl⟩ := alone_ret h₂
      exact .inl ⟨(List.append_nil tr₁).symm ▸ h₁,rfl⟩
    · exact .inr h
  | raise e =>
    refine ⟨[],tr,w,.error e,rfl,.raise w e,?_⟩
    rcases alone_bind ha with ⟨tr₁,tr₂,w₁,_,rfl,h₁,h₂⟩ | h
    · obtain ⟨rfl,rfl,rfl⟩ := alone_raise h₂
      exact .inl ⟨(List.append_nil tr₁).symm ▸ h₁,rfl⟩
    · exact .inr h
  | call o k ih =>
    cases ha with
    | call hd hact hk =>
      obtain ⟨tr₁,tr₂,w₁,r,rfl,h₁,h₂⟩ := ih _ hk
      exact ⟨_,tr₂,w₁,r,rfl,.call hd hact h₁,h₂⟩

theorem Alone.perform {w₁ : World} {o : Op} {a : Ans o} {h : Hint} (hd : drift w w₁) (ha : M.act t o w₁ (.ok a) h = some w') :
    M.Alone drift t w (Task.perform o) [⟨o,.ok a⟩] w' (.ok a) :=
  .call hd ha (.ret w' a)

theorem Alone.bind {p : Task Op Ans ε α} {f : α → Task Op Ans ε β} {w₁ : World} {tr tr' : Task.Played Op Ans ε} {a : α}
    {res : Except ε β} (hp : M.Alone drift t w p tr w₁ (.ok a)) (hf : M.Alone drift t w₁ (f a) tr' w' res) :
    M.Alone drift t w (p.bind f) (tr ++ tr') w' res := by
  generalize hr : Except.ok a = r at hp
  induction hp with
  | ret w a =>
    cases hr
    exact hf
  | raise w e => cases hr
  | call hd ha _ ih => exact .call hd ha (ih hf hr)

theorem Alone.handle {p : Task Op Ans ε α} {f : ε → Task Op Ans ε α} {a : α} (hp : M.Alone drift t w p tr w' (.ok a)) :
    M.Alone drift t w (p.handle f) tr w' (.ok a) := by
  generalize hr : Except.ok a = r at hp ⊢
  induction hp with
  | ret w a => exact .ret w a
  | raise w e => cases hr
  | call hd ha _ ih => exact .call hd ha (ih hr)

theorem Alone.ensuring {p : Task Op Ans ε α} {fin : Task Op Ans ε Unit} {w₁ : World} {tr tr' : Task.Played Op Ans ε} {a : α}
    (hp : M.Alone drift t w p tr w₁ (.ok a)) (hf : M.Alone drift t w₁ fin tr' w' (.ok ())) :
    M.Alone drift t w (p.ensuring fin) (tr ++ tr') w' (.ok a) := by
  generalize hr : Except.ok a = r at hp
  induction hp with
  | ret w b =>
    cases hr
    have hall := hf.bind (f := fun _ => Task.ret a) (.ret w' a)
    rwa [List.append_nil] at hall
  | raise w e => cases hr
  | call hd ha _ ih => exact .call hd ha (ih hf hr)

theorem Alone.mono {drift' : World → World → Prop} {p : Task Op Ans ε α} {res : Except ε α}
    (hd : ∀ w w₁, drift w w₁ → drift' w w₁) (hp : M.Alone drift t w p tr w' res) : M.Alone drift' t w p tr w' res := by
  induction hp with
  | ret w a => exact .ret w a
  | raise w e => exact .raise w e
  | call hdr hact _ ih => exact .call (hd _ _ hdr) hact ih

-- Where the control automaton of the task and the drift both keep an invariant, it holds at the end,
-- and the drift may be read in its light.
theorem Alone.followed {Ph : Type} {mv : Ph → (o : Op) → Except ε (Ans o) → Ph → Prop}
    {I : World → Ph → Prop} {adm : (Σ o : Op, Except ε (Ans o)) → Prop} {drift' : World → World → Prop}
    {Q : Ph → Except ε α → Prop} {ph : Ph} {p : Task Op Ans ε α} {res : Except ε α}
    (hd : ∀ ph w w₁, I w ph → drift w w₁ → I w₁ ph ∧ drift' w w₁)
    (ha : ∀ ph ph' w w' o r h, I w ph → mv ph o r ph' → adm ⟨o,r⟩ → M.act t o w r h = some w' → I w' ph')
    (hf : Follows mv ph p Q) (hi : I w ph) (hp : M.Alone drift t w p tr w' res) (htr : ∀ x ∈ tr, adm x) :
    ∃ ph', I w' ph' ∧ Q ph' res ∧ M.Alone drift' t w p tr w' res := by
  induction hp generalizing ph with
  | ret w a => exact ⟨ph,hi,hf,.ret w a⟩
  | raise w e => exact ⟨ph,hi,hf,.raise w e⟩
  | call hdr hact _ ih =>
    obtain ⟨hi₁,hdr'⟩ := hd _ _ _ hi hdr
    obtain ⟨ph₂,hm,hk⟩ := hf _
    have hi₂ := ha _ _ _ _ _ _ _ hi₁ hm (htr _ List.mem_cons_self) hact
    obtain ⟨ph',hi',hq,hk'⟩ := ih hk hi₂ (fun x hx => htr x (List.mem_cons_of_mem _ hx))
    exact ⟨ph',hi',hq,.call hdr' hact hk'⟩

section Playing

variable (M) [DecidableEq Op] (t)

def alone : Task Op Ans ε α → World → List (Σ o : Op, Except ε (Ans o) × Hint) → Option (World × Except ε α)
  | .ret a, w, [] => some (w,.ok a)
  | .raise e, w, [] => some (w,.error e)
  | .call o k, w, ⟨o',r,h⟩ :: ls =>
    if e : o' = o then (M.act t o' w r h).bind (fun w₁ => alone (k (e ▸ r)) w₁ ls) else none
  | _, _, _ => none

def played (ls : List (Σ o : Op, Except ε (Ans o) × Hint)) : Task.Played Op Ans ε := ls.map (fun x => ⟨x.1,x.2.1⟩)

variable {M t}

theorem alone_of_play {p : Task Op Ans ε α} {ls : List (Σ o : Op, Except ε (Ans o) × Hint)} {res : Except ε α}
    (hp : M.alone t p w ls = some (w',res)) : M.Alone Eq t w p (played ls) w' res := by
  induction p generalizing w ls with
  | ret a =>
    cases ls with
    | nil =>
      cases hp
      exact .ret _ a
    | cons x ls => cases hp
  | raise e =>
    cases ls with
    | nil =>
      cases hp
      exact .raise _ e
    | cons x ls => cases hp
  | call o k ih =>
    cases ls with
    | nil => cases hp
    | cons x ls =>
      obtain ⟨o',r,h⟩ := x
      simp only [alone] at hp
      split at hp
      · rename_i he
        subst he
        obtain ⟨w₁,hact,hk⟩ := Option.bind_eq_some_iff.mp hp
        exact .call rfl hact (ih r hk)
      · cases hp

end Playing

end Machine

end Coop
