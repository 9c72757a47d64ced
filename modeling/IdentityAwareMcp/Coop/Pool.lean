import IdentityAwareMcp.Coop.Task

namespace Coop

structure Machine (Op : Type) (Ans : Op → Type) (ε Tid Hint World Env : Type) where
  act : Tid → (o : Op) → World → Except ε (Ans o) → Hint → Option World
  env : Env → World → Option World

inductive Label (Op : Type) (Ans : Op → Type) (ε Tid Hint Env : Type) where
  | task (t : Tid) (o : Op) (r : Except ε (Ans o)) (h : Hint)
  | env (e : Env)

structure Sys (Op : Type) (Ans : Op → Type) (ε Tid World α : Type) where
  world : World
  pool : Tid → Task Op Ans ε α

variable {Op : Type} {Ans : Op → Type} {ε Tid Hint World Env α β γ Ph : Type}

def upd [DecidableEq Tid] (f : Tid → β) (t : Tid) (b : β) : Tid → β := fun i => if i = t then b else f i

@[simp] theorem upd_same [DecidableEq Tid] (f : Tid → β) (t : Tid) (b : β) : upd f t b t = b := by simp [upd]

@[simp] theorem upd_other [DecidableEq Tid] (f : Tid → β) {t i : Tid} (b : β) (h : i ≠ t) : upd f t b i = f i := by
  simp [upd,h]

theorem upd_eq [DecidableEq Tid] {f : Tid → β} {t i : Tid} {b x : β} (h : upd f t b i = x) :
    i = t ∧ b = x ∨ i ≠ t ∧ f i = x := by
  by_cases hi : i = t
  · subst hi; exact .inl ⟨rfl,by rwa [upd_same] at h⟩
  · exact .inr ⟨hi,by rwa [upd_other _ _ hi] at h⟩

theorem forall_upd [DecidableEq Tid] {f : Tid → β} {t : Tid} {b : β} {P : Tid → β → Prop}
    (hb : P t b) (hf : ∀ i, P i (f i)) (i : Tid) : P i (upd f t b i) := by
  by_cases hi : i = t
  · subst hi; simpa using hb
  · simpa [hi] using hf i

namespace Machine

variable [DecidableEq Op] [DecidableEq Tid] (M : Machine Op Ans ε Tid Hint World Env)

def fire : Label Op Ans ε Tid Hint Env → Sys Op Ans ε Tid World α →
    Option (Sys Op Ans ε Tid World α)
  | .task t o r h, s =>
    match s.pool t with
    | .call o' k =>
      if e : o = o' then (M.act t o s.world r h).map (fun w => ⟨w,upd s.pool t (k (e ▸ r))⟩) else none
    | _ => none
  | .env e, s => (M.env e s.world).map (fun w => ⟨w,s.pool⟩)

theorem fire_task {s s' : Sys Op Ans ε Tid World α} {t : Tid} {o : Op} {r : Except ε (Ans o)} {h : Hint}
    (hf : M.fire (.task t o r h) s = some s') :
    ∃ k w, s.pool t = .call o k ∧ M.act t o s.world r h = some w ∧ s' = ⟨w,upd s.pool t (k r)⟩ := by
  simp only [fire] at hf
  split at hf
  · rename_i o' k hp
    split at hf
    · rename_i he
      subst he
      obtain ⟨w,hw,rfl⟩ := Option.map_eq_some_iff.mp hf
      exact ⟨k,w,hp,hw,rfl⟩
    · cases hf
  · cases hf

theorem fire_call {s : Sys Op Ans ε Tid World α} {t : Tid} {o : Op} {k : Except ε (Ans o) → Task Op Ans ε α}
    {r : Except ε (Ans o)} {h : Hint} {w : World} (hp : s.pool t = .call o k) (ha : M.act t o s.world r h = some w) :
    M.fire (.task t o r h) s = some ⟨w,upd s.pool t (k r)⟩ := by
  simp only [fire,hp,dif_pos,ha,Option.map_some]

theorem fire_change {s : Sys Op Ans ε Tid World α} {e : Env} {w : World} (he : M.env e s.world = some w) :
    M.fire (.env e) s = some ⟨w,s.pool⟩ := by
  simp only [fire,he,Option.map_some]

theorem fire_env {s s' : Sys Op Ans ε Tid World α} {e : Env} (hf : M.fire (.env e) s = some s') :
    ∃ w, M.env e s.world = some w ∧ s' = ⟨w,s.pool⟩ := by
  obtain ⟨w,hw,rfl⟩ := Option.map_eq_some_iff.mp hf
  exact ⟨w,hw,rfl⟩

-- A run carries history variables: they see every step and influence none, except
-- through the condition under which a step counts.
inductive Run (adm : Sys Op Ans ε Tid World α → γ → Label Op Ans ε Tid Hint Env → Prop)
    (watch : Sys Op Ans ε Tid World α → Label Op Ans ε Tid Hint Env → γ → γ)
    (s₀ : Sys Op Ans ε Tid World α) (g₀ : γ) : Sys Op Ans ε Tid World α → γ → Prop
  | start : Run adm watch s₀ g₀ s₀ g₀
  | step {s s' : Sys Op Ans ε Tid World α} {g : γ} {l : Label Op Ans ε Tid Hint Env} :
      Run adm watch s₀ g₀ s g → adm s g l → M.fire l s = some s' → Run adm watch s₀ g₀ s' (watch s l g)

variable {M} in
-- A condition may be checked in the light of what is known of the states reached under it.
theorem Run.strengthen {adm adm' : Sys Op Ans ε Tid World α → γ → Label Op Ans ε Tid Hint Env → Prop}
    {watch : Sys Op Ans ε Tid World α → Label Op Ans ε Tid Hint Env → γ → γ}
    {s₀ s : Sys Op Ans ε Tid World α} {g₀ g : γ}
    (hadm : ∀ s g l, M.Run adm watch s₀ g₀ s g → adm' s g l → adm s g l)
    (hr : M.Run adm' watch s₀ g₀ s g) : M.Run adm watch s₀ g₀ s g := by
  induction hr with
  | start => exact .start
  | step _ ha hf ih => exact ih.step (hadm _ _ _ ih ha) hf

variable {M} in
theorem Run.trans {adm : Sys Op Ans ε Tid World α → γ → Label Op Ans ε Tid Hint Env → Prop}
    {watch : Sys Op Ans ε Tid World α → Label Op Ans ε Tid Hint Env → γ → γ}
    {s₀ s s' : Sys Op Ans ε Tid World α} {g₀ g g' : γ} (hr : M.Run adm watch s₀ g₀ s g)
    (hr' : M.Run adm watch s g s' g') : M.Run adm watch s₀ g₀ s' g' := by
  induction hr' with
  | start => exact hr
  | step _ ha hf ih => exact ih.step ha hf

variable {M} in
theorem Run.idle {adm : Sys Op Ans ε Tid World α → γ → Label Op Ans ε Tid Hint Env → Prop}
    {watch : Sys Op Ans ε Tid World α → Label Op Ans ε Tid Hint Env → γ → γ}
    {s₀ s : Sys Op Ans ε Tid World α} {g₀ g : γ} {t : Tid} (hadm : ∀ s g o r h, ¬ adm s g (.task t o r h))
    (hr : M.Run adm watch s₀ g₀ s g) : s.pool t = s₀.pool t := by
  induction hr with
  | start => rfl
  | @step s _ g l _ ha hf ih =>
    cases l with
    | task i o r h =>
      obtain ⟨k,w,_,_,rfl⟩ := M.fire_task hf
      have hne : t ≠ i := fun he => hadm s g o r h (he ▸ ha)
      exact (upd_other _ _ hne).trans ih
    | env e =>
      obtain ⟨w,_,rfl⟩ := M.fire_env hf
      exact ih

-- A schedule played out, its condition checked at every step.
def replay (adm : Sys Op Ans ε Tid World α → γ → Label Op Ans ε Tid Hint Env → Bool)
    (watch : Sys Op Ans ε Tid World α → Label Op Ans ε Tid Hint Env → γ → γ) :
    List (Label Op Ans ε Tid Hint Env) → Sys Op Ans ε Tid World α → γ → Option (Sys Op Ans ε Tid World α × γ)
  | [], s, g => some (s,g)
  | l :: ls, s, g =>
    if adm s g l then (M.fire l s).bind (fun s' => replay adm watch ls s' (watch s l g)) else none

variable {M} in
theorem run_append {adm : Sys Op Ans ε Tid World α → γ → Label Op Ans ε Tid Hint Env → Prop}
    {watch : Sys Op Ans ε Tid World α → Label Op Ans ε Tid Hint Env → γ → γ}
    {adm' : Sys Op Ans ε Tid World α → γ → Label Op Ans ε Tid Hint Env → Bool}
    {s₀ s s' : Sys Op Ans ε Tid World α} {g₀ g g' : γ} {ls : List (Label Op Ans ε Tid Hint Env)}
    (hadm : ∀ s g l, adm' s g l = true → adm s g l) (hr : M.Run adm watch s₀ g₀ s g)
    (hp : M.replay adm' watch ls s g = some (s',g')) : M.Run adm watch s₀ g₀ s' g' := by
  induction ls generalizing s g with
  | nil =>
    cases hp
    exact hr
  | cons l ls ih =>
    simp only [replay] at hp
    split at hp
    · rename_i ha
      obtain ⟨s₁,hf,hp⟩ := Option.bind_eq_some_iff.mp hp
      exact ih (hr.step (hadm _ _ _ ha) hf) hp
    · cases hp

variable {M} in
theorem replay_reaches {adm : Sys Op Ans ε Tid World α → γ → Label Op Ans ε Tid Hint Env → Prop}
    {watch : Sys Op Ans ε Tid World α → Label Op Ans ε Tid Hint Env → γ → γ}
    (adm' : Sys Op Ans ε Tid World α → γ → Label Op Ans ε Tid Hint Env → Bool)
    {s₀ : Sys Op Ans ε Tid World α} {g₀ : γ} (ls : List (Label Op Ans ε Tid Hint Env))
    {f : Sys Op Ans ε Tid World α → γ → β} {b : β} (hadm : ∀ s g l, adm' s g l = true → adm s g l)
    (hp : (M.replay adm' watch ls s₀ g₀).map (fun x => f x.1 x.2) = some b) :
    ∃ s g, M.Run adm watch s₀ g₀ s g ∧ f s g = b := by
  obtain ⟨x,hx,hb⟩ := Option.map_eq_some_iff.mp hp
  exact ⟨x.1,x.2,run_append hadm .start hx,hb⟩

end Machine

section Following

variable (mv : Ph → (o : Op) → Except ε (Ans o) → Ph → Prop)

-- The calls of a task are moves of a control automaton, whatever the answers are.
def Follows : Ph → Task Op Ans ε α → (Ph → Except ε α → Prop) → Prop
  | ph, .ret a, Q => Q ph (.ok a)
  | ph, .raise e, Q => Q ph (.error e)
  | ph, .call o k, Q => ∀ r, ∃ ph', mv ph o r ph' ∧ Follows ph' (k r) Q

variable {mv}

theorem Follows.mono {ph : Ph} {p : Task Op Ans ε α} {Q Q' : Ph → Except ε α → Prop}
    (h : Follows mv ph p Q) (hq : ∀ ph r, Q ph r → Q' ph r) : Follows mv ph p Q' := by
  induction p generalizing ph with
  | ret a => exact hq _ _ h
  | raise e => exact hq _ _ h
  | call o k ih =>
    intro r
    obtain ⟨ph',hm,hk⟩ := h r
    exact ⟨ph',hm,ih r hk⟩

theorem Follows.bind {ph : Ph} {p : Task Op Ans ε α} {f : α → Task Op Ans ε β}
    {Q : Ph → Except ε α → Prop} {Q' : Ph → Except ε β → Prop}
    (h : Follows mv ph p Q) (hok : ∀ ph a, Q ph (.ok a) → Follows mv ph (f a) Q')
    (herr : ∀ ph e, Q ph (.error e) → Q' ph (.error e)) : Follows mv ph (p.bind f) Q' := by
  induction p generalizing ph with
  | ret a => exact hok _ _ h
  | raise e => exact herr _ _ h
  | call o k ih =>
    intro r
    obtain ⟨ph',hm,hk⟩ := h r
    exact ⟨ph',hm,ih r hk⟩

theorem Follows.handle {ph : Ph} {p : Task Op Ans ε α} {f : ε → Task Op Ans ε α}
    {Q Q' : Ph → Except ε α → Prop}
    (h : Follows mv ph p Q) (hok : ∀ ph a, Q ph (.ok a) → Q' ph (.ok a))
    (herr : ∀ ph e, Q ph (.error e) → Follows mv ph (f e) Q') : Follows mv ph (p.handle f) Q' := by
  induction p generalizing ph with
  | ret a => exact hok _ _ h
  | raise e => exact herr _ _ h
  | call o k ih =>
    intro r
    obtain ⟨ph',hm,hk⟩ := h r
    exact ⟨ph',hm,ih r hk⟩

-- What a finally block leaves of a result: its own exception replaces it.
def After (Q : Ph → Except ε α → Prop) (r : Except ε α) : Ph → Except ε Unit → Prop
  | ph, .ok _ => Q ph r
  | ph, .error e => Q ph (.error e)

theorem Follows.ensuring {ph : Ph} {p : Task Op Ans ε α} {fin : Task Op Ans ε Unit}
    {Q Q' : Ph → Except ε α → Prop} (h : Follows mv ph p Q)
    (hfin : ∀ ph r, Q ph r → Follows mv ph fin (After Q' r)) : Follows mv ph (p.ensuring fin) Q' := by
  induction p generalizing ph with
  | ret a => exact (hfin _ _ h).bind (fun _ _ hq => hq) (fun _ _ hq => hq)
  | raise e => exact (hfin _ _ h).bind (fun _ _ hq => hq) (fun _ _ hq => hq)
  | call o k ih =>
    intro r
    obtain ⟨ph',hm,hk⟩ := h r
    exact ⟨ph',hm,ih r hk⟩

theorem Follows.perform {ph : Ph} {o : Op} {Q : Ph → Except ε (Ans o) → Prop}
    (h : ∀ r, ∃ ph', mv ph o r ph' ∧ Q ph' r) : Follows mv ph (Task.perform o) Q := by
  intro r
  obtain ⟨ph',hm,hq⟩ := h r
  cases r with
  | ok a => exact ⟨ph',hm,hq⟩
  | error e => exact ⟨ph',hm,hq⟩

theorem Follows.next {ph : Ph} {p : Task Op Ans ε α} {o : Op} {Q : Ph → Except ε α → Prop}
    (h : Follows mv ph p Q) (hp : p.next = some o) (r : Except ε (Ans o)) : ∃ ph', mv ph o r ph' := by
  cases p with
  | call o' k =>
    cases hp
    obtain ⟨ph',hm,_⟩ := h r
    exact ⟨ph',hm⟩
  | _ => cases hp

theorem Follows.outcome {ph : Ph} {p : Task Op Ans ε α} {x : Except ε α} {Q : Ph → Except ε α → Prop}
    (h : Follows mv ph p Q) (hp : p.outcome = some x) : Q ph x := by
  cases p with
  | ret a =>
    cases hp
    exact h
  | raise e =>
    cases hp
    exact h
  | call o k => cases hp

-- One automaton may stand for another wherever a condition on its states is kept.
theorem Follows.refine {Ph' : Type} {mv' : Ph' → (o : Op) → Except ε (Ans o) → Ph' → Prop} (f : Ph → Ph')
    {P : Ph → Prop} (hf : ∀ ph o r ph', P ph → mv ph o r ph' → P ph' ∧ mv' (f ph) o r (f ph')) {ph : Ph}
    {p : Task Op Ans ε α} {Q : Ph → Except ε α → Prop} (hp : P ph) (h : Follows mv ph p Q) :
    Follows mv' (f ph) p (fun x r => ∃ ph, x = f ph ∧ P ph ∧ Q ph r) := by
  induction p generalizing ph with
  | ret a => exact ⟨ph,rfl,hp,h⟩
  | raise e => exact ⟨ph,rfl,hp,h⟩
  | call o k ih =>
    intro r
    obtain ⟨ph',hm,hk⟩ := h r
    obtain ⟨hp',hm'⟩ := hf _ _ _ _ hp hm
    exact ⟨f ph',hm',ih r hp' hk⟩

theorem Follows.lift {Ph' : Type} {mv' : Ph' → (o : Op) → Except ε (Ans o) → Ph' → Prop} (f : Ph → Ph')
    (hf : ∀ ph o r ph', mv ph o r ph' → mv' (f ph) o r (f ph')) {ph : Ph} {p : Task Op Ans ε α}
    {Q : Ph → Except ε α → Prop} (h : Follows mv ph p Q) :
    Follows mv' (f ph) p (fun x r => ∃ ph, x = f ph ∧ Q ph r) := by
  refine (h.refine f (P := fun _ => True) (fun _ _ _ _ _ hm => ⟨trivial,hf _ _ _ _ hm⟩) trivial).mono ?_
  rintro _ _ ⟨ph,rfl,_,hq⟩
  exact ⟨ph,rfl,hq⟩

-- Where the control automaton is a function, a whole trace decides where it ends.
theorem Follows.plays {f : Ph → (o : Op) → Except ε (Ans o) → Ph} {ph : Ph} {p : Task Op Ans ε α}
    {Q : Ph → Except ε α → Prop} {tr : Task.Played Op Ans ε} {res : Except ε α}
    (h : Follows (fun ph o r ph' => ph' = f ph o r) ph p Q) (hp : Task.Plays p tr res) :
    Q (tr.foldl (fun ph x => f ph x.1 x.2) ph) res := by
  induction hp generalizing ph with
  | ret a => exact h
  | raise e => exact h
  | call o k r tr res _ ih =>
    obtain ⟨ph',rfl,hk⟩ := h r
    exact ih hk

variable (mv) in
-- Between its calls, however they are answered, the automaton is where P holds.
def Confined (P : Ph → Prop) (p : Task Op Ans ε α) : Prop := ∀ ph, P ph → Follows mv ph p (fun x _ => P x)

variable {P : Ph → Prop}

theorem Confined.ret (a : α) : Confined mv P (.ret a : Task Op Ans ε α) := fun _ h => h

theorem Confined.raise (e : ε) : Confined mv P (.raise e : Task Op Ans ε α) := fun _ h => h

theorem Confined.bind {p : Task Op Ans ε α} {f : α → Task Op Ans ε β} (hp : Confined mv P p)
    (hf : ∀ a, Confined mv P (f a)) : Confined mv P (p.bind f) :=
  fun ph h => (hp ph h).bind (fun ph a h => hf a ph h) (fun _ _ h => h)

theorem Confined.handle {p : Task Op Ans ε α} {f : ε → Task Op Ans ε α} (hp : Confined mv P p)
    (hf : ∀ e, Confined mv P (f e)) : Confined mv P (p.handle f) :=
  fun ph h => (hp ph h).handle (fun _ _ h => h) (fun ph e h => hf e ph h)

theorem Confined.ensuring {p : Task Op Ans ε α} {fin : Task Op Ans ε Unit} (hp : Confined mv P p)
    (hfin : Confined mv P fin) : Confined mv P (p.ensuring fin) := by
  refine fun ph h => (hp ph h).ensuring (fun ph r h => (hfin ph h).mono (fun ph u h => ?_))
  cases u <;> exact h

theorem Confined.perform {o : Op} (ho : ∀ ph r, P ph → ∃ ph', mv ph o r ph' ∧ P ph') :
    Confined mv P (Task.perform o : Task Op Ans ε (Ans o)) :=
  fun ph h => Follows.perform (fun r => ho ph r h)

variable (mv P) in
theorem confined_compositional : Task.Compositional (fun {α} (p : Task Op Ans ε α) => Confined mv P p) :=
  ⟨.ret,.raise,.bind,.handle,.ensuring⟩

end Following

namespace Machine

variable [DecidableEq Op] [DecidableEq Tid] {M : Machine Op Ans ε Tid Hint World Env}
variable {adm : Sys Op Ans ε Tid World α → γ → Label Op Ans ε Tid Hint Env → Prop}
variable {watch : Sys Op Ans ε Tid World α → Label Op Ans ε Tid Hint Env → γ → γ}
variable {s₀ : Sys Op Ans ε Tid World α} {g₀ : γ}

-- The one induction over runs: what every move and every environment step preserves
-- holds throughout, next to the fact that each task is where its phase says.
theorem Run.followed {mv : Tid → Ph → (o : Op) → Except ε (Ans o) → Ph → Prop}
    {fin : Tid → Ph → Except ε α → Prop} {I : Sys Op Ans ε Tid World α → γ → (Tid → Ph) → Prop} (ph₀ : Tid → Ph)
    (hstart : ∀ t, Follows (mv t) (ph₀ t) (s₀.pool t) (fin t)) (hinit : I s₀ g₀ ph₀)
    (htask : ∀ s g ph t o k r h w p, I s g ph → (∀ i, Follows (mv i) (ph i) (s.pool i) (fin i)) →
      adm s g (.task t o r h) → s.pool t = .call o k → mv t (ph t) o r p → Follows (mv t) p (k r) (fin t) →
      M.act t o s.world r h = some w → I ⟨w,upd s.pool t (k r)⟩ (watch s (.task t o r h) g) (upd ph t p))
    (henv : ∀ s g ph e w, I s g ph → adm s g (.env e) → M.env e s.world = some w →
      I ⟨w,s.pool⟩ (watch s (.env e) g) ph)
    {s : Sys Op Ans ε Tid World α} {g : γ} (hr : M.Run adm watch s₀ g₀ s g) :
    ∃ ph, I s g ph ∧ ∀ t, Follows (mv t) (ph t) (s.pool t) (fin t) := by
  induction hr with
  | start => exact ⟨ph₀,hinit,hstart⟩
  | @step s s' g l _ ha hf ih =>
    obtain ⟨ph,hi,hph⟩ := ih
    cases l with
    | task t o r h =>
      obtain ⟨k,w,hp,hw,rfl⟩ := M.fire_task hf
      have ht := hph t
      rw [hp] at ht
      obtain ⟨p,hm,hk⟩ := ht r
      refine ⟨upd ph t p,htask s g ph t o k r h w p hi hph ha hp hm hk hw,?_⟩
      intro i
      by_cases hit : i = t
      · subst hit; simpa using hk
      · simpa [hit] using hph i
    | env e =>
      obtain ⟨w,hw,rfl⟩ := M.fire_env hf
      exact ⟨ph,henv s g ph e w hi ha hw,hph⟩

theorem Run.tracked {mv : Tid → Ph → (o : Op) → Except ε (Ans o) → Ph → Prop}
    {fin : Tid → Ph → Except ε α → Prop} {I : World → γ → (Tid → Ph) → Prop} (ph₀ : Tid → Ph)
    (hstart : ∀ t, Follows (mv t) (ph₀ t) (s₀.pool t) (fin t)) (hinit : I s₀.world g₀ ph₀)
    (htask : ∀ s g ph t o r h w p, I s.world g ph →
      (∀ i, Follows (mv i) (ph i) (s.pool i) (fin i)) → adm s g (.task t o r h) →
      mv t (ph t) o r p → M.act t o s.world r h = some w →
      I w (watch s (.task t o r h) g) (upd ph t p))
    (henv : ∀ s g ph e w, I s.world g ph → adm s g (.env e) → M.env e s.world = some w →
      I w (watch s (.env e) g) ph)
    {s : Sys Op Ans ε Tid World α} {g : γ} (hr : M.Run adm watch s₀ g₀ s g) :
    ∃ ph, I s.world g ph ∧ ∀ t, Follows (mv t) (ph t) (s.pool t) (fin t) :=
  hr.followed (I := fun s g ph => I s.world g ph) ph₀ hstart hinit
    (fun s g ph t o _ r h w p hi hph ha _ hm _ hw => htask s g ph t o r h w p hi hph ha hm hw) henv

end Machine

end Coop
