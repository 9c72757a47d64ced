import IdentityAwareMcp.Coop.Alone

namespace Coop

variable {Op : Type} {Ans : Op → Type} {ε Tid Hint World Env α β γ δ : Type}

-- What surrounds a part of a task and waits for it to end.
def Frame (F : Task Op Ans ε β → Task Op Ans ε α) : Prop :=
  ∀ (o : Op) (k : Except ε (Ans o) → Task Op Ans ε β), F (.call o k) = .call o (fun r => F (k r))

theorem frame_id : Frame (fun p : Task Op Ans ε α => p) := fun _ _ => rfl

theorem frame_bind (f : β → Task Op Ans ε α) : Frame (fun p : Task Op Ans ε β => p.bind f) := fun _ _ => rfl

theorem frame_handle (f : ε → Task Op Ans ε α) : Frame (fun p : Task Op Ans ε α => p.handle f) := fun _ _ => rfl

theorem frame_ensuring (fin : Task Op Ans ε Unit) : Frame (fun p : Task Op Ans ε α => p.ensuring fin) := fun _ _ => rfl

theorem Frame.comp {G : Task Op Ans ε γ → Task Op Ans ε β} {F : Task Op Ans ε β → Task Op Ans ε α} (hF : Frame F)
    (hG : Frame G) : Frame (fun p => F (G p)) :=
  fun o k => (congrArg F (hG o k)).trans (hF o _)

section Shape

variable (shared : Op → Prop) (part : Task Op Ans ε β → Prop)

-- The calls of a task are shared ones, but for parts of its own that end with a value.
inductive Staged : Task Op Ans ε α → Prop
  | ret (a : α) : Staged (.ret a)
  | raise (e : ε) : Staged (.raise e)
  | step (o : Op) (k : Except ε (Ans o) → Task Op Ans ε α) : shared o → (∀ r, Staged (k r)) → Staged (.call o k)
  | enter (F : Task Op Ans ε β → Task Op Ans ε α) (q : Task Op Ans ε β) : Frame F → part q →
      (∀ b, Staged (F (.ret b))) → Staged (F q)

variable {shared part}

theorem Staged.bind {p : Task Op Ans ε γ} {f : γ → Task Op Ans ε α} (hp : Staged shared part p)
    (hf : ∀ a, Staged shared part (f a)) : Staged shared part (p.bind f) := by
  induction hp with
  | ret a => exact hf a
  | raise e => exact .raise e
  | step o k ho _ ih => exact .step o _ ho ih
  | enter F q hF hq _ ih => exact .enter (fun x => (F x).bind f) q ((frame_bind f).comp hF) hq ih

theorem Staged.handle {p : Task Op Ans ε α} {f : ε → Task Op Ans ε α} (hp : Staged shared part p)
    (hf : ∀ e, Staged shared part (f e)) : Staged shared part (p.handle f) := by
  induction hp with
  | ret a => exact .ret a
  | raise e => exact hf e
  | step o k ho _ ih => exact .step o _ ho ih
  | enter F q hF hq _ ih => exact .enter (fun x => (F x).handle f) q ((frame_handle f).comp hF) hq ih

theorem Staged.ensuring {p : Task Op Ans ε α} {fin : Task Op Ans ε Unit} (hp : Staged shared part p)
    (hfin : Staged shared part fin) : Staged shared part (p.ensuring fin) := by
  induction hp with
  | ret a => exact hfin.bind (fun _ => .ret a)
  | raise e => exact hfin.bind (fun _ => .raise e)
  | step o k ho _ ih => exact .step o _ ho ih
  | enter F q hF hq _ ih => exact .enter (fun x => (F x).ensuring fin) q ((frame_ensuring fin).comp hF) hq ih

variable (shared part) in
theorem staged_compositional : Task.Compositional (fun {α} (p : Task Op Ans ε α) => Staged shared part p) :=
  ⟨.ret,.raise,.bind,.handle,.ensuring⟩

theorem Staged.perform {o : Op} (ho : shared o) : Staged shared part (Task.perform o : Task Op Ans ε (Ans o)) := by
  refine .step o _ ho (fun r => ?_)
  cases r with
  | ok a => exact .ret a
  | error e => exact .raise e

theorem staged_part {q : Task Op Ans ε β} (hq : part q) : Staged shared part q :=
  .enter (fun x => x) q frame_id hq .ret

end Shape

section Pairs

variable (shared : Op → Prop) (part : Task Op Ans ε β → Prop) (during : Task Op Ans ε β → Task Op Ans ε β → Prop)

-- Two tasks side by side: alike outside the parts, and within a part related as `during` says.
inductive Beside : Task Op Ans ε α → Task Op Ans ε α → Prop
  | same (p : Task Op Ans ε α) : Staged shared part p → Beside p p
  | inside (F : Task Op Ans ε β → Task Op Ans ε α) (o : Op) (k : Except ε (Ans o) → Task Op Ans ε β)
      (q : Task Op Ans ε β) : Frame F → (∀ b, Staged shared part (F (.ret b))) → during (.call o k) q →
      Beside (F (.call o k)) (F q)

variable {shared part during}

-- A task with a call ahead either shares it or stands within a part.
theorem Staged.ahead {p : Task Op Ans ε α} (hp : Staged shared part p) {o : Op}
    {k : Except ε (Ans o) → Task Op Ans ε α} (he : p = .call o k) (hpart : ∀ q, part q → during q q ∧ ∀ e, q ≠ .raise e) :
    (shared o ∧ ∀ r, Staged shared part (k r)) ∨ ∃ (F : Task Op Ans ε β → Task Op Ans ε α)
      (k' : Except ε (Ans o) → Task Op Ans ε β), Frame F ∧ (∀ b, Staged shared part (F (.ret b))) ∧
        k = (fun r => F (k' r)) ∧ p = F (.call o k') ∧ during (.call o k') (.call o k') := by
  induction hp with
  | ret a => cases he
  | raise e => cases he
  | step o' k' ho hk _ =>
    cases he
    exact .inl ⟨ho,hk⟩
  | enter F q hF hq hret ih =>
    cases q with
    | ret b => exact ih b he
    | raise e => exact absurd rfl ((hpart _ hq).2 e)
    | call o' k' =>
      have hcall := he
      rw [hF] at hcall
      cases hcall
      exact .inr ⟨F,k',hF,hret,rfl,rfl,(hpart _ hq).1⟩

theorem Beside.ahead {p p' : Task Op Ans ε α} (hp : Beside shared part during p p') {o : Op}
    {k : Except ε (Ans o) → Task Op Ans ε α} (he : p = .call o k) (hpart : ∀ q, part q → during q q ∧ ∀ e, q ≠ .raise e) :
    (shared o ∧ p' = p ∧ ∀ r, Staged shared part (k r)) ∨ ∃ (F : Task Op Ans ε β → Task Op Ans ε α)
      (k' : Except ε (Ans o) → Task Op Ans ε β) (q : Task Op Ans ε β), Frame F ∧ (∀ b, Staged shared part (F (.ret b))) ∧
        k = (fun r => F (k' r)) ∧ p' = F q ∧ during (.call o k') q := by
  cases hp with
  | same p hp =>
    rcases hp.ahead he hpart with ⟨ho,hk⟩ | ⟨F,k',hF,hret,hk,hp',hd⟩
    · exact .inl ⟨ho,rfl,hk⟩
    · exact .inr ⟨F,k',_,hF,hret,hk,hp',hd⟩
  | inside F o' k' q hF hret hd =>
    rw [hF] at he
    cases he
    exact .inr ⟨F,k',q,hF,hret,rfl,rfl,hd⟩

theorem Beside.mono {during' : Task Op Ans ε β → Task Op Ans ε β → Prop} {p p' : Task Op Ans ε α}
    (hp : Beside shared part during p p') (hd : ∀ q q', during q q' → during' q q') : Beside shared part during' p p' := by
  cases hp with
  | same p hp => exact .same p hp
  | inside F o k q hF hret h => exact .inside F o k q hF hret (hd _ _ h)

theorem Beside.outcome {p p' : Task Op Ans ε α} (hp : Beside shared part during p p')
    (hd : ∀ q q', during q q' → q'.next = none → q.next = none) : p'.outcome = p.outcome := by
  cases hp with
  | same => rfl
  | inside F o k q hF _ h =>
    cases q with
    | call o' k' => rw [hF,hF]; rfl
    | ret b => cases hd _ _ h rfl
    | raise e => cases hd _ _ h rfl

end Pairs

namespace Machine

variable [DecidableEq Op] [DecidableEq Tid] {M : Machine Op Ans ε Tid Hint World Env}
variable {adm : Sys Op Ans ε Tid World α → γ → Label Op Ans ε Tid Hint Env → Prop}
variable {watch : Sys Op Ans ε Tid World α → Label Op Ans ε Tid Hint Env → γ → γ}

-- A part that runs by itself runs so within its task, in the pool.
theorem Alone.within {drift : World → World → Prop} {t : Tid} {w w' : World} {q : Task Op Ans ε β}
    {tr : Task.Played Op Ans ε} {b : β} {F : Task Op Ans ε β → Task Op Ans ε α} {pool : Tid → Task Op Ans ε α} {g : γ}
    (ha : M.Alone drift t w q tr w' (.ok b)) (hF : Frame F) (hq : pool t = F q)
    (hdrift : ∀ w w₁ (pool : Tid → Task Op Ans ε α), drift w w₁ → M.Run adm watch ⟨w,pool⟩ g ⟨w₁,pool⟩ g)
    (hcall : ∀ x ∈ tr, ∀ s h, adm s g (.task t x.1 x.2 h) ∧ watch s (.task t x.1 x.2 h) g = g) :
    M.Run adm watch ⟨w,pool⟩ g ⟨w',upd pool t (F (.ret b))⟩ g := by
  generalize hres : Except.ok b = res at ha
  induction ha generalizing pool with
  | ret w a =>
    cases hres
    have hself : upd pool t (F (.ret b)) = pool := by
      funext i
      by_cases hi : i = t
      · subst hi
        rw [upd_same,hq]
      · rw [upd_other _ _ hi]
    rw [hself]
    exact .start
  | raise w e => cases hres
  | @call w w₁ w₂ w' o k r h tr res hdr hact _ ih =>
    rw [hF] at hq
    obtain ⟨hadm,hwatch⟩ := hcall _ List.mem_cons_self ⟨w₁,pool⟩ h
    have hstep := (hdrift w w₁ pool hdr).step hadm (M.fire_call hq hact)
    rw [hwatch] at hstep
    have hrest := ih (upd_same pool t (F (k r))) (fun x hx => hcall x (List.mem_cons_of_mem _ hx)) hres
    have hupd : upd (upd pool t (F (k r))) t (F (.ret b)) = upd pool t (F (.ret b)) := by
      funext i
      simp only [upd]
      split <;> rfl
    rw [hupd] at hrest
    exact hstep.trans hrest

end Machine

end Coop
