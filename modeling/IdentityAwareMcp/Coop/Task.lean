import Mathlib.Logic.Relation

namespace Coop

-- A cooperative task: between two calls it runs alone, at a call it is suspended
-- and resumed with an answer or with an exception raised at that point.
inductive Task (Op : Type) (Ans : Op → Type) (ε α : Type) where
  | ret (a : α)
  | raise (e : ε)
  | call (o : Op) (k : Except ε (Ans o) → Task Op Ans ε α)

variable {Op : Type} {Ans : Op → Type} {ε α β γ : Type}

namespace Task

def bind : Task Op Ans ε α → (α → Task Op Ans ε β) → Task Op Ans ε β
  | .ret a, f => f a
  | .raise e, _ => .raise e
  | .call o k, f => .call o (fun r => (k r).bind f)

def handle : Task Op Ans ε α → (ε → Task Op Ans ε α) → Task Op Ans ε α
  | .ret a, _ => .ret a
  | .raise e, h => h e
  | .call o k, h => .call o (fun r => (k r).handle h)

def ensuring : Task Op Ans ε α → Task Op Ans ε Unit → Task Op Ans ε α
  | .ret a, fin => fin.bind (fun _ => .ret a)
  | .raise e, fin => fin.bind (fun _ => .raise e)
  | .call o k, fin => .call o (fun r => (k r).ensuring fin)

def perform (o : Op) : Task Op Ans ε (Ans o) :=
  .call o (fun r => match r with
    | .ok a => .ret a
    | .error e => .raise e)

def next : Task Op Ans ε α → Option Op
  | .call o _ => some o
  | _ => none

def outcome : Task Op Ans ε α → Option (Except ε α)
  | .ret a => some (.ok a)
  | .raise e => some (.error e)
  | .call _ _ => none

instance : Monad (Task Op Ans ε) where
  pure := .ret
  bind := .bind

@[simp] theorem pure_eq (a : α) : (pure a : Task Op Ans ε α) = .ret a := rfl

@[simp] theorem bind_eq (p : Task Op Ans ε α) (f : α → Task Op Ans ε β) : p >>= f = p.bind f := rfl

@[simp] theorem ret_bind (a : α) (f : α → Task Op Ans ε β) : (ret a : Task Op Ans ε α).bind f = f a := rfl

@[simp] theorem raise_bind (e : ε) (f : α → Task Op Ans ε β) :
    (raise e : Task Op Ans ε α).bind f = .raise e := rfl

abbrev Played (Op : Type) (Ans : Op → Type) (ε : Type) := List (Σ o : Op, Except ε (Ans o))

inductive Plays : Task Op Ans ε α → Played Op Ans ε → Except ε α → Prop
  | ret (a : α) : Plays (.ret a) [] (.ok a)
  | raise (e : ε) : Plays (.raise e) [] (.error e)
  | call (o : Op) (k : Except ε (Ans o) → Task Op Ans ε α) (r : Except ε (Ans o))
      (tr : Played Op Ans ε) (res : Except ε α) :
      Plays (k r) tr res → Plays (.call o k) (⟨o,r⟩ :: tr) res

def play [DecidableEq Op] : Task Op Ans ε α → Played Op Ans ε → Option (Except ε α)
  | .ret a, [] => some (.ok a)
  | .raise e, [] => some (.error e)
  | .call o k, ⟨o',r⟩ :: tr => if h : o' = o then (k (h ▸ r)).play tr else none
  | _, _ => none

theorem plays_of_play [DecidableEq Op] {p : Task Op Ans ε α} {tr : Played Op Ans ε} {res : Except ε α}
    (hp : p.play tr = some res) : Plays p tr res := by
  induction p generalizing tr with
  | ret a =>
    cases tr with
    | nil =>
      cases hp
      exact .ret a
    | cons x tr => cases hp
  | raise e =>
    cases tr with
    | nil =>
      cases hp
      exact .raise e
    | cons x tr => cases hp
  | call o k ih =>
    cases tr with
    | nil => cases hp
    | cons x tr =>
      obtain ⟨o',r⟩ := x
      simp only [play] at hp
      split at hp
      · rename_i h
        subst h
        exact .call o' k r tr res (ih r hp)
      · cases hp

theorem plays_bind {p : Task Op Ans ε α} {f : α → Task Op Ans ε β} {tr : Played Op Ans ε} {res : Except ε β}
    (hp : Plays (p.bind f) tr res) : (∃ tr₁ tr₂ a, tr = tr₁ ++ tr₂ ∧ Plays p tr₁ (.ok a) ∧ Plays (f a) tr₂ res) ∨
      ∃ e, Plays p tr (.error e) ∧ res = .error e := by
  induction p generalizing tr with
  | ret a => exact .inl ⟨[],tr,a,rfl,.ret a,hp⟩
  | raise e =>
    cases hp
    exact .inr ⟨e,.raise e,rfl⟩
  | call o k ih =>
    cases hp with
    | call _ _ r tr _ hk =>
      rcases ih r hk with ⟨tr₁,tr₂,a,rfl,h₁,h₂⟩ | ⟨e,h,he⟩
      · exact .inl ⟨_,tr₂,a,rfl,.call o k r tr₁ _ h₁,h₂⟩
      · exact .inr ⟨e,.call o k r tr _ h,he⟩

-- What holds of tasks however they are put together.
structure Compositional (P : ∀ {α : Type}, Task Op Ans ε α → Prop) : Prop where
  ret : ∀ {α : Type} (a : α), P (.ret a : Task Op Ans ε α)
  raise : ∀ {α : Type} (e : ε), P (.raise e : Task Op Ans ε α)
  bind : ∀ {α β : Type} {p : Task Op Ans ε α} {f : α → Task Op Ans ε β}, P p → (∀ a, P (f a)) → P (p.bind f)
  handle : ∀ {α : Type} {p : Task Op Ans ε α} {f : ε → Task Op Ans ε α}, P p → (∀ e, P (f e)) → P (p.handle f)
  ensuring : ∀ {α : Type} {p : Task Op Ans ε α} {fin : Task Op Ans ε Unit}, P p → P fin → P (p.ensuring fin)

end Task

end Coop
