import IdentityAwareMcp.Rx.Surroundings

namespace Rx

variable {σ : Type}

-- A match keeps what its label took and masks what its body took.
structure Rule (σ : Type) where
  label : Pattern σ
  body : Pattern σ
  wide : 0 < body.least

structure Span where
  start : Nat
  secret : Nat
  stop : Nat
deriving DecidableEq

def accept (m : Nat) : Cont σ := fun _ _ n => some (m,n)

def Rule.attempt (ru : Rule σ) (prev : Option σ) (s : List σ) : Option Hit :=
  ru.label.run (fun p t m => ru.body.run (accept m) p t m) prev s 0

-- finditer: the matches of a scan, which resumes where the last match ended.
def Rule.spansFrom (ru : Rule σ) : List σ → Nat → Option σ → Nat → List Span
  | [], _, _, _ => []
  | c :: s, skip + 1, _, i => ru.spansFrom s skip (some c) (i + 1)
  | c :: s, 0, prev, i => match ru.attempt prev (c :: s) with
    | some (m,n) => ⟨i,i + m,i + n⟩ :: ru.spansFrom s (n - 1) (some c) (i + 1)
    | none => ru.spansFrom s 0 (some c) (i + 1)

def Rule.spans (ru : Rule σ) (s : List σ) : List Span := ru.spansFrom s 0 none 0

variable {α : Type} (ch : α → σ) (mask : List α)

def Rule.subFrom (ru : Rule σ) : List α → Nat → Option σ → List α
  | [], _, _ => []
  | c :: s, skip + 1, _ => ru.subFrom s skip (some (ch c))
  | c :: s, 0, prev => match ru.attempt prev ((c :: s).map ch) with
    | some (m,n) => (c :: s).take m ++ mask ++ ru.subFrom s (n - 1) (some (ch c))
    | none => c :: ru.subFrom s 0 (some (ch c))

def Rule.sub (ru : Rule σ) (s : List α) : List α := ru.subFrom ch mask s 0 none

theorem attempt_spells {ru : Rule σ} {prev : Option σ} {s : List σ} {m n : Nat} (ha : ru.attempt prev s = some (m,n)) :
    ∃ a b t, s = a ++ (b ++ t) ∧ ru.label.Spells a ∧ ru.body.Spells b ∧ m = a.length ∧ n = a.length + b.length := by
  obtain ⟨a,s₁,p₁,rfl,hla,hk⟩ := run_spells ha
  obtain ⟨b,t,p₂,rfl,hlb,hk⟩ := run_spells hk
  simp only [accept,Option.some.injEq,Prod.mk.injEq] at hk
  exact ⟨a,b,t,rfl,hla,hlb,by omega,by omega⟩

theorem attempt_bounds {ru : Rule σ} {prev : Option σ} {s : List σ} {m n : Nat} (ha : ru.attempt prev s = some (m,n)) :
    m < n ∧ n ≤ s.length := by
  obtain ⟨a,b,t,rfl,-,hb,rfl,rfl⟩ := attempt_spells ha
  have hwide := Nat.lt_of_lt_of_le ru.wide (spells_least hb)
  simp only [List.length_append]
  omega

theorem grows_accept (m : Nat) : Grows (accept m : Cont σ) := by
  rintro prev s n h hk
  cases hk
  exact Nat.le_refl n

theorem grows_body (ru : Rule σ) : Grows (fun p t m => ru.body.run (accept m) p t m) :=
  fun prev s n h hk => run_grows ru.body (grows_accept n) prev s n h hk

theorem attempt_keeps (ru : Rule σ) (prev : Option σ) (b x x' : List σ) :
    Keeps b.length (ru.attempt prev (b ++ x)) (ru.attempt prev (b ++ x')) := by
  refine run_keeps ru.label ?_ (grows_body ru) (grows_body ru) prev b 0 (Nat.zero_add _)
  intro p c m hm
  refine run_keeps ru.body ?_ (grows_accept m) (grows_accept m) p c m hm
  intro q d n hn
  exact fun _ => .inl rfl

theorem attempt_stops {ru : Rule σ} {w : σ} (hl : ru.label.neutral w = true) (hb : ru.body.neutral w = true)
    (prev : Option σ) (s v : List σ) : Stops s.length (ru.attempt prev (s ++ w :: v)) (ru.attempt prev s) := by
  refine run_stops hl ?_ (grows_body ru) prev s 0 (Nat.zero_add _)
  intro p t m hm
  refine run_stops hb ?_ (grows_accept m) p t m hm
  exact fun q d n hn => .inr rfl

inductive Fate where
  | kept
  | masked
  | dropped
deriving DecidableEq

def plan (m n : Nat) : List Fate := List.replicate m .kept ++ .masked :: List.replicate (n - m - 1) .dropped

-- What becomes of each letter; q is what is already settled for the next ones.
def Rule.fatesFrom (ru : Rule σ) : List σ → List Fate → Option σ → List Fate
  | [], _, _ => []
  | c :: s, f :: q, _ => f :: ru.fatesFrom s q (some c)
  | c :: s, [], prev => match ru.attempt prev (c :: s) with
    | some (m,n) => (plan m n).headD .kept :: ru.fatesFrom s (plan m n).tail (some c)
    | none => .kept :: ru.fatesFrom s [] (some c)

def Rule.fates (ru : Rule σ) (s : List σ) : List Fate := ru.fatesFrom s [] none

def render : List α → List Fate → List α
  | c :: s, .kept :: f => c :: render s f
  | _ :: s, .masked :: f => mask ++ render s f
  | _ :: s, .dropped :: f => render s f
  | _, _ => []

@[simp] theorem plan_zero (n : Nat) : plan 0 n = .masked :: List.replicate (n - 1) .dropped := rfl

@[simp] theorem plan_succ (m n : Nat) : plan (m + 1) (n + 1) = .kept :: plan m n := by
  simp only [plan,List.replicate_succ,List.cons_append,Nat.add_sub_add_right]

theorem plan_length {m n : Nat} (h : m < n) : (plan m n).length = n := by
  simp only [plan,List.length_append,List.length_replicate,List.length_cons]
  omega

theorem plan_cons {m n : Nat} : (plan m n).headD .kept :: (plan m n).tail = plan m n := by
  cases m <;> rfl

theorem fates_length (ru : Rule σ) (s : List σ) (q : List Fate) (prev : Option σ) :
    (ru.fatesFrom s q prev).length = s.length := by
  induction s generalizing q prev with
  | nil => cases q <;> rfl
  | cons c s ih =>
    cases q with
    | cons f q => simp only [Rule.fatesFrom,List.length_cons,ih]
    | nil =>
      simp only [Rule.fatesFrom]
      split <;> simp only [List.length_cons,ih]

-- At a match the scan behaves as one that had its plan from the start.
theorem fates_hit {ru : Rule σ} {c : σ} {s : List σ} {prev p : Option σ} {m n : Nat}
    (ha : ru.attempt prev (c :: s) = some (m,n)) :
    ru.fatesFrom (c :: s) [] prev = ru.fatesFrom (c :: s) (plan m n) p := by
  rw [← plan_cons]
  simp only [Rule.fatesFrom,ha]

theorem fates_miss {ru : Rule σ} {c : σ} {s : List σ} {prev : Option σ} (ha : ru.attempt prev (c :: s) = none) :
    ru.fatesFrom (c :: s) [] prev = .kept :: ru.fatesFrom s [] (some c) := by
  simp only [Rule.fatesFrom,ha]

variable {ch mask}

theorem render_append (s t : List α) (f g : List Fate) (h : f.length = s.length) :
    render mask (s ++ t) (f ++ g) = render mask s f ++ render mask t g := by
  induction s generalizing f with
  | nil =>
    cases List.length_eq_zero_iff.mp h
    rfl
  | cons c s ih =>
    cases f with
    | nil => cases h
    | cons x f =>
      have hl : f.length = s.length := Nat.succ.inj h
      cases x <;> simp [render,ih f hl]

theorem sub_plan {ru : Rule σ} {s : List α} (hd : ∀ t : List α, t.length < s.length → ∀ skip prev, ru.subFrom ch mask t skip prev =
      render mask t (ru.fatesFrom (t.map ch) (List.replicate skip .dropped) prev)) {m n : Nat} {prev : Option σ}
    (hm : m < n) (hn : n ≤ s.length) :
    s.take m ++ mask ++ ru.subFrom ch mask s n prev = render mask s (ru.fatesFrom (s.map ch) (plan m n) prev) := by
  induction m generalizing s n prev with
  | zero =>
    cases s with
    | nil => exact absurd (Nat.lt_of_lt_of_le hm hn) (Nat.lt_irrefl 0)
    | cons c s =>
      obtain ⟨n,rfl⟩ := Nat.exists_eq_succ_of_ne_zero (Nat.ne_of_gt hm)
      have hrest := hd s (Nat.lt_succ_self _) n (some (ch c))
      simp only [Nat.succ_eq_add_one] at hn ⊢
      simp only [List.take_zero,List.nil_append,Rule.subFrom,plan_zero,List.map_cons,Rule.fatesFrom,render,
        Nat.add_sub_cancel,hrest]
  | succ m ih =>
    cases s with
    | nil => exact absurd (Nat.lt_of_lt_of_le hm hn) (Nat.not_lt_zero _)
    | cons c s =>
      obtain ⟨n,rfl⟩ := Nat.exists_eq_succ_of_ne_zero (Nat.ne_of_gt (Nat.lt_trans (Nat.succ_pos m) hm))
      simp only [Nat.succ_eq_add_one] at hm hn ⊢
      have hrest : s.take m ++ mask ++ ru.subFrom ch mask s n (some (ch c)) =
          render mask s (ru.fatesFrom (s.map ch) (plan m n) (some (ch c))) :=
        ih (fun t ht => hd t (Nat.lt_trans ht (Nat.lt_succ_self _))) (by omega) (by simpa using hn)
      simp only [List.take_succ_cons,List.cons_append,Rule.subFrom,plan_succ,List.map_cons,Rule.fatesFrom,render]
      rw [← hrest]

theorem subFrom_eq_render (ru : Rule σ) (s : List α) (skip : Nat) (prev : Option σ) : ru.subFrom ch mask s skip prev =
    render mask s (ru.fatesFrom (s.map ch) (List.replicate skip .dropped) prev) := by
  induction hl : s.length using Nat.strongRecOn generalizing s skip prev with
  | ind l ih =>
    subst hl
    cases s with
    | nil => rfl
    | cons c s =>
      cases skip with
      | succ skip => exact ih s.length (Nat.lt_succ_self _) s skip (some (ch c)) rfl
      | zero =>
        cases ha : ru.attempt prev ((c :: s).map ch) with
        | none =>
          simp only [List.map_cons] at ha
          have hrest := ih s.length (Nat.lt_succ_self _) s 0 (some (ch c)) rfl
          simp only [List.replicate_zero] at hrest
          simp only [Rule.subFrom,List.map_cons,ha,List.replicate_zero,fates_miss ha,render,hrest]
        | some h =>
          obtain ⟨m,n⟩ := h
          obtain ⟨hm,hn⟩ := attempt_bounds ha
          have hplan : (c :: s).take m ++ mask ++ ru.subFrom ch mask (c :: s) n prev =
              render mask (c :: s) (ru.fatesFrom ((c :: s).map ch) (plan m n) prev) :=
            sub_plan (fun t ht skip prev => ih t.length ht t skip prev rfl) hm (by simpa using hn)
          obtain ⟨n,rfl⟩ := Nat.exists_eq_succ_of_ne_zero (Nat.ne_of_gt (Nat.zero_lt_of_lt hm))
          simp only [List.map_cons] at ha hplan
          simp only [List.replicate_zero,List.map_cons,fates_hit (p := prev) ha]
          rw [← hplan]
          simp only [Rule.subFrom,List.map_cons,ha,Nat.succ_eq_add_one,Nat.add_sub_cancel]

theorem sub_eq_render (ru : Rule σ) (s : List α) : ru.sub ch mask s = render mask s (ru.fates (s.map ch)) :=
  subFrom_eq_render ru s 0 none

theorem sub_none {ru : Rule σ} {s : List α} (h : ru.spans (s.map ch) = []) : ru.sub ch mask s = s := by
  have scan : ∀ (s : List α) (prev : Option σ) (i : Nat), ru.spansFrom (s.map ch) 0 prev i = [] →
      ru.subFrom ch mask s 0 prev = s := by
    intro s
    induction s with
    | nil => exact fun _ _ _ => rfl
    | cons c s ih =>
      intro prev i h
      cases ha : ru.attempt prev (ch c :: s.map ch) with
      | some x =>
        simp only [List.map_cons,Rule.spansFrom,ha] at h
        cases h
      | none =>
        simp only [List.map_cons,Rule.spansFrom,ha] at h
        simp only [Rule.subFrom,List.map_cons,ha,ih (some (ch c)) (i + 1) h]
  exact scan s none 0 h

end Rx
