import IdentityAwareMcp.Rx.Scan

namespace Rx

variable {σ : Type}

def left (prev : Option σ) (s : List σ) : Option σ := s.foldl (fun _ c => some c) prev

@[simp] theorem left_append_single (prev : Option σ) (s : List σ) (c : σ) : left prev (s ++ [c]) = some c := by
  simp [left]

theorem spans_attempt {ru : Rule σ} {s : List σ} {skip : Nat} {prev : Option σ} {i : Nat} {sp : Span}
    (h : sp ∈ ru.spansFrom s skip prev i) : ∃ p t m n, s = p ++ t ∧ sp = ⟨i + p.length,i + p.length + m,i + p.length + n⟩ ∧
      ru.attempt (left prev p) t = some (m,n) := by
  induction s generalizing skip prev i with
  | nil => cases h
  | cons c s ih =>
    have later : ∀ k, sp ∈ ru.spansFrom s k (some c) (i + 1) → ∃ p t m n, c :: s = p ++ t ∧
        sp = ⟨i + p.length,i + p.length + m,i + p.length + n⟩ ∧ ru.attempt (left prev p) t = some (m,n) := by
      intro k hk
      obtain ⟨p,t,m,n,rfl,rfl,ha⟩ := ih hk
      refine ⟨c :: p,t,m,n,rfl,?_,ha⟩
      rw [List.length_cons,Nat.add_right_comm i 1,Nat.add_assoc i]
    cases skip with
    | succ skip => exact later skip h
    | zero =>
      cases ha : ru.attempt prev (c :: s) with
      | none =>
        simp only [Rule.spansFrom,ha] at h
        exact later 0 h
      | some x =>
        obtain ⟨m,n⟩ := x
        simp only [Rule.spansFrom,ha,List.mem_cons] at h
        rcases h with rfl | h
        · exact ⟨[],c :: s,m,n,rfl,rfl,ha⟩
        · exact later _ h

def Clear (sps : List Span) (j : Nat) : Prop := ∀ sp ∈ sps, sp.start < j → sp.stop ≤ j

def Uncovered (sps : List Span) (j : Nat) : Prop := ∀ sp ∈ sps, ¬ (sp.start ≤ j ∧ j < sp.stop)

instance (sps : List Span) (j : Nat) : Decidable (Clear sps j) :=
  inferInstanceAs (Decidable (∀ sp ∈ sps, sp.start < j → sp.stop ≤ j))

instance (sps : List Span) (j : Nat) : Decidable (Uncovered sps j) :=
  inferInstanceAs (Decidable (∀ sp ∈ sps, ¬ (sp.start ≤ j ∧ j < sp.stop)))

-- A scan tries a match at every letter that no earlier match runs into.
theorem fates_reach {ru : Rule σ} {p s : List σ} {q : List Fate} {prev : Option σ} {i : Nat} (hq : q.length ≤ p.length)
    (hc : Clear (ru.spansFrom (p ++ s) q.length prev i) (i + p.length)) :
    ∃ f, f.length = p.length ∧ ru.fatesFrom (p ++ s) q prev = f ++ ru.fatesFrom s [] (left prev p) := by
  induction p generalizing q prev i with
  | nil =>
    cases List.length_eq_zero_iff.mp (Nat.le_zero.mp hq)
    exact ⟨[],rfl,rfl⟩
  | cons c p ih =>
    rw [List.length_cons,← Nat.add_assoc,Nat.add_right_comm] at hc
    cases q with
    | cons x q =>
      obtain ⟨f,hf,he⟩ := ih (q := q) (Nat.le_of_succ_le_succ hq) hc
      exact ⟨x :: f,congrArg (· + 1) hf,congrArg (x :: ·) he⟩
    | nil =>
      cases ha : ru.attempt prev (c :: (p ++ s)) with
      | none =>
        simp only [List.cons_append,List.length_nil,Rule.spansFrom,ha] at hc
        obtain ⟨f,hf,he⟩ := ih (q := []) (Nat.zero_le _) hc
        refine ⟨.kept :: f,congrArg (· + 1) hf,?_⟩
        rw [List.cons_append,fates_miss ha,he]
        rfl
      | some h =>
        obtain ⟨m,n⟩ := h
        obtain ⟨hm,-⟩ := attempt_bounds ha
        simp only [List.cons_append,List.length_nil,Rule.spansFrom,ha] at hc
        have hstop : i + n ≤ i + 1 + p.length := hc _ (List.mem_cons_self ..) (by simp only; omega)
        have hlen : (plan m n).tail.length = n - 1 := by rw [List.length_tail,plan_length hm]
        obtain ⟨f,hf,he⟩ : ∃ f, f.length = p.length ∧
            ru.fatesFrom (p ++ s) (plan m n).tail (some c) = f ++ ru.fatesFrom s [] (left (some c) p) :=
          ih (i := i + 1) (by omega) (by rw [hlen]; exact fun sp hsp => hc sp (List.mem_cons_of_mem _ hsp))
        refine ⟨(plan m n).headD .kept :: f,congrArg (· + 1) hf,?_⟩
        simp only [List.cons_append,Rule.fatesFrom,ha,he]
        rfl

-- A scan that never runs over the separator w treats what stands before it as the whole text.
theorem fates_cut {ru : Rule σ} {u v : List σ} {w : σ} (hl : ru.label.neutral w = true) (hb : ru.body.neutral w = true)
    {q : List Fate} {prev : Option σ} {i : Nat} (hq : q.length ≤ u.length)
    (hc : Uncovered (ru.spansFrom (u ++ w :: v) q.length prev i) (i + u.length)) :
    ru.fatesFrom (u ++ w :: v) q prev = ru.fatesFrom u q prev ++ .kept :: ru.fatesFrom v [] (some w) := by
  induction u generalizing q prev i with
  | nil =>
    cases List.length_eq_zero_iff.mp (Nat.le_zero.mp hq)
    cases ha : ru.attempt prev (w :: v) with
    | none => exact fates_miss ha
    | some h =>
      obtain ⟨m,n⟩ := h
      simp only [List.nil_append,List.length_nil,Rule.spansFrom,ha] at hc
      have hm := (attempt_bounds ha).1
      exact absurd ⟨Nat.le_refl i,by simp only; omega⟩ (hc _ (List.mem_cons_self ..))
  | cons c u ih =>
    rw [List.length_cons,← Nat.add_assoc,Nat.add_right_comm] at hc
    cases q with
    | cons x q => exact congrArg (x :: ·) (ih (Nat.le_of_succ_le_succ hq) hc)
    | nil =>
      have hstops := attempt_stops hl hb prev (c :: u) v
      rw [List.cons_append] at hstops
      cases ha : ru.attempt prev (c :: (u ++ w :: v)) with
      | none =>
        rw [ha] at hstops
        rcases hstops with ⟨h,hh,-⟩ | hs
        · cases hh
        · simp only [List.cons_append,List.length_nil,Rule.spansFrom,ha] at hc
          rw [List.cons_append,fates_miss ha,fates_miss hs.symm,ih (q := []) (Nat.zero_le _) hc]
          rfl
      | some h =>
        obtain ⟨m,n⟩ := h
        obtain ⟨hm,-⟩ := attempt_bounds ha
        simp only [List.cons_append,List.length_nil,Rule.spansFrom,ha] at hc
        have hstop : n ≤ u.length + 1 := by
          have hnot := hc _ (List.mem_cons_self ..)
          simp only at hnot
          omega
        rw [ha] at hstops
        rcases hstops with ⟨x,hx,hlt⟩ | hs
        · cases hx
          exact absurd hlt (Nat.not_lt.mpr hstop)
        · have hlen : (plan m n).tail.length = n - 1 := by rw [List.length_tail,plan_length hm]
          have hrest : ru.fatesFrom (u ++ w :: v) (plan m n).tail (some c) =
              ru.fatesFrom u (plan m n).tail (some c) ++ .kept :: ru.fatesFrom v [] (some w) :=
            ih (i := i + 1) (by omega) (by rw [hlen]; exact fun sp hsp => hc sp (List.mem_cons_of_mem _ hsp))
          simp only [List.cons_append,Rule.fatesFrom,ha,← hs,hrest]

theorem uncovered_avoids {ru : Rule σ} {u v : List σ} {w : σ} (hl : ru.label.avoids w = true)
    (hb : ru.body.avoids w = true) : Uncovered (ru.spans (u ++ w :: v)) u.length := by
  rintro sp hsp ⟨hlo,hhi⟩
  obtain ⟨p,t,m,n,hs,rfl,ha⟩ := spans_attempt hsp
  obtain ⟨a,b,r,rfl,hla,hlb,rfl,rfl⟩ := attempt_spells ha
  simp only [Nat.zero_add] at hlo hhi
  have hw : (u ++ w :: v)[u.length]? = some w := by simp
  rw [hs,List.getElem?_append_right hlo,← List.append_assoc,
    List.getElem?_append_left (by rw [List.length_append]; omega)] at hw
  rcases List.mem_append.mp (List.mem_of_getElem? hw) with hm | hm
  · exact spells_avoids hla hl hm
  · exact spells_avoids hlb hb hm

end Rx
