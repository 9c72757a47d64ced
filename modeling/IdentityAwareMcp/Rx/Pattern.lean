import Mathlib.Data.List.Basic

namespace Rx

-- One consuming construct may be repeated; assertions look at one letter only.
inductive Pattern (σ : Type) where
  | eps
  | one (p : σ → Bool)
  | seq (r t : Pattern σ)
  | alt (r t : Pattern σ)
  | rep (p : σ → Bool) (lo : Nat) (hi : Option Nat) (greedy : Bool)
  | notAhead (p : σ → Bool)
  | notBehind (p : σ → Bool)
  | edge (p : σ → Bool)

-- Where the label of a match ends, and where the match ends.
abbrev Hit := Nat × Nat

abbrev Cont (σ : Type) := Option σ → List σ → Nat → Option Hit

variable {σ : Type}

def repeats (p : σ → Bool) (greedy : Bool) (k : Cont σ) : List σ → Nat → Option Nat → Option σ → Nat → Option Hit
  | [], lo, _, prev, n => if lo = 0 then k prev [] n else none
  | c :: s, lo, hi, prev, n =>
    let more := if p c && hi != some 0 then repeats p greedy k s (lo - 1) (hi.map (· - 1)) (some c) (n + 1) else none
    if lo ≠ 0 then more
    else if greedy then more.or (k prev (c :: s) n)
    else (k prev (c :: s) n).or more

-- Backtracking search: the alternatives in order, the first that the rest of the pattern accepts.
def Pattern.run : Pattern σ → Cont σ → Cont σ
  | .eps, k => k
  | .one p, k => fun _ s n => match s with
    | [] => none
    | c :: s => if p c then k (some c) s (n + 1) else none
  | .seq r t, k => r.run (t.run k)
  | .alt r t, k => fun prev s n => (r.run k prev s n).or (t.run k prev s n)
  | .rep p lo hi greedy, k => fun prev s n => repeats p greedy k s lo hi prev n
  | .notAhead p, k => fun prev s n => if s.head?.any p then none else k prev s n
  | .notBehind p, k => fun prev s n => if prev.any p then none else k prev s n
  | .edge p, k => fun prev s n => if prev.any p = s.head?.any p then none else k prev s n

def Pattern.Spells : Pattern σ → List σ → Prop
  | .one p, l => ∃ c, p c = true ∧ l = [c]
  | .seq r t, l => ∃ a b, l = a ++ b ∧ r.Spells a ∧ t.Spells b
  | .alt r t, l => r.Spells l ∨ t.Spells l
  | .rep p lo hi _, l => (∀ c ∈ l, p c = true) ∧ lo ≤ l.length ∧ ∀ h ∈ hi, l.length ≤ h
  | _, l => l = []

def Pattern.least : Pattern σ → Nat
  | .one _ => 1
  | .seq r t => r.least + t.least
  | .alt r t => min r.least t.least
  | .rep _ lo _ _ => lo
  | _ => 0

def Pattern.avoids (w : σ) : Pattern σ → Bool
  | .one p => !p w
  | .seq r t => r.avoids w && t.avoids w
  | .alt r t => r.avoids w && t.avoids w
  | .rep p _ _ _ => !p w
  | _ => true

-- An assertion cannot tell w from the end of the text.
def Pattern.neutral (w : σ) : Pattern σ → Bool
  | .seq r t => r.neutral w && t.neutral w
  | .alt r t => r.neutral w && t.neutral w
  | .notAhead p => !p w
  | .edge p => !p w
  | _ => true

theorem repeats_spells {p : σ → Bool} {greedy : Bool} {k : Cont σ} {s : List σ} {lo : Nat} {hi : Option Nat}
    {prev : Option σ} {n : Nat} {h : Hit} (hr : repeats p greedy k s lo hi prev n = some h) :
    ∃ l s' prev', s = l ++ s' ∧ (Pattern.rep p lo hi greedy).Spells l ∧ k prev' s' (n + l.length) = some h := by
  induction s generalizing lo hi prev n with
  | nil =>
    simp only [repeats] at hr
    split at hr
    · rename_i hlo
      exact ⟨[],[],prev,rfl,⟨by simp,by simp [hlo],by simp⟩,hr⟩
    · cases hr
  | cons c s ih =>
    have more : (if p c && hi != some 0 then repeats p greedy k s (lo - 1) (hi.map (· - 1)) (some c) (n + 1)
        else none) = some h → ∃ l s' prev', c :: s = l ++ s' ∧ (Pattern.rep p lo hi greedy).Spells l ∧
          k prev' s' (n + l.length) = some h := by
      intro hm
      split at hm
      · rename_i hc
        simp only [Bool.and_eq_true,bne_iff_ne,ne_eq] at hc
        obtain ⟨l,s',prev',rfl,⟨hall,hlo,hhi⟩,hk⟩ := ih hm
        refine ⟨c :: l,s',prev',rfl,⟨?_,?_,?_⟩,?_⟩
        · simpa using ⟨hc.1,hall⟩
        · simp only [List.length_cons]
          omega
        · rintro m rfl
          have hm := hhi (m - 1) rfl
          have hne : m ≠ 0 := fun h0 => hc.2 (by rw [h0])
          simp only [List.length_cons]
          omega
        · rw [← hk,List.length_cons]
          congr 1
          omega
      · cases hm
    have stop : lo = 0 → k prev (c :: s) n = some h → ∃ l s' prev', c :: s = l ++ s' ∧
        (Pattern.rep p lo hi greedy).Spells l ∧ k prev' s' (n + l.length) = some h :=
      fun hlo hk => ⟨[],c :: s,prev,rfl,⟨by simp,by simp [hlo],by simp⟩,hk⟩
    simp only [repeats] at hr
    split at hr
    · exact more hr
    · rename_i hlo
      have hlo := not_not.mp hlo
      split at hr
      · rcases Option.or_eq_some_iff.mp hr with hr | ⟨-,hr⟩
        · exact more hr
        · exact stop hlo hr
      · rcases Option.or_eq_some_iff.mp hr with hr | ⟨-,hr⟩
        · exact stop hlo hr
        · exact more hr

theorem run_spells {r : Pattern σ} {k : Cont σ} {prev : Option σ} {s : List σ} {n : Nat} {h : Hit}
    (hr : r.run k prev s n = some h) :
    ∃ l s' prev', s = l ++ s' ∧ r.Spells l ∧ k prev' s' (n + l.length) = some h := by
  induction r generalizing k prev s n with
  | eps => exact ⟨[],s,prev,rfl,rfl,hr⟩
  | one p =>
    cases s with
    | nil => cases hr
    | cons c s =>
      simp only [Pattern.run] at hr
      split at hr
      · rename_i hc
        exact ⟨[c],s,some c,rfl,⟨c,hc,rfl⟩,hr⟩
      · cases hr
  | seq r t ihr iht =>
    obtain ⟨a,s₁,p₁,rfl,ha,hk⟩ := ihr hr
    obtain ⟨b,s₂,p₂,rfl,hb,hk⟩ := iht hk
    refine ⟨a ++ b,s₂,p₂,(List.append_assoc ..).symm,⟨a,b,rfl,ha,hb⟩,?_⟩
    rw [List.length_append,← Nat.add_assoc]
    exact hk
  | alt r t ihr iht =>
    rcases Option.or_eq_some_iff.mp hr with hr | ⟨-,hr⟩
    · obtain ⟨l,s',prev',hs,hl,hk⟩ := ihr hr
      exact ⟨l,s',prev',hs,.inl hl,hk⟩
    · obtain ⟨l,s',prev',hs,hl,hk⟩ := iht hr
      exact ⟨l,s',prev',hs,.inr hl,hk⟩
  | rep p lo hi greedy => exact repeats_spells hr
  | notAhead p =>
    simp only [Pattern.run] at hr
    split at hr
    · cases hr
    · exact ⟨[],s,prev,rfl,rfl,hr⟩
  | notBehind p =>
    simp only [Pattern.run] at hr
    split at hr
    · cases hr
    · exact ⟨[],s,prev,rfl,rfl,hr⟩
  | edge p =>
    simp only [Pattern.run] at hr
    split at hr
    · cases hr
    · exact ⟨[],s,prev,rfl,rfl,hr⟩

theorem spells_least {r : Pattern σ} {l : List σ} (hl : r.Spells l) : r.least ≤ l.length := by
  induction r generalizing l with
  | one p =>
    obtain ⟨c,-,rfl⟩ := hl
    exact Nat.le_refl 1
  | seq r t ihr iht =>
    obtain ⟨a,b,rfl,ha,hb⟩ := hl
    rw [List.length_append]
    exact Nat.add_le_add (ihr ha) (iht hb)
  | alt r t ihr iht =>
    rcases hl with hl | hl
    · exact Nat.le_trans (Nat.min_le_left ..) (ihr hl)
    · exact Nat.le_trans (Nat.min_le_right ..) (iht hl)
  | rep p lo hi greedy => exact hl.2.1
  | _ => exact Nat.zero_le _

theorem spells_avoids {r : Pattern σ} {l : List σ} {w : σ} (hl : r.Spells l) (hw : r.avoids w = true) : w ∉ l := by
  induction r generalizing l with
  | one p =>
    obtain ⟨c,hc,rfl⟩ := hl
    rintro hm
    rw [List.mem_singleton.mp hm] at hw
    simp [Pattern.avoids,hc] at hw
  | seq r t ihr iht =>
    obtain ⟨a,b,rfl,ha,hb⟩ := hl
    obtain ⟨hr,ht⟩ := Bool.and_eq_true_iff.mp hw
    rw [List.mem_append]
    rintro (hm | hm)
    · exact ihr ha hr hm
    · exact iht hb ht hm
  | alt r t ihr iht =>
    obtain ⟨hr,ht⟩ := Bool.and_eq_true_iff.mp hw
    rcases hl with hl | hl
    · exact ihr hl hr
    · exact iht hl ht
  | rep p lo hi greedy =>
    intro hm
    simp [Pattern.avoids,hl.1 w hm] at hw
  | _ =>
    cases (show l = [] from hl)
    simp

end Rx
