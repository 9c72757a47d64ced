import IdentityAwareMcp.Rx.Pattern

namespace Rx

variable {σ : Type}

def Grows (k : Cont σ) : Prop := ∀ prev s n h, k prev s n = some h → n ≤ h.2

theorem repeats_grows {p : σ → Bool} {lo : Nat} {hi : Option Nat} {greedy : Bool} {k : Cont σ} (hk : Grows k)
    {prev : Option σ} {s : List σ} {n : Nat} {h : Hit} (hr : repeats p greedy k s lo hi prev n = some h) :
    n ≤ h.2 := by
  obtain ⟨l,s',prev',-,-,hs⟩ := repeats_spells hr
  exact Nat.le_trans (Nat.le_add_right ..) (hk _ _ _ _ hs)

theorem run_grows (r : Pattern σ) {k : Cont σ} (hk : Grows k) : Grows (r.run k) := by
  intro prev s n h hr
  obtain ⟨l,s',prev',-,-,hs⟩ := run_spells hr
  exact Nat.le_trans (Nat.le_add_right ..) (hk _ _ _ _ hs)

section Windows

-- What is found inside a window of L letters stays, unless something longer takes its place.
def Keeps (L : Nat) : Option Hit → Option Hit → Prop
  | none, v => ∀ h, v = some h → L ≤ h.2
  | some h, v => h.2 < L → v = some h ∨ ∃ h', v = some h' ∧ L ≤ h'.2

theorem Keeps.none {L : Nat} : Keeps L none none := by
  intro h hv
  cases hv

theorem Keeps.or {L : Nat} {v v' u u' : Option Hit} (hv : Keeps L v v') (hu : Keeps L u u') :
    Keeps L (v.or u) (v'.or u') := by
  cases v with
  | none =>
    cases v' with
    | none => exact hu
    | some h' =>
      have hb : L ≤ h'.2 := hv h' rfl
      cases u with
      | none =>
        rintro h he
        cases he
        exact hb
      | some h => exact fun _ => .inr ⟨h',rfl,hb⟩
  | some h =>
    intro hl
    rcases hv hl with rfl | ⟨h',rfl,hb⟩
    · exact .inl rfl
    · exact .inr ⟨h',rfl,hb⟩

theorem Keeps.late {L : Nat} {v v' : Option Hit} (hv : ∀ h, v = some h → L ≤ h.2) (hv' : ∀ h, v' = some h → L ≤ h.2) :
    Keeps L v v' := by
  cases v with
  | none => exact hv'
  | some h => exact fun hl => absurd (hv h rfl) (Nat.not_le.mpr hl)

variable {x x' : List σ} {L : Nat}

def KeepsAll (x x' : List σ) (L : Nat) (k k' : Cont σ) : Prop :=
  ∀ prev b n, n + b.length = L → Keeps L (k prev (b ++ x) n) (k' prev (b ++ x') n)

theorem repeats_keeps {p : σ → Bool} {greedy : Bool} {k k' : Cont σ} (hk : KeepsAll x x' L k k') (hg : Grows k)
    (hg' : Grows k') {b : List σ} {lo : Nat} {hi : Option Nat} {prev : Option σ} {n : Nat} (hn : n + b.length = L) :
    Keeps L (repeats p greedy k (b ++ x) lo hi prev n) (repeats p greedy k' (b ++ x') lo hi prev n) := by
  induction b generalizing lo hi prev n with
  | nil =>
    cases hn
    exact .late (fun h hr => repeats_grows hg hr) (fun h hr => repeats_grows hg' hr)
  | cons c b ih =>
    have more : Keeps L (if p c && hi != some 0 then repeats p greedy k (b ++ x) (lo - 1) (hi.map (· - 1)) (some c) (n + 1)
        else none) (if p c && hi != some 0 then repeats p greedy k' (b ++ x') (lo - 1) (hi.map (· - 1)) (some c) (n + 1)
        else none) := by
      split
      · exact ih (by simp only [List.length_cons] at hn; omega)
      · exact .none
    have stop := hk prev (c :: b) n hn
    simp only [List.cons_append,repeats]
    split
    · exact more
    · split
      · exact more.or stop
      · exact stop.or more

theorem run_keeps (r : Pattern σ) {k k' : Cont σ} (hk : KeepsAll x x' L k k') (hg : Grows k) (hg' : Grows k') :
    KeepsAll x x' L (r.run k) (r.run k') := by
  induction r generalizing k k' with
  | eps => exact hk
  | seq r t ihr iht => exact ihr (iht hk hg hg') (run_grows t hg) (run_grows t hg')
  | alt r t ihr iht => exact fun prev b n hn => (ihr hk hg hg' prev b n hn).or (iht hk hg hg' prev b n hn)
  | rep p lo hi greedy => exact fun prev b n hn => repeats_keeps hk hg hg' hn
  | one p =>
    intro prev b n hn
    cases b with
    | nil =>
      cases hn
      exact .late (fun h hr => run_grows (.one p) hg _ _ _ _ hr) (fun h hr => run_grows (.one p) hg' _ _ _ _ hr)
    | cons c b =>
      simp only [Pattern.run,List.cons_append]
      split
      · exact hk (some c) b (n + 1) (by simp only [List.length_cons] at hn; omega)
      · exact .none
  | notAhead p =>
    intro prev b n hn
    cases b with
    | nil =>
      cases hn
      exact .late (fun h hr => run_grows (.notAhead p) hg _ _ _ _ hr)
        (fun h hr => run_grows (.notAhead p) hg' _ _ _ _ hr)
    | cons c b =>
      cases hc : p c with
      | true =>
        simp only [Pattern.run,List.cons_append,List.head?_cons,Option.any_some,hc,if_true]
        exact .none
      | false =>
        simp only [Pattern.run,List.cons_append,List.head?_cons,Option.any_some,hc]
        exact hk prev (c :: b) n hn
  | notBehind p =>
    intro prev b n hn
    simp only [Pattern.run]
    split
    · exact .none
    · exact hk prev b n hn
  | edge p =>
    intro prev b n hn
    cases b with
    | nil =>
      cases hn
      exact .late (fun h hr => run_grows (.edge p) hg _ _ _ _ hr) (fun h hr => run_grows (.edge p) hg' _ _ _ _ hr)
    | cons c b =>
      by_cases hc : prev.any p = p c
      · simp only [Pattern.run,List.cons_append,List.head?_cons,Option.any_some,hc,if_true]
        exact .none
      · simp only [Pattern.run,List.cons_append,List.head?_cons,Option.any_some,hc,if_false]
        exact hk prev (c :: b) n hn

end Windows

section Separators

-- A search before the letter w sees the end of the text there, or runs over w.
def Stops (L : Nat) (v v' : Option Hit) : Prop := (∃ h, v = some h ∧ L < h.2) ∨ v = v'

theorem Stops.or {L : Nat} {v v' u u' : Option Hit} (hv : Stops L v v') (hu : Stops L u u') :
    Stops L (v.or u) (v'.or u') := by
  rcases hv with ⟨h,rfl,hl⟩ | rfl
  · exact .inl ⟨h,rfl,hl⟩
  · cases v with
    | none => exact hu
    | some h => exact .inr rfl

theorem Stops.beyond {L : Nat} {v : Option Hit} (hv : ∀ h, v = some h → L < h.2) : Stops L v none := by
  cases v with
  | none => exact .inr rfl
  | some h => exact .inl ⟨h,rfl,hv h rfl⟩

variable {w : σ} {v : List σ} {L : Nat}

def StopsAll (w : σ) (v : List σ) (L : Nat) (k k' : Cont σ) : Prop :=
  ∀ prev s n, n + s.length = L → Stops L (k prev (s ++ w :: v) n) (k' prev s n)

theorem repeats_stops {p : σ → Bool} {greedy : Bool} {k k' : Cont σ} (hk : StopsAll w v L k k') (hg : Grows k)
    {s : List σ} {lo : Nat} {hi : Option Nat} {prev : Option σ} {n : Nat} (hn : n + s.length = L) :
    Stops L (repeats p greedy k (s ++ w :: v) lo hi prev n) (repeats p greedy k' s lo hi prev n) := by
  induction s generalizing lo hi prev n with
  | nil =>
    have more : Stops L (if p w && hi != some 0 then repeats p greedy k v (lo - 1) (hi.map (· - 1)) (some w) (n + 1)
        else none) none := by
      cases hn
      split
      · exact .beyond (fun h hr => Nat.lt_of_succ_le (repeats_grows hg hr))
      · exact .inr rfl
    have stop := hk prev [] n hn
    simp only [List.nil_append,repeats]
    by_cases hlo : lo = 0
    · simp only [hlo,ne_eq,not_true_eq_false,if_false,if_true]
      rw [hlo] at more
      split
      · exact more.or stop
      · rw [← Option.or_none (o := k' prev [] n)]
        exact stop.or more
    · simp only [ne_eq,hlo,not_false_eq_true,if_true,if_false]
      exact more
  | cons c s ih =>
    have more : Stops L (if p c && hi != some 0 then
          repeats p greedy k (s ++ w :: v) (lo - 1) (hi.map (· - 1)) (some c) (n + 1) else none)
        (if p c && hi != some 0 then repeats p greedy k' s (lo - 1) (hi.map (· - 1)) (some c) (n + 1) else none) := by
      split
      · exact ih (by simp only [List.length_cons] at hn; omega)
      · exact .inr rfl
    have stop := hk prev (c :: s) n hn
    simp only [List.cons_append,repeats]
    split
    · exact more
    · split
      · exact more.or stop
      · exact stop.or more

theorem run_stops {r : Pattern σ} (hw : r.neutral w = true) {k k' : Cont σ} (hk : StopsAll w v L k k')
    (hg : Grows k) : StopsAll w v L (r.run k) (r.run k') := by
  induction r generalizing k k' with
  | eps => exact hk
  | seq r t ihr iht =>
    obtain ⟨hr,ht⟩ := Bool.and_eq_true_iff.mp hw
    exact ihr hr (iht ht hk hg) (run_grows t hg)
  | alt r t ihr iht =>
    obtain ⟨hr,ht⟩ := Bool.and_eq_true_iff.mp hw
    exact fun prev s n hn => (ihr hr hk hg prev s n hn).or (iht ht hk hg prev s n hn)
  | rep p lo hi greedy => exact fun prev s n hn => repeats_stops hk hg hn
  | one p =>
    intro prev s n hn
    cases s with
    | nil =>
      cases hn
      simp only [Pattern.run,List.nil_append]
      split
      · exact .beyond (fun h hr => Nat.lt_of_succ_le (hg _ _ _ _ hr))
      · exact .inr rfl
    | cons c s =>
      simp only [Pattern.run,List.cons_append]
      split
      · exact hk (some c) s (n + 1) (by simp only [List.length_cons] at hn; omega)
      · exact .inr rfl
  | notAhead p =>
    intro prev s n hn
    have hp : p w = false := by simpa [Pattern.neutral] using hw
    have hhead : (s ++ w :: v).head?.any p = s.head?.any p := by cases s <;> simp [hp]
    simp only [Pattern.run,hhead]
    split
    · exact .inr rfl
    · exact hk prev s n hn
  | notBehind p =>
    intro prev s n hn
    simp only [Pattern.run]
    split
    · exact .inr rfl
    · exact hk prev s n hn
  | edge p =>
    intro prev s n hn
    have hp : p w = false := by simpa [Pattern.neutral] using hw
    have hhead : (s ++ w :: v).head?.any p = s.head?.any p := by cases s <;> simp [hp]
    simp only [Pattern.run,hhead]
    split
    · exact .inr rfl
    · exact hk prev s n hn

end Separators

end Rx
