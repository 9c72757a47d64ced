import Mathlib.Algebra.GroupWithZero.Nat
import Mathlib.Logic.Function.Iterate
import IdentityAwareMcp.Rx.Trace

namespace Rx

variable {σ α : Type}

section Cutting

-- A text cut up by the matches in it: what stands before a match, its label and its body.
inductive Cuts (mask : List α) : List α → Nat → List Span → List α → Prop
  | rest (s : List α) (i : Nat) : Cuts mask s i [] s
  | hit {k l b t out : List α} {i : Nat} {sps : List Span} : b ≠ [] →
      Cuts mask t (i + k.length + l.length + b.length) sps out →
      Cuts mask (k ++ (l ++ (b ++ t))) i
        (⟨i + k.length,i + k.length + l.length,i + k.length + l.length + b.length⟩ :: sps)
        (k ++ (l ++ (mask ++ out)))

variable {mask : List α} {ch : α → σ}

theorem Cuts.keep {s out : List α} {i : Nat} {sps : List Span} (h : Cuts mask s (i + 1) sps out) (c : α) :
    Cuts mask (c :: s) i sps (c :: out) := by
  generalize hj : i + 1 = j at h
  cases h with
  | rest => exact .rest (c :: s) i
  | @hit k l b t out _ sps hb ht =>
    subst hj
    have hi : i + 1 + k.length = i + (c :: k).length := by
      rw [List.length_cons]
      omega
    rw [hi] at ht ⊢
    exact .hit (k := c :: k) hb ht

variable (mask ch) in
theorem scan_skip (ru : Rule σ) (a s : List α) (prev : Option σ) (i : Nat) :
    ∃ p, ru.subFrom ch mask (a ++ s) a.length prev = ru.subFrom ch mask s 0 p ∧
      ru.spansFrom ((a ++ s).map ch) a.length prev i = ru.spansFrom (s.map ch) 0 p (i + a.length) := by
  induction a generalizing prev i with
  | nil => exact ⟨prev,rfl,rfl⟩
  | cons c a ih =>
    obtain ⟨p,hsub,hspans⟩ := ih (some (ch c)) (i + 1)
    refine ⟨p,hsub,hspans.trans ?_⟩
    rw [List.length_cons,Nat.add_assoc,Nat.add_comm 1]

theorem Cuts.at_once {s out : List α} {i m n : Nat} {sps : List Span} (hm : m < n) (hn : n ≤ s.length)
    (h : Cuts mask (s.drop n) (i + n) sps out) :
    Cuts mask s i (⟨i,i + m,i + n⟩ :: sps) (s.take m ++ (mask ++ out)) := by
  have hl : (s.take m).length = m := by
    rw [List.length_take]
    omega
  have hb : ((s.drop m).take (n - m)).length = n - m := by
    rw [List.length_take,List.length_drop]
    omega
  have htail : s.drop n = (s.drop m).drop (n - m) := by rw [List.drop_drop,show m + (n - m) = n by omega]
  have hsplit : s = [] ++ (s.take m ++ ((s.drop m).take (n - m) ++ s.drop n)) := by
    rw [htail,List.nil_append,List.take_append_drop,List.take_append_drop]
  have hstop : i + m + (n - m) = i + n := by omega
  have hsolid : (s.drop m).take (n - m) ≠ [] := fun he => by
    rw [he,List.length_nil] at hb
    omega
  have hcut : Cuts mask ([] ++ (s.take m ++ ((s.drop m).take (n - m) ++ s.drop n))) i _ ([] ++ (s.take m ++ (mask ++ out))) :=
    .hit hsolid (by rwa [List.length_nil,Nat.add_zero,hl,hb,hstop])
  rwa [← hsplit,List.length_nil,Nat.add_zero,hl,hb,hstop] at hcut

variable (mask ch) in
theorem sub_cuts (ru : Rule σ) (s : List α) (prev : Option σ) (i : Nat) :
    Cuts mask s i (ru.spansFrom (s.map ch) 0 prev i) (ru.subFrom ch mask s 0 prev) := by
  induction hn : s.length using Nat.strongRecOn generalizing s prev i with
  | ind n ih =>
    subst hn
    cases s with
    | nil => exact .rest [] i
    | cons c s =>
      cases ha : ru.attempt prev ((c :: s).map ch) with
      | none =>
        simp only [List.map_cons] at ha
        simp only [List.map_cons,Rule.spansFrom,Rule.subFrom,ha]
        exact (ih s.length (Nat.lt_succ_self _) s (some (ch c)) (i + 1) rfl).keep c
      | some x =>
        obtain ⟨m,n⟩ := x
        obtain ⟨hm,hn⟩ := attempt_bounds ha
        rw [List.length_map,List.length_cons] at hn
        obtain ⟨p,hsub,hspans⟩ := scan_skip mask ch ru (s.take (n - 1)) (s.drop (n - 1)) (some (ch c)) (i + 1)
        have hskip : (s.take (n - 1)).length = n - 1 := by
          rw [List.length_take]
          omega
        rw [List.take_append_drop,hskip] at hsub hspans
        have hrest := ih (s.drop (n - 1)).length (by rw [List.length_drop,List.length_cons]; omega) (s.drop (n - 1)) p
          (i + n) rfl
        have htail : s.drop (n - 1) = (c :: s).drop n := by
          obtain ⟨n,rfl⟩ := Nat.exists_eq_succ_of_ne_zero (Nat.ne_of_gt (Nat.zero_lt_of_lt hm))
          rfl
        rw [htail] at hrest hsub hspans
        have hcut := hrest.at_once hm (by rwa [List.length_cons])
        have hi : i + 1 + (n - 1) = i + n := by omega
        rw [hi] at hspans
        simp only [List.map_cons] at ha
        simp only [List.map_cons,Rule.spansFrom,Rule.subFrom,ha,hsub,hspans,List.append_assoc]
        exact hcut

theorem Cuts.later {s out : List α} {i : Nat} {sps : List Span} (h : Cuts mask s i sps out) {sp : Span} (hsp : sp ∈ sps) :
    i ≤ sp.start ∧ sp.start ≤ sp.secret := by
  induction h with
  | rest => cases hsp
  | hit _ _ ih =>
    rcases List.mem_cons.mp hsp with rfl | hsp
    · simp only
      omega
    · have hlater := ih hsp
      omega

-- The body of the match reads like a mask already.
def Masked (mask s : List σ) (i : Nat) (sp : Span) : Prop :=
  ∃ x y, s = x ++ (mask ++ y) ∧ sp.secret = i + x.length ∧ sp.stop = i + x.length + mask.length

theorem Masked.shift {mask s : List σ} {x : List σ} {i : Nat} {sp : Span} (h : Masked mask s (i + x.length) sp) :
    Masked mask (x ++ s) i sp := by
  obtain ⟨y,z,rfl,hs,ht⟩ := h
  refine ⟨x ++ y,z,(List.append_assoc ..).symm,?_,?_⟩ <;> rw [List.length_append] <;> omega

theorem Masked.unshift {mask s : List σ} {x : List σ} {i : Nat} {sp : Span} (h : Masked mask (x ++ s) i sp)
    (hx : i + x.length ≤ sp.secret) : Masked mask s (i + x.length) sp := by
  obtain ⟨y,z,he,hs,ht⟩ := h
  have hle : x.length ≤ y.length := by omega
  obtain ⟨y',rfl⟩ : x <+: y := List.prefix_of_prefix_length_le (List.prefix_append x s) (he ▸ List.prefix_append y _) hle
  rw [List.append_assoc] at he
  rw [List.length_append] at hs ht
  exact ⟨y',z,List.append_cancel_left he,by omega,by omega⟩

theorem Cuts.idle {mask s out : List σ} {i : Nat} {sps : List Span} (h : Cuts mask s i sps out)
    (hm : ∀ sp ∈ sps, Masked mask s i sp) : out = s := by
  induction h with
  | rest => rfl
  | @hit k l b t out i sps hb ht ih =>
    have hsplit : k ++ (l ++ (b ++ t)) = (k ++ l ++ b) ++ t := by simp only [List.append_assoc]
    have hlen : i + (k ++ l ++ b).length = i + k.length + l.length + b.length := by
      simp only [List.length_append]
      omega
    have hbody : b = mask := by
      obtain ⟨x,y,he,hs,hstop⟩ := hm _ List.mem_cons_self
      simp only at hs hstop
      rw [← List.append_assoc k] at he
      obtain ⟨-,he⟩ := List.append_inj he (by rw [List.length_append]; omega)
      exact (List.append_inj he (by omega)).1
    have hrest : out = t := by
      refine ih (fun sp hsp => ?_)
      have hle := ht.later hsp
      rw [← hlen]
      refine Masked.unshift ?_ (by omega)
      rw [← hsplit]
      exact hm sp (List.mem_cons_of_mem _ hsp)
    rw [hbody,hrest]

end Cutting

section Pieces

-- A letter of the original text, or a mask that stands for a part of it.
inductive Piece (σ : Type) where
  | kept (c : σ)
  | removed (r : List σ)

namespace Piece

def source : Piece σ → List σ
  | .kept c => [c]
  | .removed r => r

def shown (mask : List σ) : Piece σ → List σ
  | .kept c => [c]
  | .removed _ => mask

def weight : Piece σ → Nat
  | .kept _ => 2
  | .removed _ => 1

end Piece

def sources (ps : List (Piece σ)) : List σ := ps.flatMap Piece.source

def shows (mask : List σ) (ps : List (Piece σ)) : List σ := ps.flatMap (Piece.shown mask)

def weigh (ps : List (Piece σ)) : Nat := (ps.map Piece.weight).sum

def cells (mask : List σ) : Nat → List (Piece σ) → List (Cell σ)
  | _, [] => []
  | i, .kept c :: ps => (c,some i) :: cells mask (i + 1) ps
  | i, .removed r :: ps => blank mask ++ cells mask (i + r.length) ps

def Solid (ps : List (Piece σ)) : Prop := ∀ r, .removed r ∈ ps → r ≠ []

variable {mask : List σ}

@[simp] theorem sources_append (a b : List (Piece σ)) : sources (a ++ b) = sources a ++ sources b := List.flatMap_append

@[simp] theorem shows_append (a b : List (Piece σ)) : shows mask (a ++ b) = shows mask a ++ shows mask b :=
  List.flatMap_append

@[simp] theorem weigh_append (a b : List (Piece σ)) : weigh (a ++ b) = weigh a + weigh b := by
  rw [weigh,List.map_append,List.sum_append]
  rfl

@[simp] theorem weigh_cons (p : Piece σ) (ps : List (Piece σ)) : weigh (p :: ps) = p.weight + weigh ps := rfl

theorem sources_cons (p : Piece σ) (ps : List (Piece σ)) : sources (p :: ps) = p.source ++ sources ps := rfl

theorem shows_cons (p : Piece σ) (ps : List (Piece σ)) : shows mask (p :: ps) = p.shown mask ++ shows mask ps := rfl

theorem cells_append (i : Nat) (a b : List (Piece σ)) :
    cells mask i (a ++ b) = cells mask i a ++ cells mask (i + (sources a).length) b := by
  induction a generalizing i with
  | nil => rfl
  | cons p a ih =>
    have hlen : ∀ n, i + n + (sources a).length = i + (n + (sources a).length) := fun n => Nat.add_assoc ..
    cases p with
    | kept c =>
      rw [sources_cons,List.length_append,← hlen]
      exact congrArg ((c,some i) :: ·) (ih (i + 1))
    | removed r =>
      rw [sources_cons,List.length_append,← hlen]
      simp only [List.cons_append,cells,ih,List.append_assoc]
      rfl

theorem letters_cells (i : Nat) (ps : List (Piece σ)) : letters (cells mask i ps) = shows mask ps := by
  induction ps generalizing i with
  | nil => rfl
  | cons p ps ih =>
    cases p with
    | kept c => exact congrArg (c :: ·) (ih (i + 1))
    | removed r =>
      rw [cells,letters_append,letters_blank,ih]
      rfl

theorem cells_length (i : Nat) (ps : List (Piece σ)) : (cells mask i ps).length = (shows mask ps).length := by
  rw [← letters_cells i ps,letters,List.length_map]

theorem cells_kept (i : Nat) (s : List σ) : cells mask i (s.map .kept) = tagFrom i s := by
  induction s generalizing i with
  | nil => rfl
  | cons c s ih =>
    rw [List.map_cons,cells,ih]
    rfl

theorem shows_kept (s : List σ) : shows mask (s.map .kept) = s := by
  rw [← letters_cells 0,cells_kept,letters_tagFrom]

theorem sources_kept (s : List σ) : sources (s.map Piece.kept) = s := by
  induction s with
  | nil => rfl
  | cons c s ih => exact congrArg (c :: ·) ih

theorem weigh_kept (s : List σ) : weigh (s.map Piece.kept) = 2 * s.length := by
  induction s with
  | nil => rfl
  | cons c s ih =>
    rw [List.map_cons,weigh_cons,ih,List.length_cons]
    simp only [Piece.weight]
    omega

theorem weigh_pos {ps : List (Piece σ)} (h : ps ≠ []) : 0 < weigh ps := by
  cases ps with
  | nil => exact absurd rfl h
  | cons p ps => cases p <;> simp only [weigh_cons,Piece.weight] <;> omega

-- Nothing but a single mask weighs as little as a mask.
theorem weigh_mask {ps : List (Piece σ)} (h : ps ≠ []) (hw : weigh ps ≤ 1) : shows mask ps = mask := by
  cases ps with
  | nil => exact absurd rfl h
  | cons p ps =>
    cases p with
    | kept c =>
      simp only [weigh_cons,Piece.weight] at hw
      omega
    | removed r =>
      have hps : ps = [] := by
        by_contra hne
        have hpos := weigh_pos hne
        simp only [weigh_cons,Piece.weight] at hw
        omega
      rw [hps,shows_cons]
      exact List.append_nil mask

theorem solid_source {ps : List (Piece σ)} (hs : Solid ps) (h : ps ≠ []) : sources ps ≠ [] := by
  cases ps with
  | nil => exact absurd rfl h
  | cons p ps =>
    cases p with
    | kept c => exact List.cons_ne_nil _ _
    | removed r => exact fun he => hs r List.mem_cons_self (List.append_eq_nil_iff.mp he).1

-- Where a text of pieces may be cut without cutting a mask.
variable (mask) in
theorem pieces_split (ps : List (Piece σ)) {n : Nat} (hn : n ≤ (shows mask ps).length)
    (h : ∀ a r b, ps = a ++ .removed r :: b → n ≤ (shows mask a).length ∨ (shows mask a).length + mask.length ≤ n) :
    ∃ a b, ps = a ++ b ∧ (shows mask a).length = n := by
  induction ps generalizing n with
  | nil => exact ⟨[],[],rfl,(Nat.le_zero.mp hn).symm⟩
  | cons p ps ih =>
    by_cases h0 : n = 0
    · exact ⟨[],p :: ps,rfl,h0.symm⟩
    have hp : (p.shown mask).length ≤ n := by
      cases p with
      | kept c => exact Nat.pos_of_ne_zero h0
      | removed r =>
        rcases h [] r ps rfl with hle | hle
        · exact absurd (Nat.le_zero.mp hle) h0
        · simpa [shows,Piece.shown] using hle
    rw [shows_cons,List.length_append] at hn
    obtain ⟨a,b,rfl,ha⟩ := ih (n := n - (p.shown mask).length) (by omega) (by
      rintro a r b rfl
      have hcut := h (p :: a) r b rfl
      rw [shows_cons,List.length_append] at hcut
      omega)
    refine ⟨p :: a,b,rfl,?_⟩
    rw [shows_cons,List.length_append,ha]
    omega

-- A match takes in all of a stretch of L letters at j, in its body, or none of it.
def Whole (L j : Nat) (sp : Span) : Prop := (sp.stop ≤ j ∨ j + L ≤ sp.start) ∨ sp.secret ≤ j ∧ j + L ≤ sp.stop

-- Pieces are merged where a mask takes the place of several of them.
inductive Merges : List (Piece σ) → List (Piece σ) → Prop
  | rest (ps : List (Piece σ)) : Merges ps ps
  | hit {k b t t' : List (Piece σ)} : b ≠ [] → Merges t t' → Merges (k ++ (b ++ t)) (k ++ .removed (sources b) :: t')

theorem Merges.sources {ps ps' : List (Piece σ)} (h : Merges ps ps') : sources ps' = sources ps := by
  induction h with
  | rest => rfl
  | hit _ _ ih => simp only [sources_append,sources_cons,Piece.source,ih]

theorem Merges.weigh {ps ps' : List (Piece σ)} (h : Merges ps ps') : weigh ps' ≤ weigh ps := by
  induction h with
  | rest => exact Nat.le_refl _
  | hit hb _ ih =>
    have hpos := weigh_pos hb
    simp only [weigh_append,weigh_cons,Piece.weight]
    omega

theorem Merges.solid {ps ps' : List (Piece σ)} (h : Merges ps ps') (hs : Solid ps) : Solid ps' := by
  induction h with
  | rest => exact hs
  | @hit k b t t' hb _ ih =>
    intro r hr
    rcases List.mem_append.mp hr with hr | hr
    · exact hs r (List.mem_append_left _ hr)
    · rcases List.mem_cons.mp hr with he | hr
      · cases he
        exact solid_source (fun r hr => hs r (List.mem_append_right _ (List.mem_append_left _ hr))) hb
      · exact ih (fun r hr => hs r (List.mem_append_right _ (List.mem_append_right _ hr))) r hr

-- A scan whose matches are all whole on the masks merges pieces; where it makes the text no lighter, every
-- match already reads like a mask.
theorem cuts_merge {cs out : List (Cell σ)} {i o : Nat} {sps : List Span} {ps : List (Piece σ)}
    (h : Cuts (blank mask) cs i sps out) (hcs : cs = cells mask o ps)
    (hw : ∀ sp ∈ sps, ∀ a r b, ps = a ++ .removed r :: b → Whole mask.length (i + (shows mask a).length) sp) :
    ∃ ps', Merges ps ps' ∧ out = cells mask o ps' ∧
      (weigh ps ≤ weigh ps' → ∀ sp ∈ sps, Masked mask (shows mask ps) i sp) := by
  induction h generalizing o ps with
  | rest cs i => exact ⟨ps,.rest ps,hcs,by simp⟩
  | @hit k l b t out i sps hb ht ih =>
    have hlen : (k ++ (l ++ (b ++ t))).length = (shows mask ps).length := by rw [hcs,cells_length]
    simp only [List.length_append] at hlen
    obtain ⟨p₁,q,rfl,h₁⟩ := pieces_split mask ps (n := k.length + l.length) (by omega) (by
      intro a r b he
      have hx := hw _ List.mem_cons_self a r b he
      simp only [Whole] at hx
      omega)
    rw [cells_append,← List.append_assoc k] at hcs
    obtain ⟨hc₁,hcs⟩ := List.append_inj hcs (by rw [cells_length,h₁,List.length_append])
    have hq : b.length + t.length = (shows mask q).length := by rw [← List.length_append,hcs,cells_length]
    obtain ⟨p₂,p₃,rfl,h₂⟩ := pieces_split mask q (n := b.length) (by omega) (by
      rintro a r b rfl
      have hx := hw _ List.mem_cons_self (p₁ ++ a) r b (List.append_assoc ..).symm
      simp only [Whole,shows_append,List.length_append,h₁] at hx
      omega)
    rw [cells_append] at hcs
    obtain ⟨hc₂,hc₃⟩ := List.append_inj hcs (by rw [cells_length,h₂])
    have hstop : i + (shows mask (p₁ ++ p₂)).length = i + k.length + l.length + b.length := by
      rw [shows_append,List.length_append,h₁,h₂]
      omega
    obtain ⟨p₃',hmerge,hout,hidle⟩ := ih hc₃ (by
      rintro sp hsp a r b rfl
      have hx := hw sp (List.mem_cons_of_mem _ hsp) (p₁ ++ p₂ ++ a) r b (by simp only [List.append_assoc])
      rwa [shows_append,List.length_append,← Nat.add_assoc,hstop] at hx)
    have hne : p₂ ≠ [] := by
      rintro rfl
      exact hb (List.length_eq_zero_iff.mp h₂.symm)
    refine ⟨_,.hit (k := p₁) hne hmerge,?_,fun hle => ?_⟩
    · rw [cells_append,← hc₁,cells,← hout]
      simp only [List.append_assoc]
    · have hpos := weigh_pos hne
      have hdown := hmerge.weigh
      simp only [weigh_append,weigh_cons,Piece.weight] at hle
      have hmask : shows mask p₂ = mask := weigh_mask hne (by omega)
      intro sp hsp
      rcases List.mem_cons.mp hsp with rfl | hsp
      · refine ⟨shows mask p₁,shows mask p₃,by rw [shows_append,shows_append,hmask],?_,?_⟩
        · simp only [h₁]
          omega
        · rw [hmask] at h₂
          simp only [h₁,h₂]
          omega
      · have hrest := hidle (by omega) sp hsp
        rw [← hstop] at hrest
        rw [← List.append_assoc,shows_append]
        exact hrest.shift

def Rule.Atomic (mask : List σ) (ru : Rule σ) : Prop :=
  ∀ a b, ∀ sp ∈ ru.spans (a ++ (mask ++ b)), Whole mask.length a.length sp

theorem Rule.Atomic.whole {ru : Rule σ} (ha : ru.Atomic mask) {ps a b : List (Piece σ)} {r : List σ}
    (hps : ps = a ++ .removed r :: b) {sp : Span} (hsp : sp ∈ ru.spans (shows mask ps)) :
    Whole mask.length (shows mask a).length sp := by
  rw [hps,shows_append,shows_cons] at hsp
  exact ha _ _ sp hsp

theorem pass_merge {ru : Rule σ} (ha : ru.Atomic mask) (ps : List (Piece σ)) :
    ∃ ps', Merges ps ps' ∧ ru.pass mask (cells mask 0 ps) = cells mask 0 ps' ∧
      (weigh ps ≤ weigh ps' → ∀ sp ∈ ru.spans (shows mask ps), Masked mask (shows mask ps) 0 sp) := by
  have hcut := sub_cuts (blank mask) Prod.fst ru (cells mask 0 ps) none 0
  have hletters : (cells mask 0 ps).map Prod.fst = shows mask ps := letters_cells 0 ps
  rw [hletters] at hcut
  refine cuts_merge hcut rfl (fun sp hsp a r b hps => ?_)
  rw [Nat.zero_add]
  exact ha.whole hps hsp

theorem sub_idle {ru : Rule σ} {s : List σ} (h : ∀ sp ∈ ru.spans s, Masked mask s 0 sp) : ru.sub id mask s = s := by
  have hcut := sub_cuts mask id ru s none 0
  rw [List.map_id] at hcut
  exact hcut.idle h

end Pieces

section Passing

variable {mask : List σ} {rules : List (Rule σ)}

structure Thins (ps ps' : List (Piece σ)) : Prop where
  sources : sources ps' = sources ps
  weigh : weigh ps' ≤ weigh ps
  solid : Solid ps → Solid ps'

theorem Thins.trans {ps ps' ps'' : List (Piece σ)} (h : Thins ps ps') (h' : Thins ps' ps'') : Thins ps ps'' :=
  ⟨h'.sources.trans h.sources,Nat.le_trans h'.weigh h.weigh,fun hs => h'.solid (h.solid hs)⟩

theorem Merges.thins {ps ps' : List (Piece σ)} (h : Merges ps ps') : Thins ps ps' := ⟨h.sources,h.weigh,h.solid⟩

-- Every match of every rule reads like a mask already.
def Settled (mask : List σ) (rules : List (Rule σ)) (s : List σ) : Prop :=
  ∀ ru ∈ rules, ∀ sp ∈ ru.spans s, Masked mask s 0 sp

theorem passes_merge (hr : ∀ ru ∈ rules, ru.Atomic mask) (ps : List (Piece σ)) :
    ∃ ps', Thins ps ps' ∧ passes mask rules (cells mask 0 ps) = cells mask 0 ps' ∧
      (weigh ps ≤ weigh ps' → Settled mask rules (shows mask ps)) := by
  induction rules generalizing ps with
  | nil => exact ⟨ps,(Merges.rest ps).thins,rfl,fun _ _ h => nomatch h⟩
  | cons ru rules ih =>
    obtain ⟨ps₁,hmerge,hpass,hmasked⟩ := pass_merge (hr ru List.mem_cons_self) ps
    obtain ⟨ps₂,hthin,hpasses,hsettled⟩ := ih (fun ru' h => hr ru' (List.mem_cons_of_mem _ h)) ps₁
    refine ⟨ps₂,hmerge.thins.trans hthin,by rw [passes_cons,hpass,hpasses],fun hle => ?_⟩
    have hru := hmasked (Nat.le_trans hle hthin.weigh)
    have hsame : shows mask ps₁ = shows mask ps := by
      rw [← letters_cells 0 ps₁,← hpass,pass_letters,letters_cells]
      exact sub_idle hru
    intro ru' hmem
    rcases List.mem_cons.mp hmem with rfl | hmem
    · exact hru
    · rw [← hsame]
      exact hsettled (Nat.le_trans hmerge.weigh hle) ru' hmem

def subs (mask : List σ) (rules : List (Rule σ)) (s : List σ) : List σ := rules.foldl (fun s ru => ru.sub id mask s) s

theorem subs_letters (cs : List (Cell σ)) : subs mask rules (letters cs) = letters (passes mask rules cs) := by
  induction rules generalizing cs with
  | nil => rfl
  | cons ru rules ih =>
    rw [passes_cons,← ih,pass_letters]
    rfl

theorem subs_idle {s : List σ} (hs : Settled mask rules s) : subs mask rules s = s := by
  induction rules with
  | nil => rfl
  | cons ru rules ih =>
    have hru : ru.sub id mask s = s := sub_idle (hs ru List.mem_cons_self)
    rw [subs,List.foldl_cons,hru]
    exact ih (fun ru' h => hs ru' (List.mem_cons_of_mem _ h))

theorem subs_merge (hr : ∀ ru ∈ rules, ru.Atomic mask) (ps : List (Piece σ)) :
    ∃ ps', Thins ps ps' ∧ subs mask rules (shows mask ps) = shows mask ps' ∧
      (weigh ps ≤ weigh ps' → Settled mask rules (shows mask ps)) := by
  obtain ⟨ps',hthin,hpasses,hsettled⟩ := passes_merge hr ps
  refine ⟨ps',hthin,?_,hsettled⟩
  rw [← letters_cells 0 ps,subs_letters,hpasses,letters_cells]

theorem settles_in (hr : ∀ ru ∈ rules, ru.Atomic mask) {w : Nat} (ps : List (Piece σ)) (hw : weigh ps ≤ w) :
    ∃ n ≤ w, Settled mask rules ((subs mask rules)^[n] (shows mask ps)) := by
  induction w generalizing ps with
  | zero =>
    obtain ⟨ps',-,-,hsettled⟩ := subs_merge hr ps
    exact ⟨0,Nat.le_refl 0,hsettled (by omega)⟩
  | succ w ih =>
    obtain ⟨ps',hthin,hsubs,hsettled⟩ := subs_merge hr ps
    by_cases hle : weigh ps ≤ weigh ps'
    · exact ⟨0,Nat.zero_le _,hsettled hle⟩
    · obtain ⟨n,hn,hset⟩ := ih ps' (by omega)
      refine ⟨n + 1,Nat.succ_le_succ hn,?_⟩
      rw [Function.iterate_succ_apply,hsubs]
      exact hset

-- A text that a pass leaves as it is has no match but of masks: repeated passes come to such a text.
theorem subs_fixed (hr : ∀ ru ∈ rules, ru.Atomic mask) (s : List σ) : subs mask rules s = s ↔ Settled mask rules s := by
  refine ⟨fun h => ?_,subs_idle⟩
  obtain ⟨n,-,hset⟩ := settles_in hr (s.map Piece.kept) (Nat.le_refl _)
  rwa [shows_kept,Function.iterate_fixed h] at hset

theorem subs_settle (hr : ∀ ru ∈ rules, ru.Atomic mask) (s : List σ) :
    ∃ n ≤ 2 * s.length, Settled mask rules ((subs mask rules)^[n] s) := by
  obtain ⟨n,hn,hset⟩ := settles_in hr (s.map .kept) (Nat.le_of_eq (weigh_kept s))
  rw [shows_kept] at hset
  exact ⟨n,hn,hset⟩

end Passing

end Rx
