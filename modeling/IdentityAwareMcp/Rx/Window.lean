import IdentityAwareMcp.Rx.Trace

namespace Rx

variable {σ : Type} {mask : List σ}

theorem origins_cons_some (c : σ) (o : Nat) (cs : List (Cell σ)) : origins ((c,some o) :: cs) = o :: origins cs := rfl

theorem mem_origins {cs : List (Cell σ)} {c : σ} {o : Nat} (h : (c,some o) ∈ cs) : o ∈ origins cs :=
  List.mem_filterMap.mpr ⟨(c,some o),h,rfl⟩

section Survival

theorem render_all {b : List (Cell σ)} {f : List Fate} (hlen : f.length = b.length) (hb : ∀ x ∈ b, x.2 ≠ none)
    (hd : (origins b).Nodup) (hall : ∀ o ∈ origins b, o ∈ origins (render (blank mask) b f)) :
    render (blank mask) b f = b := by
  induction b generalizing f with
  | nil =>
    cases List.length_eq_zero_iff.mp hlen
    rfl
  | cons x b ih =>
    obtain ⟨c,y⟩ := x
    cases y with
    | none => exact absurd rfl (hb _ (List.mem_cons_self ..))
    | some o =>
      rw [origins_cons_some,List.nodup_cons] at hd
      cases f with
      | nil => cases hlen
      | cons y f =>
        have ho : o ∈ origins (render (blank mask) ((c,some o) :: b) (y :: f)) := hall o (List.mem_cons_self ..)
        cases y with
        | kept =>
          refine congrArg ((c,some o) :: ·) (ih (Nat.succ.inj hlen) (fun x hx => hb x (List.mem_cons_of_mem _ hx)) hd.2 ?_)
          intro o' ho'
          rcases List.mem_cons.mp (hall o' (List.mem_cons_of_mem _ ho')) with rfl | h
          · exact absurd ho' hd.1
          · exact h
        | masked =>
          simp only [render,origins_append,origins_blank,List.nil_append] at ho
          exact absurd ((origins_render mask b f).subset ho) hd.1
        | dropped => exact absurd ((origins_render mask b f).subset ho) hd.1

theorem render_lost {cs : List (Cell σ)} {f : List Fate} (hd : (origins cs).Nodup) {j : Nat} {c : σ} {o : Nat} {y : Fate}
    (hj : cs[j]? = some (c,some o)) (hy : f[j]? = some y) (hk : y ≠ .kept) : o ∉ origins (render (blank mask) cs f) := by
  induction cs generalizing f j with
  | nil => cases hj
  | cons x cs ih =>
    obtain ⟨d,i⟩ := x
    cases f with
    | nil => cases hy
    | cons z f =>
      have hsub := (origins_render mask cs f).subset
      cases j with
      | zero =>
        cases hj
        rw [origins_cons_some,List.nodup_cons] at hd
        cases z with
        | kept =>
          cases hy
          exact absurd rfl hk
        | masked =>
          simp only [render,origins_append,origins_blank,List.nil_append]
          exact fun h => hd.1 (hsub h)
        | dropped => exact fun h => hd.1 (hsub h)
      | succ j =>
        simp only [List.getElem?_cons_succ] at hj hy
        have ho : o ∈ origins cs := mem_origins (List.mem_of_getElem? hj)
        have hrest : (origins cs).Nodup := by
          cases i with
          | none => exact hd
          | some i => exact (List.nodup_cons.mp hd).2
        have hlost := ih hrest hj hy
        cases z with
        | kept =>
          cases i with
          | none => exact hlost
          | some i =>
            rw [origins_cons_some,List.nodup_cons] at hd
            simp only [render,origins_cons_some,List.mem_cons,not_or]
            exact ⟨fun h => hd.1 (h ▸ ho),hlost⟩
        | masked =>
          simp only [render,origins_append,origins_blank,List.nil_append]
          exact hlost
        | dropped => exact hlost

-- A window none of whose letters is replaced comes through a pass in one piece.
theorem pass_window {ru : Rule σ} {p b q : List (Cell σ)} (hb : ∀ x ∈ b, x.2 ≠ none)
    (hd : (origins (p ++ (b ++ q))).Nodup) (hk : ∀ o ∈ origins b, o ∈ origins (ru.pass mask (p ++ (b ++ q)))) :
    ∃ p' q', ru.pass mask (p ++ (b ++ q)) = p' ++ (b ++ q') ∧ (p = [] → p' = []) ∧ (q = [] → q' = []) := by
  obtain ⟨f,hf⟩ : ∃ f, ru.fates (letters (p ++ (b ++ q))) = f := ⟨_,rfl⟩
  have hlen : f.length = p.length + (b.length + q.length) := by
    rw [← hf,Rule.fates,fates_length,letters,List.length_map,List.length_append,List.length_append]
  have hsplit : f = f.take p.length ++ ((f.drop p.length).take b.length ++ (f.drop p.length).drop b.length) := by
    rw [List.take_append_drop,List.take_append_drop]
  have hp : (f.take p.length).length = p.length := by rw [List.length_take]; omega
  have hmid : ((f.drop p.length).take b.length).length = b.length := by rw [List.length_take,List.length_drop]; omega
  rw [pass_render,hf,hsplit,render_append _ _ _ _ hp,render_append _ _ _ _ hmid] at hk ⊢
  have hwhole : render (blank mask) b ((f.drop p.length).take b.length) = b := by
    refine render_all hmid hb ?_ ?_
    · rw [origins_append,origins_append] at hd
      exact (List.nodup_append.mp (List.nodup_append.mp hd).2.1).1
    · intro o ho
      have ho' := hk o ho
      rw [origins_append,origins_append] at ho' hd
      rw [List.nodup_append,List.nodup_append] at hd
      rcases List.mem_append.mp ho' with h | h
      · exact absurd rfl (hd.2.2 o ((origins_render mask p _).subset h) o (List.mem_append_left _ ho))
      · rcases List.mem_append.mp h with h | h
        · exact h
        · exact absurd rfl (hd.2.1.2.2 o ho o ((origins_render mask q _).subset h))
  refine ⟨_,_,by rw [hwhole],?_,?_⟩
  · rintro rfl
    rfl
  · rintro rfl
    cases List.drop b.length (List.drop p.length f) <;> rfl

theorem passes_window {rules : List (Rule σ)} {p b q : List (Cell σ)} (hb : ∀ x ∈ b, x.2 ≠ none)
    (hd : (origins (p ++ (b ++ q))).Nodup) (hk : ∀ o ∈ origins b, o ∈ origins (passes mask rules (p ++ (b ++ q)))) :
    ∃ p' q', passes mask rules (p ++ (b ++ q)) = p' ++ (b ++ q') ∧ (p = [] → p' = []) ∧ (q = [] → q' = []) := by
  induction rules generalizing p q with
  | nil => exact ⟨p,q,rfl,id,id⟩
  | cons ru rules ih =>
    have hstep : ∀ o ∈ origins b, o ∈ origins (ru.pass mask (p ++ (b ++ q))) :=
      fun o ho => (passes_origins rules _).subset (hk o ho)
    obtain ⟨p₁,q₁,h₁,hp₁,hq₁⟩ := pass_window hb hd hstep
    have hd₁ : (origins (p₁ ++ (b ++ q₁))).Nodup := h₁ ▸ hd.sublist (pass_origins ru _)
    have hrest : passes mask (ru :: rules) (p ++ (b ++ q)) = passes mask rules (p₁ ++ (b ++ q₁)) :=
      congrArg (passes mask rules) h₁
    rw [hrest] at hk ⊢
    obtain ⟨p₂,q₂,h₂,hp₂,hq₂⟩ := ih hd₁ hk
    exact ⟨p₂,q₂,h₂,fun h => hp₂ (hp₁ h),fun h => hq₂ (hq₁ h)⟩

end Survival

section Finds

-- Where a match is found again, its label does not grow.
def Rule.Sharp (ru : Rule σ) : Prop := ∀ prev prev' s s' m n m' n', ru.attempt prev s = some (m,n) →
  ru.attempt prev' s' = some (m',n') → s.take n = s'.take n → m' ≤ m

theorem sharp_eps {ru : Rule σ} (hl : ru.label = .eps) : ru.Sharp := by
  intro prev prev' s s' m n m' n' _ ha' _
  obtain ⟨a',b',t',rfl,hla',-,rfl,-⟩ := attempt_spells ha'
  rw [hl] at hla'
  cases (show a' = [] from hla')
  exact Nat.zero_le m

-- A label that ends with its only mark.
theorem sharp_mark {ru : Rule σ} {r : Pattern σ} {p : σ → Bool} (hl : ru.label = .seq r (.seq (.one p) .eps))
    (hr : ∀ c, p c = true → r.avoids c = true) : ru.Sharp := by
  intro prev prev' s s' m n m' n' ha ha' ht
  obtain ⟨a,b,t,rfl,hla,-,rfl,rfl⟩ := attempt_spells ha
  obtain ⟨a',b',t',rfl,hla',-,rfl,-⟩ := attempt_spells ha'
  rw [hl] at hla hla'
  obtain ⟨x,_,rfl,-,_,_,rfl,⟨c,hc,rfl⟩,rfl⟩ := hla
  obtain ⟨x',_,rfl,hx',_,_,rfl,⟨c',-,rfl⟩,rfl⟩ := hla'
  by_contra hlt
  simp only [List.append_nil,List.length_append,List.length_singleton] at hlt ht
  have hat : (x' ++ [c'] ++ (b' ++ t'))[x.length]? = some c := by
    have hget := congrArg (fun l => l[x.length]?) ht
    simp only [List.getElem?_take] at hget
    rw [if_pos (by omega),if_pos (by omega)] at hget
    rw [← hget]
    simp
  rw [List.append_assoc,List.getElem?_append_left (by omega)] at hat
  exact spells_avoids hx' (hr c hc) (List.mem_of_getElem? hat)

-- A label of fixed length up to a run of letters with which the body cannot start.
theorem sharp_run {ru : Rule σ} {r : Pattern σ} {p : σ → Bool} {lo w : Nat} {greedy : Bool}
    (hl : ru.label = .seq r (.rep p lo none greedy)) (hr : ∀ l, r.Spells l → l.length = w)
    (hb : ∀ c b, ru.body.Spells (c :: b) → p c = false) : ru.Sharp := by
  intro prev prev' s s' m n m' n' ha ha' ht
  have hmn := (attempt_bounds ha).1
  obtain ⟨a,b,t,rfl,hla,hlb,rfl,rfl⟩ := attempt_spells ha
  obtain ⟨a',b',t',rfl,hla',-,rfl,-⟩ := attempt_spells ha'
  rw [hl] at hla hla'
  obtain ⟨x,y,rfl,hx,-⟩ := hla
  obtain ⟨x',y',rfl,hx',hy',-⟩ := hla'
  by_contra hlt
  cases b with
  | nil => exact absurd hmn (Nat.lt_irrefl _)
  | cons c b =>
    have hw := hr x hx
    have hw' := hr x' hx'
    have hat : (x' ++ y' ++ (b' ++ t'))[(x ++ y).length]? = some c := by
      have hget := congrArg (fun l => l[(x ++ y).length]?) ht
      simp only [List.getElem?_take] at hget
      rw [if_pos hmn,if_pos hmn] at hget
      rw [← hget]
      simp
    simp only [List.length_append] at hat hlt
    rw [List.append_assoc,List.getElem?_append_right (by omega),List.getElem?_append_left (by omega)] at hat
    have hp := hb c b hlb
    rw [hy' c (List.mem_of_getElem? hat)] at hp
    cases hp

theorem attempt_again {ru : Rule σ} (hs : ru.Sharp) {prev : Option σ} {b x x' : List σ} {m n : Nat}
    (ha : ru.attempt prev (b ++ x) = some (m,n)) (hn : n ≤ b.length) (hx : n < b.length ∨ x = x') :
    ∃ m' n', ru.attempt prev (b ++ x') = some (m',n') ∧ m' ≤ m ∧ n ≤ n' := by
  have htake : (b ++ x).take n = (b ++ x').take n := by
    rw [List.take_append_of_le_length hn,List.take_append_of_le_length hn]
  rcases hx with hlt | rfl
  · have hk := attempt_keeps ru prev b x x'
    rw [ha] at hk
    rcases hk hlt with h | ⟨⟨m',n'⟩,h,hle⟩
    · exact ⟨m,n,h,Nat.le_refl m,Nat.le_refl n⟩
    · exact ⟨m',n',h,hs _ _ _ _ _ _ _ _ ha h htake,Nat.le_trans hn hle⟩
  · exact ⟨m,n,ha,Nat.le_refl m,Nat.le_refl n⟩

theorem fates_queue (ru : Rule σ) {s : List σ} {q : List Fate} (prev : Option σ) (hq : q.length ≤ s.length) :
    ∃ g, ru.fatesFrom s q prev = q ++ g := by
  induction q generalizing s prev with
  | nil => exact ⟨_,rfl⟩
  | cons x q ih =>
    cases s with
    | nil => cases hq
    | cons c s =>
      obtain ⟨g,hg⟩ := ih (some c) (Nat.le_of_succ_le_succ hq)
      exact ⟨g,congrArg (x :: ·) hg⟩

theorem plan_secret {m n i : Nat} (hm : m ≤ i) (hi : i < n) : ∃ y, (plan m n)[i]? = some y ∧ y ≠ .kept := by
  rw [plan,List.getElem?_append_right (by simpa using hm),List.length_replicate]
  cases hj : i - m with
  | zero => exact ⟨.masked,rfl,by decide⟩
  | succ j =>
    refine ⟨.dropped,?_,by decide⟩
    rw [List.getElem?_cons_succ,List.getElem?_replicate,if_pos (by omega)]

theorem neighbour (p : List σ) : ∃ a l, p = a ++ l ∧ l.length ≤ 1 ∧ (l = [] → a = []) := by
  rcases List.eq_nil_or_concat' p with rfl | ⟨a,c,rfl⟩
  · exact ⟨[],[],rfl,Nat.zero_le 1,fun _ => rfl⟩
  · exact ⟨a,[c],rfl,Nat.le_refl 1,fun h => nomatch h⟩

theorem left_neighbour {a a' l : List σ} (hl : l.length ≤ 1) (ha : l = [] → a = []) (ha' : l = [] → a' = []) :
    left none (a ++ l) = left none (a' ++ l) := by
  match l with
  | [] => rw [ha rfl,ha' rfl]
  | [c] => simp
  | _ :: _ :: _ => simp at hl

variable {ru : Rule σ} {rules earlier later : List (Rule σ)}

theorem stage_window {a l b z : List σ} (hk : ∀ o, a.length ≤ o → o < a.length + (l.length + b.length) →
      o ∈ origins (passes mask rules (tag (a ++ l ++ (b ++ z))))) :
    ∃ p q, passes mask rules (tag (a ++ l ++ (b ++ z))) =
      p ++ tagFrom a.length l ++ (tagFrom (a.length + l.length) b ++ q) ∧ (a = [] → p = []) ∧ (z = [] → q = []) := by
  have htag : tag (a ++ l ++ (b ++ z)) = tagFrom 0 a ++ (tagFrom a.length (l ++ b) ++
      tagFrom (a.length + (l ++ b).length) z) := by
    rw [tag,List.append_assoc,← List.append_assoc l,tagFrom_append,tagFrom_append,Nat.zero_add]
  have hd := origins_nodup (a ++ l ++ (b ++ z))
  rw [htag] at hk hd ⊢
  obtain ⟨p,q,hpq,hp,hq⟩ : ∃ p q, passes mask rules (tagFrom 0 a ++ (tagFrom a.length (l ++ b) ++
      tagFrom (a.length + (l ++ b).length) z)) = p ++ (tagFrom a.length (l ++ b) ++ q) ∧ (tagFrom 0 a = [] → p = []) ∧
        (tagFrom (a.length + (l ++ b).length) z = [] → q = []) := by
    refine passes_window ?_ hd ?_
    · intro x hx
      simp only [tagFrom,List.mem_map] at hx
      obtain ⟨y,-,rfl⟩ := hx
      simp
    · intro o ho
      rw [origins_tagFrom,List.mem_range',List.length_append] at ho
      obtain ⟨i,hi,rfl⟩ := ho
      exact hk _ (by omega) (by omega)
  refine ⟨p,q,?_,fun h => hp (by rw [h]; rfl),fun h => hq (by rw [h]; rfl)⟩
  rw [hpq,tagFrom_append]
  simp only [List.append_assoc]

theorem lost_in_window {x q : List (Cell σ)} {b : List σ} {k m n i : Nat}
    (hd : (origins (x ++ (tagFrom k b ++ q))).Nodup) (ha : ru.attempt (left none (letters x)) (b ++ letters q) = some (m,n))
    (hc : Clear (ru.spans (letters (x ++ (tagFrom k b ++ q)))) x.length) (hm : m ≤ i) (hn : i < n) (hi : i < b.length) :
    k + i ∉ origins (ru.pass mask (x ++ (tagFrom k b ++ q))) := by
  have hletters : letters (x ++ (tagFrom k b ++ q)) = letters x ++ (b ++ letters q) := by simp
  have hx : x.length = (letters x).length := (List.length_map _).symm
  rw [hletters,hx] at hc
  obtain ⟨f,hf,hfates⟩ := fates_reach (i := 0) (q := []) (Nat.zero_le _) (by rw [Nat.zero_add]; exact hc)
  obtain ⟨hlt,hle⟩ := attempt_bounds ha
  obtain ⟨g,hg⟩ := fates_queue ru (left none (letters x)) (s := b ++ letters q) (q := plan m n)
    (by rw [plan_length hlt]; exact hle)
  obtain ⟨c,y,hb⟩ : ∃ c y, b ++ letters q = c :: y := by
    cases b with
    | nil => exact absurd hi (Nat.not_lt_zero i)
    | cons c b => exact ⟨c,_,rfl⟩
  have hrest : ru.fatesFrom (b ++ letters q) [] (left none (letters x)) = plan m n ++ g := by
    rw [hb] at ha hg ⊢
    rw [fates_hit ha,hg]
  obtain ⟨v,hv,hvk⟩ := plan_secret hm hn
  rw [pass_render,hletters,Rule.fates,hfates,hrest]
  refine render_lost hd (j := x.length + i) (c := b.get ⟨i,hi⟩) (y := v) ?_ ?_ hvk
  · rw [List.getElem?_append_right (Nat.le_add_right ..),Nat.add_sub_cancel_left,
      List.getElem?_append_left (by rw [tagFrom_length]; exact hi)]
    simp [tagFrom,hi]
  · rw [hx,← hf,List.getElem?_append_right (Nat.le_add_right ..),Nat.add_sub_cancel_left,
      List.getElem?_append_left (by rw [plan_length hlt]; omega)]
    exact hv

-- A match found in the text is masked at its rule's turn when it and its neighbours have come through
-- unreplaced and no earlier match of the rule then runs into it.
theorem masks_found {t : List σ} {sp : Span} (hs : ru.Sharp) (hsp : sp ∈ ru.spans t)
    (hk : ∀ o < t.length, sp.start ≤ o + 1 → o ≤ sp.stop → o ∈ origins (passes mask earlier (tag t)))
    (hc : Clear (ru.spans (letters (passes mask earlier (tag t)))) (place sp.start (passes mask earlier (tag t))))
    {o : Nat} (hlo : sp.secret ≤ o) (hhi : o < sp.stop) : o ∉ origins (passes mask (earlier ++ ru :: later) (tag t)) := by
  obtain ⟨p,s,m,n,rfl,rfl,ha⟩ := spans_attempt hsp
  obtain ⟨hm,hn⟩ := attempt_bounds ha
  obtain ⟨a,l,rfl,hl,hal⟩ := neighbour p
  obtain ⟨b,z,rfl,hb,hz⟩ : ∃ b z, s = b ++ z ∧ (n ≤ b.length ∧ b.length ≤ n + 1) ∧ (n < b.length ∨ z = []) := by
    refine ⟨s.take (n + 1),s.drop (n + 1),(List.take_append_drop ..).symm,?_,?_⟩
    · rw [List.length_take]
      omega
    · by_cases h : n < s.length
      · left
        rw [List.length_take]
        omega
      · right
        exact List.drop_eq_nil_of_le (by omega)
  simp only [Nat.zero_add,List.length_append] at hk hc hlo hhi
  have hnodup : (origins (passes mask earlier (tag (a ++ l ++ (b ++ z))))).Nodup :=
    (origins_nodup _).sublist (passes_origins earlier _)
  obtain ⟨p,q,hstage,hp,hq⟩ : ∃ p q, passes mask earlier (tag (a ++ l ++ (b ++ z))) =
      p ++ tagFrom a.length l ++ (tagFrom (a.length + l.length) b ++ q) ∧ (a = [] → p = []) ∧ (z = [] → q = []) :=
    stage_window (fun o hle hlt => hk o (by omega) (by omega) (by omega))
  rw [hstage] at hc hnodup
  obtain ⟨i,rfl⟩ : ∃ i, o = a.length + l.length + i := ⟨o - (a.length + l.length),by omega⟩
  have hplace : place (a.length + l.length) (p ++ tagFrom a.length l ++ (tagFrom (a.length + l.length) b ++ q)) =
      (p ++ tagFrom a.length l).length := by
    cases b with
    | nil =>
      simp only [List.length_nil] at hb
      omega
    | cons c b =>
      refine place_append (c := c) ?_
      intro h
      rw [origins_append,List.nodup_append] at hnodup
      exact hnodup.2.2 _ h _ (mem_origins (c := c) (List.mem_append_left _ (List.mem_cons_self ..))) rfl
  have hleft : left none (a ++ l) = left none (letters (p ++ tagFrom a.length l)) := by
    rw [letters_append,letters_tagFrom]
    refine left_neighbour hl hal ?_
    intro h
    rw [hp (hal h)]
    rfl
  rw [hleft] at ha
  obtain ⟨m',n',ha',hm',hn'⟩ : ∃ m' n', ru.attempt (left none (letters (p ++ tagFrom a.length l))) (b ++ letters q) =
      some (m',n') ∧ m' ≤ m ∧ n ≤ n' := by
    refine attempt_again hs ha hb.1 (hz.imp_right ?_)
    intro h
    rw [h,hq h]
    rfl
  rw [hplace] at hc
  rw [passes_append,hstage]
  exact fun hmem => lost_in_window hnodup ha' hc (by omega) (by omega) (by omega)
    ((passes_origins later _).subset hmem)

end Finds

end Rx
