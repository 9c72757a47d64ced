import IdentityAwareMcp.Rx.Pieces

namespace Rx

variable {σ : Type} {mask : List σ} {ru : Rule σ}

theorem span_reads {s : List σ} {sp : Span} (h : sp ∈ ru.spans s) : ∃ p x y z, s = p ++ (x ++ (y ++ z)) ∧
    sp = ⟨p.length,p.length + x.length,p.length + x.length + y.length⟩ ∧ ru.label.Spells x ∧ ru.body.Spells y ∧
      ru.attempt (left none p) (x ++ (y ++ z)) = some (x.length,x.length + y.length) := by
  obtain ⟨p,t,m,n,rfl,rfl,ha⟩ := spans_attempt h
  obtain ⟨x,y,z,rfl,hx,hy,rfl,rfl⟩ := attempt_spells ha
  exact ⟨p,x,y,z,rfl,by simp [Nat.add_assoc],hx,hy,ha⟩

-- The letters of a mask that lies in a text.
theorem mask_at (a b : List σ) {i : Nat} (hlo : a.length ≤ i) (hhi : i < a.length + mask.length) :
    ∃ d ∈ mask, (a ++ (mask ++ b))[i]? = some d := by
  have hi : i - a.length < mask.length := by omega
  refine ⟨mask[i - a.length],List.getElem_mem hi,?_⟩
  rw [List.getElem?_append_right hlo,List.getElem?_append_left hi,List.getElem?_eq_getElem hi]

theorem mem_middle {p x t : List σ} {i : Nat} {d : σ} (h : (p ++ (x ++ t))[i]? = some d) (hlo : p.length ≤ i)
    (hhi : i < p.length + x.length) : d ∈ x := by
  rw [List.getElem?_append_right hlo,List.getElem?_append_left (by omega)] at h
  exact List.mem_of_getElem? h

section Criteria

variable {o c : σ} (ho : mask.head? = some o) (hc : mask.getLast? = some c)

include ho in
theorem mask_first (a b : List σ) : (a ++ (mask ++ b))[a.length]? = some o := by
  cases mask with
  | nil => cases ho
  | cons d mask =>
    cases ho
    rw [List.getElem?_append_right (Nat.le_refl _),Nat.sub_self]
    rfl

include hc in
theorem mask_last (a b : List σ) : (a ++ (mask ++ b))[a.length + mask.length - 1]? = some c := by
  obtain ⟨inner,rfl⟩ := List.getLast?_eq_some_iff.mp hc
  rw [List.length_append,List.length_singleton,List.getElem?_append_right (by omega),
    List.getElem?_append_left (by rw [List.length_append,List.length_singleton]; omega),
    List.getElem?_append_right (by omega)]
  simp

-- A rule that can read neither end of a mask, and nothing as short as what is between them.
def Rule.shut (o c : σ) (len : Nat) (ru : Rule σ) : Bool :=
  ru.label.avoids o && ru.label.avoids c && ru.body.avoids o && ru.body.avoids c &&
    decide (len < 2 + (ru.label.least + ru.body.least))

include ho hc in
theorem atomic_shut (hru : ru.shut o c mask.length = true) : ru.Atomic mask := by
  simp only [Rule.shut,Bool.and_eq_true,decide_eq_true_eq] at hru
  obtain ⟨⟨⟨⟨hlo,hlc⟩,hbo⟩,hbc⟩,hlen⟩ := hru
  intro a b sp hsp
  obtain ⟨p,x,y,z,hs,rfl,hx,hy,-⟩ := span_reads hsp
  have hleast := Nat.add_le_add (spells_least hx) (spells_least hy)
  have hread : ∀ {i : Nat} {d : σ}, (a ++ (mask ++ b))[i]? = some d → ru.label.avoids d = true → ru.body.avoids d = true →
      ¬ (p.length ≤ i ∧ i < p.length + x.length + y.length) := by
    rintro i d hd hl hb ⟨hi,hi'⟩
    rw [hs,← List.append_assoc x] at hd
    rcases List.mem_append.mp (mem_middle hd hi (by rw [List.length_append]; omega)) with hm | hm
    · exact spells_avoids hx hl hm
    · exact spells_avoids hy hb hm
  have hfirst := hread (mask_first ho a b) hlo hbo
  have hlast := hread (mask_last hc a b) hlc hbc
  simp only [Whole]
  omega

-- A run that takes all it can ends where it must.
theorem repeats_total (p : σ → Bool) (s : List σ) (prev : Option σ) (q i : Nat) :
    repeats p true (accept q) s 0 none prev i ≠ none := by
  cases s with
  | nil => simp [repeats,accept]
  | cons d s => simp [repeats,accept]

theorem repeats_take {p : σ → Bool} {s : List σ} {lo q i : Nat} {prev : Option σ} {e : σ} (hp : p e = true) :
    repeats p true (accept q) (e :: s) lo none prev i = repeats p true (accept q) s (lo - 1) none (some e) (i + 1) := by
  by_cases hlo : lo = 0
  · subst hlo
    obtain ⟨h,hh⟩ := Option.ne_none_iff_exists'.mp (repeats_total p s (some e) q (i + 1))
    simp [repeats,hp,hh]
  · simp [repeats,hp,hlo]

theorem repeats_max {p : σ → Bool} {s : List σ} {lo q m n i : Nat} {prev : Option σ}
    (h : repeats p true (accept q) s lo none prev i = some (m,n)) {d : σ} (hd : s[n - i]? = some d) : p d = false := by
  induction s generalizing lo prev i with
  | nil => cases hd
  | cons e s ih =>
    cases hp : p e with
    | true =>
      rw [repeats_take hp] at h
      have hle : i + 1 ≤ n := repeats_grows (grows_accept q) h
      rw [show n - i = n - (i + 1) + 1 by omega,List.getElem?_cons_succ] at hd
      exact ih h hd
    | false =>
      simp only [repeats,hp] at h
      by_cases hlo : lo = 0
      · simp only [hlo,accept] at h
        cases h
        rw [Nat.sub_self] at hd
        cases hd
        exact hp
      · simp [hlo] at h

theorem attempt_max {p : σ → Bool} {lo : Nat} (hb : ru.body = .rep p lo none true) {prev : Option σ} {s : List σ}
    {m n : Nat} (ha : ru.attempt prev s = some (m,n)) {d : σ} (hd : s[n]? = some d) : p d = false := by
  rw [Rule.attempt,hb] at ha
  obtain ⟨x,s',prev',rfl,-,hk⟩ := run_spells ha
  have hle : 0 + x.length ≤ n := repeats_grows (grows_accept _) hk
  rw [List.getElem?_append_right (by omega)] at hd
  refine repeats_max hk ?_
  rwa [Nat.zero_add]

include ho hc in
-- A rule whose label holds a letter no mask has, and whose body takes whole masks and all it can.
theorem atomic_greedy {p : σ → Bool} {lo : Nat} (hlo : ru.label.avoids o = true) (hlc : ru.label.avoids c = true)
    (hl : ∀ x, ru.label.Spells x → ∃ e ∈ x, e ∉ mask) (hb : ru.body = .rep p lo none true) (hm : ∀ d ∈ mask, p d = true) :
    ru.Atomic mask := by
  intro a b sp hsp
  obtain ⟨p₀,x,y,z,hs,rfl,hx,hy,ha⟩ := span_reads hsp
  have hfirst : ¬ (p₀.length ≤ a.length ∧ a.length < p₀.length + x.length) := by
    rintro ⟨hle,hlt⟩
    exact spells_avoids hx hlo (mem_middle (hs ▸ mask_first ho a b) hle hlt)
  have hlast : ¬ (p₀.length ≤ a.length + mask.length - 1 ∧ a.length + mask.length - 1 < p₀.length + x.length) := by
    rintro ⟨hle,hlt⟩
    exact spells_avoids hx hlc (mem_middle (hs ▸ mask_last hc a b) hle hlt)
  have hlabel : ¬ (a.length ≤ p₀.length ∧ p₀.length + x.length ≤ a.length + mask.length) := by
    rintro ⟨hle,hlt⟩
    obtain ⟨e,hex,he⟩ := hl x hx
    obtain ⟨i,hi,rfl⟩ := List.mem_iff_getElem.mp hex
    have hend : p₀.length + i < a.length + mask.length := by omega
    obtain ⟨d,hd,hat⟩ := mask_at a b (Nat.le_add_right_of_le hle) hend
    rw [hs,List.getElem?_append_right (Nat.le_add_right ..),Nat.add_sub_cancel_left,List.getElem?_append_left hi,
      List.getElem?_eq_getElem hi] at hat
    cases hat
    exact he hd
  have hstop : ¬ (a.length ≤ p₀.length + x.length + y.length ∧ p₀.length + x.length + y.length < a.length + mask.length) := by
    rintro ⟨hle,hlt⟩
    obtain ⟨d,hd,hat⟩ := mask_at a b hle hlt
    rw [hs,List.getElem?_append_right (by omega),Nat.add_assoc,Nat.add_sub_cancel_left] at hat
    exact Bool.false_ne_true ((attempt_max hb ha hat).symm.trans (hm d hd))
  have hpos : 0 < mask.length := by
    cases mask with
    | nil => cases ho
    | cons d mask => exact Nat.succ_pos _
  simp only [Whole]
  omega

-- A rule that starts and ends with letters no mask has.
theorem atomic_ends (hl : ru.label = .eps) (hb : ∀ y, ru.body.Spells y →
      (∃ e, y.head? = some e ∧ e ∉ mask) ∧ ∃ e, y.getLast? = some e ∧ e ∉ mask) : ru.Atomic mask := by
  intro a b sp hsp
  obtain ⟨p,x,y,z,hs,rfl,hx,hy,-⟩ := span_reads hsp
  rw [hl] at hx
  cases (show x = [] from hx)
  obtain ⟨⟨e,he,hne⟩,e',he',hne'⟩ := hb y hy
  have hpos : 0 < y.length := List.length_pos_iff.mpr (fun h => by rw [h] at he; cases he)
  rw [List.nil_append] at hs
  have hstart : ¬ (a.length ≤ p.length ∧ p.length < a.length + mask.length) := by
    rintro ⟨hle,hlt⟩
    obtain ⟨d,hd,hat⟩ := mask_at a b hle hlt
    rw [hs,mask_first he p z] at hat
    cases hat
    exact hne hd
  have hstop : ¬ (a.length ≤ p.length + y.length - 1 ∧ p.length + y.length - 1 < a.length + mask.length) := by
    rintro ⟨hle,hlt⟩
    obtain ⟨d,hd,hat⟩ := mask_at a b hle hlt
    rw [hs,mask_last he' p z] at hat
    cases hat
    exact hne' hd
  simp only [Whole,List.length_nil]
  omega

end Criteria

end Rx
