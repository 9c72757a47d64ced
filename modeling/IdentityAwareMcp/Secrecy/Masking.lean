import IdentityAwareMcp.Rx.Atomic
import IdentityAwareMcp.Secrecy.Truncation

namespace IdentityAwareMcp

namespace Redact

open Rx

variable (u : Unicode)

theorem shut_atomic : ∀ ru ∈ bearer :: sasSig u :: funcUrlCode :: jwt :: tokens u, ru.Atomic MASK := by
  have hbasic : ∀ b ∈ (bearer :: sasSig .basic :: funcUrlCode :: jwt :: tokens .basic).map (Rule.shut '«' '»' MASK.length),
      b = true := List.all_iff_forall_prop.mp (by decide +kernel)
  have hsame : (bearer :: sasSig u :: funcUrlCode :: jwt :: tokens u).map (Rule.shut '«' '»' MASK.length) =
      (bearer :: sasSig .basic :: funcUrlCode :: jwt :: tokens .basic).map (Rule.shut '«' '»' MASK.length) := rfl
  intro ru hru
  exact atomic_shut (by decide) (by decide) (hbasic _ (hsame ▸ List.mem_map_of_mem hru))

theorem connSecret_atomic : (connSecret u).Atomic MASK := by
  refine atomic_greedy (o := '«') (c := '»') (by decide) (by decide) ?_ ?_ ?_ rfl ?_
  · exact show (connSecret .basic).label.avoids '«' = true by decide
  · exact show (connSecret .basic).label.avoids '»' = true by decide
  · rintro _ ⟨x,_,rfl,-,_,_,rfl,⟨d,hd,rfl⟩,-⟩
    have hno : ∀ e ∈ MASK, (foldCase e == foldCase '=') = false := List.all_iff_forall_prop.mp (by decide)
    exact ⟨d,by simp,fun hm => Bool.false_ne_true ((hno d hm).symm.trans hd)⟩
  · exact List.all_iff_forall_prop.mp (by decide)

theorem pemPrivate_atomic : pemPrivate.Atomic MASK := by
  refine atomic_ends rfl (fun y hy => ?_)
  obtain ⟨a,ha⟩ := pem_ends hy
  obtain ⟨b,_,rfl,hb,-⟩ := hy
  rw [lit_spells hb] at ha ⊢
  refine ⟨⟨'-',rfl,by decide⟩,'-',?_,by decide⟩
  rw [ha]
  simp

theorem known_atomic : ∀ ru ∈ known u, ru.Atomic MASK := by
  intro ru hru
  have hshut := shut_atomic u ru
  simp only [known_parts,labelled,List.mem_cons,List.mem_append,List.not_mem_nil,or_false] at hru hshut
  rcases hru with h | (h | rfl | h | h) | rfl | h
  · exact hshut (.inl h)
  · exact hshut (.inr (.inl h))
  · exact connSecret_atomic u
  · exact hshut (.inr (.inr (.inl h)))
  · exact hshut (.inr (.inr (.inr (.inl h))))
  · exact pemPrivate_atomic
  · exact hshut (.inr (.inr (.inr (.inr h))))

theorem labels_avoid : ∀ ru ∈ known u, ru.label.avoids '«' = true := by
  have hbasic : ∀ b ∈ (known .basic).map (fun ru => ru.label.avoids '«'), b = true :=
    List.all_iff_forall_prop.mp (by decide)
  have hsame : (known u).map (fun ru => ru.label.avoids '«') = (known .basic).map (fun ru => ru.label.avoids '«') := rfl
  intro ru hru
  exact hbasic _ (hsame ▸ List.mem_map_of_mem hru)

theorem label_unmasked {ru : Rule Char} (hru : ru ∈ known u) {s : Text} {sp : Span} (hsp : sp ∈ ru.spans s) :
    ¬ MASK <:+: s.extract sp.start sp.secret := by
  obtain ⟨p,x,y,z,rfl,rfl,hx,-,-⟩ := span_reads hsp
  have hlabel : (p ++ (x ++ (y ++ z))).extract p.length (p.length + x.length) = x := by
    simp [List.extract]
  rw [hlabel]
  exact fun h => spells_avoids hx (labels_avoid u ru hru) (h.subset (by decide))

theorem fold_unmatched {rules : List (Rule Char)} {text : Text} (h : ∀ ru ∈ rules, ru.spans text = []) (n : Nat) :
    rules.foldl (fun x ru => (ru.sub id MASK x.1,x.2 + (ru.spans x.1).length)) (text,n) = (text,n) := by
  induction rules with
  | nil => rfl
  | cons ru rules ih =>
    have hru := h ru List.mem_cons_self
    simp only [List.foldl_cons,hru,sub_unmatched hru,List.length_nil,Nat.add_zero]
    exact ih (fun ru' hr => h ru' (List.mem_cons_of_mem _ hr))

theorem stage_pieces {rules : List (Rule Char)} (hr : ∀ ru ∈ rules, ru.Atomic MASK) (text : Text) :
    ∃ ps, sources ps = text ∧ Solid ps ∧ cells MASK 0 ps = stage rules text := by
  obtain ⟨ps,hthin,hcells,-⟩ := passes_merge hr (text.map Piece.kept)
  rw [cells_kept] at hcells
  refine ⟨ps,hthin.sources.trans (sources_kept text),hthin.solid (fun r h => ?_),hcells.symm⟩
  obtain ⟨_,_,he⟩ := List.mem_map.mp h
  cases he

-- What is shown is the text with a mask for each of some parts of it, at every stage.
theorem redaction_masks (text : Text) :
    (∃ ps, sources ps = text ∧ Solid ps ∧ shows MASK ps = (redactText u text).1) ∧
    (∀ earlier ru later, known u = earlier ++ ru :: later →
      ∃ ps, sources ps = text ∧ Solid ps ∧ cells MASK 0 ps = stage earlier text ∧
        ∀ sp ∈ ru.spans (letters (stage earlier text)),
          (∀ a r b, ps = a ++ .removed r :: b → Whole MASK.length (shows MASK a).length sp) ∧
          ¬ MASK <:+: (letters (stage earlier text)).extract sp.start sp.secret) ∧
    ((∀ ru ∈ known u, ru.spans text = []) → redactText u text = (text,0)) := by
  refine ⟨?_,?_,fun h => fold_unmatched h 0⟩
  · obtain ⟨ps,hsource,hsolid,hcells⟩ := stage_pieces (known_atomic u) text
    exact ⟨ps,hsource,hsolid,by rw [redactText_letters,← hcells,letters_cells]⟩
  · intro earlier ru later hk
    have hall := known_atomic u
    have hru : ru ∈ known u := by
      rw [hk]
      exact List.mem_append_right _ List.mem_cons_self
    have hearlier : ∀ ru' ∈ earlier, ru'.Atomic MASK := fun ru' h => hall ru' (by
      rw [hk]
      exact List.mem_append_left _ h)
    obtain ⟨ps,hsource,hsolid,hcells⟩ := stage_pieces hearlier text
    refine ⟨ps,hsource,hsolid,hcells,fun sp hsp => ⟨fun a r b hps => ?_,label_unmasked u hru hsp⟩⟩
    rw [← hcells,letters_cells] at hsp
    exact (hall ru hru).whole hps hsp

def redactOnce (text : Text) : Text := (redactText u text).1

theorem redactOnce_eq : redactOnce u = subs MASK (known u) := by
  funext text
  rw [redactOnce,redactText_letters,stage,← subs_letters,letters_tag]

-- Repeated passes come to a text that a pass leaves as it is, and there every match is of a mask.
theorem redaction_settles (text : Text) :
    (∃ n ≤ 2 * text.length, redactOnce u ((redactOnce u)^[n] text) = (redactOnce u)^[n] text) ∧
    ∀ s, redactOnce u s = s ↔ ∀ ru ∈ known u, ∀ sp ∈ ru.spans s, Masked MASK s 0 sp := by
  rw [redactOnce_eq]
  refine ⟨?_,subs_fixed (known_atomic u)⟩
  obtain ⟨n,hn,hset⟩ := subs_settle (known_atomic u) text
  exact ⟨n,hn,subs_idle hset⟩

def tokenBeforeKey : Text := ("+sk-" ++ "aaaaaaaaaaaaaaaaaaaa" ++ "-" ++ "bbbbbbbbbbbbbbbbbbbbbbbbbbbbbbbbbbbbbbb" ++ "==").toList

-- The mask of a token takes from the key behind it the letter that kept the key from matching.
theorem redaction_not_idempotent :
    redactOnce .basic tokenBeforeKey = ("+«redacted»-" ++ "bbbbbbbbbbbbbbbbbbbbbbbbbbbbbbbbbbbbbbb" ++ "==").toList ∧
    redactOnce .basic (redactOnce .basic tokenBeforeKey) = "+«redacted»«redacted»".toList ∧
    redactOnce .basic (redactOnce .basic tokenBeforeKey) ≠ redactOnce .basic tokenBeforeKey := by
  decide +kernel

end Redact

end IdentityAwareMcp
