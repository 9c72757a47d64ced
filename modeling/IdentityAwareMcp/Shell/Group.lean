import IdentityAwareMcp.Shell.Grammar
import Mathlib.Data.List.Induction

namespace Shell

variable {a b c ts : List Token} {n : Nonterminal} {f : Bool}

-- The nonterminals no text of newlines alone derives from.
def solid : Nonterminal → Bool
  | .program => false
  | .newlineList => false
  | .linebreak => false
  | .separatorOp => false
  | .separator => false
  | .sequentialSep => false
  | _ => true

def Marked (ts : List Token) : Prop := ∃ t ∈ ts, t ≠ .newline

theorem marked_left (h : Marked a) : Marked (a ++ b) := h.imp (fun _ h => ⟨List.mem_append_left _ h.1,h.2⟩)

theorem marked_right (h : Marked b) : Marked (a ++ b) := h.imp (fun _ h => ⟨List.mem_append_right _ h.1,h.2⟩)

theorem marked_cons {t : Token} (h : t ≠ .newline) : Marked (t :: a) := ⟨t,List.mem_cons_self,h⟩

theorem op_marked {o : Token} (ho : o ∈ fileOps ∨ o ∈ hereOps) : o ≠ .newline := by
  have hfile : ∀ o ∈ fileOps, o ≠ .newline := by decide
  have hhere : ∀ o ∈ hereOps, o ≠ .newline := by decide
  exact ho.elim (hfile o) (hhere o)

theorem word_marked {w : Text} : Token.word w ≠ .newline := fun h => by cases h

theorem symbol_marked {o : String} : symbol o ≠ .newline := fun h => by cases h

theorem derives_marked (h : Derives n ts) : solid n = true → Marked ts := by
  induction h with
  | bareList _ _ _ ih => exact fun _ => marked_right (ih rfl)
  | compoundList _ _ _ _ ih _ => exact fun _ => marked_left (marked_right (ih rfl))
  | ioFile ho => exact fun _ => marked_cons (op_marked (.inl ho))
  | ioHere ho => exact fun _ => marked_cons (op_marked (.inr ho))
  | ioNumberFile ho => exact fun _ => marked_cons (fun h => by cases h)
  | ioNumberHere ho => exact fun _ => marked_cons (fun h => by cases h)
  | _ =>
    intro hs
    first
    | exact absurd hs Bool.false_ne_true
    | exact marked_cons word_marked
    | exact marked_cons symbol_marked
    | exact marked_left (marked_cons word_marked)
    | exact marked_left (marked_cons symbol_marked)
    | exact marked_left (marked_left (marked_cons word_marked))
    | exact marked_left (marked_left (marked_cons symbol_marked))
    | exact marked_left (marked_left (marked_left (marked_cons word_marked)))
    | exact marked_left (marked_left (marked_left (marked_cons symbol_marked)))
    | exact ‹solid _ = true → Marked _› rfl
    | exact marked_left (‹solid _ = true → Marked _› rfl)
    | exact marked_left (marked_left (‹solid _ = true → Marked _› rfl))

section Newlines

theorem newlineList_iff : Derives .newlineList ts ↔ ts ≠ [] ∧ ∀ t ∈ ts, t = .newline := by
  constructor
  · intro h
    generalize hn : Nonterminal.newlineList = n at h
    induction h with
    | newline => exact ⟨List.cons_ne_nil _ _,by simp⟩
    | newlines _ ih =>
      obtain ⟨_,hall⟩ := ih hn
      refine ⟨by simp,fun t ht => ?_⟩
      rcases List.mem_append.mp ht with ht | ht
      · exact hall t ht
      · exact List.mem_singleton.mp ht
    | _ => cases hn
  · rintro ⟨hne,hall⟩
    induction ts using List.reverseRecOn with
    | nil => exact absurd rfl hne
    | append_singleton ts t ih =>
      have ht : t = .newline := hall t (by simp)
      subst ht
      cases ts with
      | nil => exact .newline
      | cons x ts => exact .newlines (ih (List.cons_ne_nil _ _) (fun y hy => hall y (List.mem_append_left _ hy)))

theorem linebreak_iff : Derives .linebreak ts ↔ ∀ t ∈ ts, t = .newline := by
  constructor
  · intro h
    cases h with
    | linebreak h => exact (newlineList_iff.mp h).2
    | noLinebreak => simp
  · intro h
    cases ts with
    | nil => exact .noLinebreak
    | cons t ts => exact .linebreak (newlineList_iff.mpr ⟨List.cons_ne_nil _ _,h⟩)

theorem separatorOp_separator (h : Derives .separatorOp a) : Derives .separator a := by
  have hs : Derives .separator (a ++ []) := .separator h .noLinebreak
  rwa [List.append_nil] at hs

-- A separator operator, if there is one, and then newlines.
theorem optional_separator (ha : a = [] ∨ Derives .separatorOp a) (hb : Derives .newlineList b) :
    Derives .separator (a ++ b) := by
  rcases ha with rfl | ha
  · exact .newlineSeparator hb
  · exact .separator ha (.linebreak hb)

end Newlines

section Lists

theorem list_term (h : Derives .list ts) : ∃ f, Derives (.term f) ts := by
  generalize hn : Nonterminal.list = n at h
  induction h with
  | list _ hb hc ih _ _ =>
    obtain ⟨g,hg⟩ := ih hn
    exact ⟨_,.term hg (separatorOp_separator hb) hc⟩
  | oneAndOr h => exact ⟨_,.oneTerm h⟩
  | _ => cases hn

theorem term_list (ha : Derives (.term f) a) (hb : Derives .separator b) (h : Derives .list ts) :
    ∃ g, Derives (.term g) (a ++ b ++ ts) := by
  generalize hn : Nonterminal.list = n at h
  induction h with
  | list _ hs hc ih _ _ =>
    obtain ⟨g,hg⟩ := ih hn
    have hterm := Derives.term hg (separatorOp_separator hs) hc
    exact ⟨_,by simpa only [List.append_assoc] using hterm⟩
  | oneAndOr h => exact ⟨_,.term ha hb h⟩
  | _ => cases hn

theorem completeCommand_list (h : Derives .completeCommand ts) :
    ∃ a b, ts = a ++ b ∧ Derives .list a ∧ (b = [] ∨ Derives .separatorOp b) := by
  cases h with
  | completeCommand ha hb => exact ⟨_,_,rfl,ha,.inr hb⟩
  | bareComplete ha => exact ⟨_,[],(List.append_nil _).symm,ha,.inl rfl⟩

theorem completeCommands_term (h : Derives .completeCommands ts) :
    ∃ f a b, ts = a ++ b ∧ Derives (.term f) a ∧ (b = [] ∨ Derives .separatorOp b) := by
  generalize hn : Nonterminal.completeCommands = n at h
  induction h with
  | completeCommands _ hnl hc ih _ _ =>
    obtain ⟨f,a,b,rfl,ha,hb⟩ := ih hn
    obtain ⟨l,s,rfl,hl,hs⟩ := completeCommand_list hc
    obtain ⟨g,hg⟩ := term_list ha (optional_separator hb hnl) hl
    exact ⟨g,_,s,by simp only [List.append_assoc],hg,hs⟩
  | oneComplete hc =>
    obtain ⟨l,s,rfl,hl,hs⟩ := completeCommand_list hc
    obtain ⟨g,hg⟩ := list_term hl
    exact ⟨g,l,s,rfl,hg,hs⟩
  | _ => cases hn

-- A program with a command in it is the body of a brace group, once a newline ends it.
theorem program_body (h : Derives .program ts) (hm : Marked ts) : Derives (.compoundList true) (ts ++ [.newline]) := by
  cases h with
  | emptyProgram h =>
    obtain ⟨t,ht,hne⟩ := hm
    exact absurd (linebreak_iff.mp h t ht) hne
  | program ha hb hc =>
    obtain ⟨f,t,s,rfl,ht,hs⟩ := completeCommands_term hb
    rename_i c
    have hnl : Derives .newlineList (c ++ [.newline]) := by
      refine newlineList_iff.mpr ⟨by simp,fun x hx => ?_⟩
      rcases List.mem_append.mp hx with hx | hx
      · exact linebreak_iff.mp hc x hx
      · exact List.mem_singleton.mp hx
    have hlist := Derives.compoundList ha ht (optional_separator hs hnl)
    simpa only [List.append_assoc] using hlist

theorem body_marked (h : Derives .braceGroup (keyword "\x7b" :: ts ++ [keyword "\x7d"])) : Marked ts := by
  generalize hx : keyword "\x7b" :: ts ++ [keyword "\x7d"] = x at h
  cases h with
  | braceGroup h =>
    simp only [List.cons_append,List.cons.injEq,true_and] at hx
    rw [List.append_cancel_right hx]
    exact derives_marked h rfl

end Lists

end Shell
