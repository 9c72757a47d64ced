import IdentityAwareMcp.Safety.Isolation
import IdentityAwareMcp.Secrecy.Detectors

namespace IdentityAwareMcp

namespace Redact

open Rx

variable (u : Unicode)

section Results

theorem sub_unmatched {ru : Rule Char} {text : Text} (h : ru.spans text = []) : ru.sub id MASK text = text :=
  sub_none (by rwa [List.map_id])

theorem fold_none (rules : List (Rule Char)) (text : Text) (n : Nat) :
    n ≤ (rules.foldl (fun x ru => (ru.sub id MASK x.1,x.2 + (ru.spans x.1).length)) (text,n)).2 ∧
    ((rules.foldl (fun x ru => (ru.sub id MASK x.1,x.2 + (ru.spans x.1).length)) (text,n)).2 = n →
      (rules.foldl (fun x ru => (ru.sub id MASK x.1,x.2 + (ru.spans x.1).length)) (text,n)).1 = text) := by
  induction rules generalizing text n with
  | nil => exact ⟨Nat.le_refl n,fun _ => rfl⟩
  | cons ru rules ih =>
    simp only [List.foldl_cons]
    obtain ⟨hle,heq⟩ := ih (ru.sub id MASK text) (n + (ru.spans text).length)
    refine ⟨by omega,fun hn => ?_⟩
    have hnone : ru.spans text = [] := List.length_eq_zero_iff.mp (by omega)
    rw [heq (by omega)]
    exact sub_unmatched hnone

theorem redactOne_text (text : Text) : (redactOne u text).1 = (redactText u text).1 := by
  rw [redactOne]
  split
  · rename_i h
    rw [h]
    rfl
  · rfl

theorem redactOne_none {text : Text} (h : (redactOne u text).2 = 0) : (redactText u text).1 = text := by
  by_cases ht : text = []
  · rw [ht]
    rfl
  · rw [redactOne,if_neg ht] at h
    exact (fold_none (known u) text 0).2 h

theorem redactResult_eq (result : ExecResult) : redactResult u result =
    { result with stdout := (redactText u result.stdout).1, stderr := (redactText u result.stderr).1 } := by
  simp only [redactResult,redactOne_text]
  split
  · rfl
  · rename_i h
    have hout : (redactOne u result.stdout).2 = 0 := by omega
    have herr : (redactOne u result.stderr).2 = 0 := by omega
    rw [redactOne_none u hout,redactOne_none u herr]

end Results

section Separators

def separators : List Char := spaces ++ [';','"','\'']

def labelled : List (Rule Char) := [sasSig u,connSecret u,funcUrlCode,jwt]

def tokens : List (Rule Char) :=
  [storageKey,azureFuncKey,azureAdSecret u,awsAccessKeyId u,gcpApiKey u,githubToken u,slackToken u,openaiKey u]

theorem known_parts : known u = bearer :: (labelled u ++ pemPrivate :: tokens u) := rfl

theorem separator_not_word {w : Char} (hw : w ∈ separators) : word u w = false := by
  have hline : ∀ d ∈ separators, (d == '_') = false := List.all_iff_forall_prop.mp (by decide)
  rw [word,hline w hw,Bool.or_false]
  rcases List.mem_append.mp hw with hw | hw
  · exact u.space w hw
  · have hascii : ∀ d ∈ [';','"','\''], d.toNat < 128 ∧ d.isAlphanum = false :=
      List.all_iff_forall_prop.mp (by decide)
    rw [u.ascii w (hascii w hw).1,(hascii w hw).2]

theorem known_neutral {w : Char} (hw : w ∈ separators) :
    ∀ ru ∈ known u, ru.label.neutral w = true ∧ ru.body.neutral w = true := by
  have hword := separator_not_word u hw
  have hno : ∀ d ∈ separators, cls "=" d = false := List.all_iff_forall_prop.mp (by decide)
  simp [known,bearer,sasSig,connSecret,funcUrlCode,jwt,pemPrivate,storageKey,azureFuncKey,azureAdSecret,awsAccessKeyId,
    gcpApiKey,githubToken,slackToken,openaiKey,cat,alts,edge,atLeast,exactly,Pattern.neutral,hword,hno w hw]

theorem quiet_avoids {w : Char} (hw : w ∈ separators) : ∀ ru ∈ labelled u ++ tokens u,
    ru.label.avoids w = true ∧ ru.body.avoids w = true := by
  have hbasic : ∀ d ∈ separators, ∀ b ∈ (labelled .basic ++ tokens .basic).map (fun ru => ru.label.avoids d && ru.body.avoids d),
      b = true := List.all_iff_forall_prop.mp (by decide)
  have hsame : (labelled u ++ tokens u).map (fun ru => ru.label.avoids w && ru.body.avoids w) =
      (labelled .basic ++ tokens .basic).map (fun ru => ru.label.avoids w && ru.body.avoids w) := rfl
  intro ru hru
  have h := hbasic w hw _ (hsame ▸ List.mem_map_of_mem hru)
  exact Bool.and_eq_true_iff.mp h

theorem quiet_blind {w : Char} (hw : w ∈ separators) : ∀ ru ∈ labelled u ++ tokens u, ru.blind w = true := by
  intro ru hru
  obtain ⟨hl,hb⟩ := known_neutral u hw ru (by
    rw [known_parts]
    rcases List.mem_append.mp hru with h | h
    · exact List.mem_cons_of_mem _ (List.mem_append_left _ h)
    · exact List.mem_cons_of_mem _ (List.mem_append_right _ (List.mem_cons_of_mem _ h)))
  obtain ⟨hla,hba⟩ := quiet_avoids u hw ru hru
  simp [Rule.blind,hl,hb,hla,hba]

-- A separator inside no bearer match and no PEM block splits the redaction in two.
theorem known_cut {x : Cell Char} (hx : x.1 ∈ separators) {a b : List (Cell Char)}
    (hbearer : Uncovered (bearer.spans (letters (a ++ x :: b))) a.length)
    (hpem : ∀ y, passes MASK (bearer :: labelled u) (a ++ x :: b) = passes MASK (bearer :: labelled u) a ++ x :: y →
      Thinner MASK y b → Uncovered (pemPrivate.spans (letters (passes MASK (bearer :: labelled u) a ++ x :: y)))
        (passes MASK (bearer :: labelled u) a).length) :
    ∃ y, passes MASK (known u) (a ++ x :: b) = passes MASK (known u) a ++ x :: y ∧ Thinner MASK y b := by
  have hneutral := known_neutral u hx
  have hblind := quiet_blind u hx
  obtain ⟨hlb,hbb⟩ := hneutral bearer (List.mem_cons_self ..)
  obtain ⟨hlp,hbp⟩ := hneutral pemPrivate (by simp [known])
  obtain ⟨y₁,h₁,t₁⟩ : ∃ y, bearer.pass MASK (a ++ x :: b) = bearer.pass MASK a ++ x :: y ∧ Thinner MASK y b :=
    pass_cut hlb hbb hbearer
  obtain ⟨y₂,h₂,t₂⟩ : ∃ y, passes MASK (labelled u) (bearer.pass MASK a ++ x :: y₁) =
      passes MASK (labelled u) (bearer.pass MASK a) ++ x :: y ∧ Thinner MASK y y₁ :=
    passes_cut (fun ru hru => hblind ru (List.mem_append_left _ hru)) _ _
  have hstage : passes MASK (bearer :: labelled u) (a ++ x :: b) = passes MASK (bearer :: labelled u) a ++ x :: y₂ :=
    (congrArg (passes MASK (labelled u)) h₁).trans h₂
  obtain ⟨y₃,h₃,t₃⟩ : ∃ y, pemPrivate.pass MASK (passes MASK (bearer :: labelled u) a ++ x :: y₂) =
      pemPrivate.pass MASK (passes MASK (bearer :: labelled u) a) ++ x :: y ∧ Thinner MASK y y₂ :=
    pass_cut hlp hbp (hpem y₂ hstage (t₂.trans t₁))
  obtain ⟨y₄,h₄,t₄⟩ : ∃ y, passes MASK (tokens u) (pemPrivate.pass MASK (passes MASK (bearer :: labelled u) a) ++ x :: y₃) =
      passes MASK (tokens u) (pemPrivate.pass MASK (passes MASK (bearer :: labelled u) a)) ++ x :: y ∧ Thinner MASK y y₃ :=
    passes_cut (fun ru hru => hblind ru (List.mem_append_right _ hru)) _ _
  have hsplit : ∀ cs, passes MASK (known u) cs =
      passes MASK (tokens u) (pemPrivate.pass MASK (passes MASK (bearer :: labelled u) cs)) := by
    intro cs
    rw [known_parts,← List.cons_append,passes_append,passes_cons pemPrivate]
  refine ⟨y₄,?_,t₄.trans (t₃.trans (t₂.trans t₁))⟩
  rw [hsplit,hsplit,hstage,h₃,h₄]

end Separators

section Breaks

def Inside (ru : Rule Char) (cells : List (Cell Char)) (j : Nat) : Prop :=
  ¬ Uncovered (ru.spans (letters cells)) (place j cells)

-- Neither the bearer rule nor, at its turn, the PEM rule finds a match that runs over place j.
def Spared (cells : List (Cell Char)) (j : Nat) : Prop :=
  ¬ Inside bearer cells j ∧ ¬ Inside pemPrivate (passes MASK (bearer :: labelled u) cells) j

instance (ru : Rule Char) (cells : List (Cell Char)) (j : Nat) : Decidable (Inside ru cells j) :=
  inferInstanceAs (Decidable (¬ Uncovered _ _))

instance (cells : List (Cell Char)) (j : Nat) : Decidable (Spared u cells j) :=
  inferInstanceAs (Decidable (_ ∧ _))

def CleanBreak (text : Text) (shown : List (Cell Char)) (j : Nat) : Prop :=
  (∃ c ∈ text[j]?, c ∈ separators) ∧ Spared u (tag text) j ∧ Spared u shown j

instance (text : Text) (shown : List (Cell Char)) (j : Nat) : Decidable (CleanBreak u text shown j) :=
  decidable_of_iff (text[j]?.any (fun c => decide (c ∈ separators)) = true ∧ Spared u (tag text) j ∧ Spared u shown j)
    (by simp [CleanBreak,Option.any_eq_true])

theorem spared_cut {c : Char} (hc : c ∈ separators) {j : Nat} {a b : List (Cell Char)} (ha : j ∉ origins a)
    (hs : Spared u (a ++ (c,some j) :: b) j) :
    ∃ y, passes MASK (known u) (a ++ (c,some j) :: b) = passes MASK (known u) a ++ (c,some j) :: y ∧ Thinner MASK y b := by
  obtain ⟨hb,hp⟩ := hs
  refine known_cut u hc ?_ ?_
  · rw [← place_append ha]
    exact not_not.mp hb
  · intro y hy _
    have hj : j ∉ origins (passes MASK (bearer :: labelled u) a) := fun h => ha ((passes_origins _ a).subset h)
    rw [Inside,not_not,hy,place_append hj] at hp
    exact hp

theorem origins_le {i o : Nat} {s : Text} (h : o ∈ origins (tagFrom i s)) : i ≤ o := by
  rw [origins_tagFrom,List.mem_range'] at h
  obtain ⟨k,-,rfl⟩ := h
  omega

theorem origins_lt {o : Nat} {s : Text} (h : o ∈ origins (tag s)) : o < s.length := by
  rw [tag,origins_tagFrom,List.mem_range'] at h
  obtain ⟨k,hk,rfl⟩ := h
  omega

-- What the whole text hides and its kept part shows stands after every clean break.
theorem revealed_after_break {text extra : Text} {k o : Nat}
    (hshown : o ∈ origins (passes MASK (known u) (tag (text.take k) ++ blank extra)))
    (hhidden : o ∉ origins (stage (known u) text)) {j : Nat} (hj : j < k)
    (hbreak : CleanBreak u text (tag (text.take k) ++ blank extra) j) : j < o := by
  obtain ⟨⟨c,hget,hc⟩,hfull,hcut⟩ := hbreak
  obtain ⟨hlt,hget⟩ := List.getElem?_eq_some_iff.mp hget
  obtain ⟨a,b,rfl,rfl⟩ : ∃ a b, text = a ++ c :: b ∧ j = a.length :=
    ⟨text.take j,text.drop (j + 1),by rw [← hget,List.getElem_cons_drop,List.take_append_drop],
      by rw [List.length_take]; omega⟩
  obtain ⟨i,rfl⟩ : ∃ i, k = a.length + (i + 1) := ⟨k - a.length - 1,by omega⟩
  have hne : a.length ∉ origins (tag a) := fun h => absurd (origins_lt h) (Nat.lt_irrefl _)
  have htag : ∀ s, tag (a ++ c :: s) = tag a ++ (c,some a.length) :: tagFrom (a.length + 1) s := by
    intro s
    rw [tag,tagFrom_append,Nat.zero_add]
    rfl
  rw [List.take_length_add_append,List.take_succ_cons,htag,List.append_assoc,List.cons_append] at hshown hcut
  rw [htag] at hfull
  rw [stage,htag] at hhidden
  obtain ⟨y,hy,-⟩ := spared_cut u hc hne hfull
  obtain ⟨z,hz,hthin⟩ := spared_cut u hc hne hcut
  rw [hy,origins_append] at hhidden
  rw [hz,origins_append] at hshown
  rcases List.mem_append.mp hshown with h | h
  · exact absurd (List.mem_append_left _ h) hhidden
  · rcases List.mem_cons.mp h with rfl | h
    · exact absurd (List.mem_append_right _ (List.mem_cons_self ..)) hhidden
    · have htail := hthin.origins.subset h
      rw [origins_append,origins_blank,List.append_nil] at htail
      exact origins_le htail

end Breaks

section Hint

theorem pem_ends {b : List Char} (h : pemPrivate.body.Spells b) : ∃ a, b = a ++ "-----".toList := by
  obtain ⟨a₁,_,rfl,-,a₂,_,rfl,-,a₃,_,rfl,-,a₄,_,rfl,-,a₅,_,rfl,-,a₆,_,rfl,-,a₇,_,rfl,h₇,rfl⟩ := h
  rw [lit_spells h₇]
  refine ⟨a₁ ++ (a₂ ++ (a₃ ++ (a₄ ++ (a₅ ++ (a₆ ++ "PRIVATE KEY".toList))))),?_⟩
  simp

-- A PEM block ends with five hyphens: it does not run over a line break that fewer follow.
theorem pem_uncovered (s : Text) {t : Text} (ht : t.countP (· == '-') < 5) :
    Uncovered (pemPrivate.spans (s ++ '\n' :: t)) s.length := by
  rintro sp hsp ⟨hlo,hhi⟩
  obtain ⟨p,r,m,n,hs,rfl,ha⟩ := spans_attempt hsp
  obtain ⟨a,b,z,rfl,hla,hlb,rfl,rfl⟩ := attempt_spells ha
  cases (show a = [] from hla)
  obtain ⟨d,rfl⟩ := pem_ends hlb
  simp only [Nat.zero_add,List.length_nil,List.nil_append] at hs hlo hhi
  obtain ⟨e,rfl,he⟩ : ∃ e, s = p ++ e ∧ d ++ "-----".toList ++ z = e ++ '\n' :: t := by
    rcases List.append_eq_append_iff.mp hs with ⟨e,hp,he⟩ | ⟨e,hp,he⟩
    · have hlen : e = [] := by
        rw [hp,List.length_append] at hlo
        exact List.length_eq_zero_iff.mp (by omega)
      subst hlen
      exact ⟨[],by simpa using hp.symm,by simpa using he.symm⟩
    · exact ⟨e,hp,he⟩
  rw [List.length_append] at hhi
  rcases List.append_eq_append_iff.mp he with ⟨f,hf,-⟩ | ⟨f,hf,hz⟩
  · have := congrArg List.length hf
    simp only [List.length_append] at this hhi
    omega
  · cases f with
    | nil =>
      have := congrArg List.length hf
      simp only [List.length_append,List.length_nil] at this hhi
      omega
    | cons x f =>
      obtain ⟨rfl,rfl⟩ := List.cons.inj hz
      rcases List.append_eq_append_iff.mp hf with ⟨g,-,hg⟩ | ⟨g,-,hg⟩
      · have hmem : '\n' ∈ "-----".toList := by
          rw [hg]
          exact List.mem_append_right _ (List.mem_cons_self ..)
        exact absurd hmem (by decide)
      · cases g with
        | nil => exact absurd hg (by simp)
        | cons x g =>
          have hfive : "-----".toList.countP (· == '-') = 5 := by decide
          have hless : (f ++ z).countP (· == '-') < 5 := ht
          have hdashes : f = g ++ "-----".toList := (List.cons.inj hg).2
          rw [hdashes,List.countP_append,List.countP_append,hfive] at hless
          omega

theorem bearer_uncovered (s t : Text) : Uncovered (bearer.spans (s ++ '\n' :: '\n' :: '[' :: t)) s.length := by
  rintro sp hsp ⟨hlo,hhi⟩
  obtain ⟨p,r,m,n,hs,rfl,ha⟩ := spans_attempt hsp
  have hmn := (attempt_bounds ha).1
  obtain ⟨a,b,z,rfl,hla,hlb,rfl,rfl⟩ := attempt_spells ha
  simp only [Nat.zero_add] at hlo hhi
  have hget : ∀ i, (s ++ '\n' :: '\n' :: '[' :: t)[s.length + i]? = (a ++ (b ++ z))[s.length + i - p.length]? := by
    intro i
    rw [hs,List.getElem?_append_right (by omega)]
  -- the last letter of the match is no white space, and the bracket is in no match
  have hlast : ∀ i c, s.length + i + 1 = p.length + (a.length + b.length) →
      (s ++ '\n' :: '\n' :: '[' :: t)[s.length + i]? = some c → cls "._~+/=-" (foldCase c) = true := by
    intro i c hi hc
    rw [hget,List.getElem?_append_right (by omega),List.getElem?_append_left (by omega)] at hc
    exact hlb.1 c (List.mem_of_getElem? hc)
  have hbracket : p.length + (a.length + b.length) ≤ s.length + 2 := by
    by_contra hlt
    have hc : (s ++ '\n' :: '\n' :: '[' :: t)[s.length + 2]? = some '[' := by simp
    rw [hget,← List.append_assoc,List.getElem?_append_left (by rw [List.length_append]; omega)] at hc
    rcases List.mem_append.mp (List.mem_of_getElem? hc) with h | h
    · exact spells_avoids hla (by decide) h
    · exact spells_avoids hlb (by decide) h
  have hno : cls "._~+/=-" (foldCase '\n') ≠ true := by decide
  rcases Nat.lt_or_ge (s.length + 1) (p.length + (a.length + b.length)) with h | h
  · exact hno (hlast 1 '\n' (by omega) (by simp))
  · exact hno (hlast 0 '\n' (by omega) (by simp))

theorem digits_no_hyphen (n : Nat) : (toString n).toList.countP (· == '-') = 0 := by
  rw [List.countP_eq_zero]
  intro c hc
  have hdigit : c.isDigit = true := by
    rw [Nat.toString_eq_repr,Nat.toList_repr] at hc
    exact Nat.isDigit_of_mem_toDigits (by decide) (by decide) hc
  rintro he
  rw [beq_iff_eq.mp he] at hdigit
  exact absurd hdigit (by decide)

theorem hint_parts (n : Nat) : ∃ t : Text, truncateHint n = '\n' :: '\n' :: '[' :: t ∧
    ('\n' :: '[' :: t).countP (· == '-') < 5 := by
  obtain ⟨t,ht⟩ : ∃ t : Text, truncateHint n = '\n' :: '\n' :: '[' :: t := by
    simp only [truncateHint,String.toList_append]
    exact ⟨_,rfl⟩
  refine ⟨t,ht,?_⟩
  have hcount : (truncateHint n).countP (· == '-') < 5 := by
    simp only [truncateHint,String.toList_append,List.countP_append,digits_no_hyphen]
    decide
  rw [ht,List.countP_cons] at hcount
  omega

-- The hint hides and reveals nothing in the text it is appended to.
theorem hint_apart (text : Text) (n : Nat) :
    origins (passes MASK (known u) (tag text ++ blank (truncateHint n))) = origins (stage (known u) text) := by
  obtain ⟨t,ht,hcount⟩ := hint_parts n
  rw [ht]
  obtain ⟨y,hy,hthin⟩ : ∃ y, passes MASK (known u) (tag text ++ ('\n',none) :: blank ('\n' :: '[' :: t)) =
      passes MASK (known u) (tag text) ++ ('\n',none) :: y ∧ Thinner MASK y (blank ('\n' :: '[' :: t)) := by
    refine known_cut u (by decide) ?_ ?_
    · have hletters : letters (tag text ++ ('\n',none) :: blank ('\n' :: '[' :: t)) = text ++ '\n' :: '\n' :: '[' :: t := by
        rw [letters_append,letters_tag]
        exact congrArg (fun s => text ++ '\n' :: s) (letters_blank ('\n' :: '[' :: t))
      rw [hletters,tag,tagFrom_length]
      exact bearer_uncovered text t
    · intro y _ hthin
      have hle := hthin.count (· == '-') (List.all_iff_forall_prop.mp (by decide))
      rw [letters_blank] at hle
      have h := pem_uncovered (letters (passes MASK (bearer :: labelled u) (tag text))) (Nat.lt_of_le_of_lt hle hcount)
      simpa [letters] using h
  have hnone : origins y = [] := by
    have h := hthin.origins
    rw [origins_blank] at h
    exact List.eq_nil_of_sublist_nil h
  rw [show blank ('\n' :: '\n' :: '[' :: t) = ('\n',none) :: blank ('\n' :: '[' :: t) from rfl,hy,origins_append,stage]
  rw [show origins (('\n',none) :: y) = origins y from rfl,hnone,List.append_nil]

end Hint

section Streams

-- How many characters of a stream capping keeps, and the replacement for one it cuts in two.
def keptChars (maxOutputBytes : Nat) (text : Text) : Nat :=
  if (Utf8.encode text).length ≤ maxOutputBytes then text.length else Utf8.fits maxOutputBytes text

def partChars (maxOutputBytes : Nat) (text : Text) : Text :=
  if (Utf8.encode text).length ≤ maxOutputBytes then []
  else if Utf8.splits maxOutputBytes text then [Utf8.replacement] else []

theorem cap_eq (maxOutputBytes : Nat) (text : Text) : cap maxOutputBytes text =
    (text.take (keptChars maxOutputBytes text) ++ partChars maxOutputBytes text,
      decide (maxOutputBytes < (Utf8.encode text).length)) := by
  simp only [cap,keptChars,partChars]
  by_cases h : (Utf8.encode text).length ≤ maxOutputBytes
  · rw [if_pos h,if_pos h,if_pos h,List.take_length,List.append_nil,decide_eq_false (Nat.not_lt.mpr h)]
  · rw [if_neg h,if_neg h,if_neg h,Utf8.decode_take_encode,decide_eq_true (Nat.not_le.mp h)]

theorem worker_cap (maxOutputBytes : Nat) (text : Text) :
    Worker.cap maxOutputBytes (Utf8.encode text) = cap maxOutputBytes text := by
  simp only [Worker.cap,cap,Utf8.decode_encode]

theorem worker_capped (cfg : Config) (code : Int) (out err : Text) :
    Worker.execCommand cfg.maxOutputBytes (.exited code (Utf8.encode out) (Utf8.encode err)) =
      SandboxManager.capped cfg ⟨code,some out,some err⟩ := by
  simp only [Worker.execCommand,worker_cap]
  rfl

variable (maxOutputBytes : Nat)

-- What a returned stream consists of: the kept characters with their places, and what capping put after them.
def shownErr (err : Text) : List (Cell Char) :=
  tag (err.take (keptChars maxOutputBytes err)) ++ blank (partChars maxOutputBytes err)

def shownOut (out err : Text) : List (Cell Char) :=
  tag (out.take (keptChars maxOutputBytes out)) ++ blank (partChars maxOutputBytes out ++
    if maxOutputBytes < (Utf8.encode out).length ∨ maxOutputBytes < (Utf8.encode err).length then
      truncateHint maxOutputBytes
    else [])

theorem redact_letters (cells : List (Cell Char)) :
    (redactText u (letters cells)).1 = letters (passes MASK (known u) cells) := fold_letters (known u) cells 0

theorem capped_eq (cfg : Config) (code : Int) (out err : Text) : SandboxManager.capped cfg ⟨code,some out,some err⟩ =
    ⟨some code,letters (shownOut cfg.maxOutputBytes out err),letters (shownErr cfg.maxOutputBytes err),
      decide (cfg.maxOutputBytes < (Utf8.encode out).length) || decide (cfg.maxOutputBytes < (Utf8.encode err).length)⟩ := by
  simp only [SandboxManager.capped,Option.getD_some,cap_eq,shownOut,shownErr,letters_append,letters_tag,letters_blank,
    Bool.or_eq_true,decide_eq_true_eq]
  split
  · simp only [List.append_assoc]
  · simp only [List.append_nil]

-- Capping first and redacting afterwards shows a letter that redacting the whole stream masks only in a stream
-- that was cut, and there only after every clean break.
theorem revealed_in_cut_tail (cfg : Config) (code : Int) (out err : Text) :
    redactResult u (Worker.execCommand cfg.maxOutputBytes (.exited code (Utf8.encode out) (Utf8.encode err))) =
      redactResult u (SandboxManager.capped cfg ⟨code,some out,some err⟩) ∧
    (redactResult u (SandboxManager.capped cfg ⟨code,some out,some err⟩)).stdout =
      letters (passes MASK (known u) (shownOut cfg.maxOutputBytes out err)) ∧
    (redactResult u (SandboxManager.capped cfg ⟨code,some out,some err⟩)).stderr =
      letters (passes MASK (known u) (shownErr cfg.maxOutputBytes err)) ∧
    (∀ o ∈ origins (passes MASK (known u) (shownOut cfg.maxOutputBytes out err)), o ∉ origins (stage (known u) out) →
      cfg.maxOutputBytes < (Utf8.encode out).length ∧ ∀ j < keptChars cfg.maxOutputBytes out,
        CleanBreak u out (shownOut cfg.maxOutputBytes out err) j → j < o) ∧
    ∀ o ∈ origins (passes MASK (known u) (shownErr cfg.maxOutputBytes err)), o ∉ origins (stage (known u) err) →
      cfg.maxOutputBytes < (Utf8.encode err).length ∧ ∀ j < keptChars cfg.maxOutputBytes err,
        CleanBreak u err (shownErr cfg.maxOutputBytes err) j → j < o := by
  refine ⟨by rw [worker_capped],?_,?_,?_,?_⟩
  · simp only [redactResult_eq,capped_eq,redact_letters]
  · simp only [redactResult_eq,capped_eq,redact_letters]
  · intro o hshown hhidden
    refine ⟨?_,fun j hj hb => revealed_after_break u hshown hhidden hj hb⟩
    by_contra hfit
    have hfit := Nat.not_lt.mp hfit
    simp only [shownOut,keptChars,partChars,if_pos hfit,List.take_length,List.nil_append] at hshown
    split at hshown
    · rw [hint_apart] at hshown
      exact hhidden hshown
    · rw [show blank [] = ([] : List (Cell Char)) from rfl,List.append_nil] at hshown
      exact hhidden hshown
  · intro o hshown hhidden
    refine ⟨?_,fun j hj hb => revealed_after_break u hshown hhidden hj hb⟩
    by_contra hfit
    have hfit := Nat.not_lt.mp hfit
    simp only [shownErr,keptChars,partChars,if_pos hfit,List.take_length] at hshown
    rw [show blank [] = ([] : List (Cell Char)) from rfl,List.append_nil] at hshown
    exact hhidden hshown

def cutToken : Text := ("ok sk-" ++ String.ofList (List.replicate 25 'a')).toList

theorem revealed_in_cut_tail_token : 6 ∈ origins (passes MASK (known .basic) (shownErr 25 cutToken)) ∧
    6 ∉ origins (stage (known .basic) cutToken) ∧ 2 < 6 := by
  have hshown : 6 ∈ origins (passes MASK (known .basic) (shownErr 25 cutToken)) := by decide +kernel
  have hhidden : 6 ∉ origins (stage (known .basic) cutToken) := by decide +kernel
  obtain ⟨-,-,-,-,herr⟩ := revealed_in_cut_tail .basic { sampleConfig with maxOutputBytes := 25 } 0 [] cutToken
  exact ⟨hshown,hhidden,(herr 6 hshown hhidden).2 2 (by decide +kernel) (by decide +kernel)⟩

-- The cut takes the end of the token off, and what is left is too short to be one.
theorem truncation_undoes_redaction : (redactText .basic cutToken).1 = "ok «redacted»".toList ∧
    (redactResult .basic (SandboxManager.capped { sampleConfig with maxOutputBytes := 25 } ⟨0,none,some cutToken⟩)).stderr =
      cutToken.take 25 := by
  rw [redactResult_eq]
  decide +kernel

end Streams

end Redact

end IdentityAwareMcp
