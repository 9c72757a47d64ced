import IdentityAwareMcp.Shell.Words

namespace Shell

namespace Reading

variable {X : Expansions} {r r' : Reading X.State} {ts : List Token} {t : Text} {c : Char}

-- The last thing read is a backslash that joins the next line to this one.
def Dangling (r : Reading X.State) : Prop := ∃ spot, r.mode = .slash spot

-- A here-document has not met its delimiter.
def Open (r : Reading X.State) : Prop :=
  match r.mode with
  | .bare spot => (r.flush spot).pending ≠ []
  | .comment => r.pending ≠ []
  | .here d _ line slash => ¬ (slash = false ∧ d.line line = d.text) ∨ r.pending ≠ []
  | _ => False

section Prefixing

-- The same reading, after tokens that were read before.
def after (ts : List Token) (r : Reading X.State) : Reading X.State := { r with tokens := ts ++ r.tokens }

@[simp] theorem after_mode : (r.after ts).mode = r.mode := rfl

@[simp] theorem after_pending : (r.after ts).pending = r.pending := rfl

theorem after_goto {m : Mode X.State} : (r.after ts).goto m = (r.goto m).after ts := rfl

theorem after_emit {tok : Token} : (r.after ts).emit tok = (r.emit tok).after ts := by
  simp only [emit,after,List.append_assoc]

theorem after_documents : (r.after ts).documents = r.documents.after ts := by
  simp only [documents,after_pending]
  split
  · rw [after_emit,after_goto]
  · rfl

theorem after_flush {spot : Spot} : (r.after ts).flush spot = (r.flush spot).after ts := by
  cases spot with
  | between => rfl
  | operator t => exact after_emit
  | word raw d => exact after_emit

theorem after_inWord {raw : Text} : (r.after ts).inWord X raw c = (r.inWord X raw c).after ts := by
  simp only [inWord,after_goto]
  split
  · rfl
  · split
    · rfl
    · split <;> rfl

theorem after_begin : (r.after ts).begin X c = (r.begin X c).after ts := by
  simp only [begin,after_documents,after_goto,after_inWord]
  repeat' split
  all_goals rfl

theorem after_endWord {raw : Text} : (r.after ts).endWord X raw c = (r.endWord X raw c).after ts := by
  simp only [endWord,after_emit]
  split <;> rfl

theorem after_atSpot {spot : Spot} : (r.after ts).atSpot X spot c = (r.atSpot X spot c).after ts := by
  cases spot with
  | between => exact after_begin
  | operator t =>
    simp only [atSpot,after_goto,after_emit,after_begin]
    repeat' split
    all_goals rfl
  | word raw d =>
    simp only [atSpot,after_goto,after_endWord,after_begin,after_inWord]
    repeat' split
    all_goals rfl

theorem after_slashed {spot : Spot} : (r.after ts).slashed spot t = (r.slashed spot t).after ts := by
  cases spot with
  | between => rfl
  | operator o => simp only [slashed,after_emit,after_goto]
  | word raw d => rfl

theorem after_inHere {d : Delim} {body line : Text} {slash : Bool} :
    (r.after ts).inHere d body line slash c = (r.inHere d body line slash c).after ts := by
  simp only [inHere,after_goto]
  have hdone : ({ r.after ts with bodies := (r.after ts).bodies ++ [body] } : Reading X.State).documents =
      ({ r with bodies := r.bodies ++ [body] } : Reading X.State).documents.after ts :=
    after_documents (r := { r with bodies := r.bodies ++ [body] })
  rw [hdone]
  repeat' split
  all_goals rfl

theorem after_step : (r.after ts).step X c = (r.step X c).after ts := by
  cases h : r.mode with
  | bare spot => simp only [step,after_mode,h,after_atSpot]
  | slash spot =>
    simp only [step,after_mode,h,after_slashed,after_goto]
    split <;> rfl
  | comment =>
    simp only [step,after_mode,h,after_documents]
    split <;> rfl
  | single raw =>
    simp only [step,after_mode,h,after_goto]
    split <;> rfl
  | double raw d =>
    simp only [step,after_mode,h,after_goto]
    repeat' split
    all_goals rfl
  | doubleSlash raw d =>
    simp only [step,after_mode,h,after_goto]
    split <;> rfl
  | nested raw q st =>
    simp only [step,after_mode,h,after_goto]
    split
    · rfl
    · split <;> rfl
  | here d body line slash => simp only [step,after_mode,h,after_inHere]

theorem after_run : (r.after ts).run X t = (r.run X t).after ts := by
  induction t generalizing r with
  | nil => rfl
  | cons c t ih => rw [run_cons,run_cons,after_step,ih]

theorem after_close : (r.after ts).close = r.close.map (after ts) := by
  cases h : r.mode with
  | bare spot => simp only [close,after_mode,h,after_flush,Option.map_some]
  | slash spot => cases spot <;> simp only [close,after_mode,h,after_emit,Option.map_some]
  | here d body line slash =>
    simp only [close,after_mode,h,Option.map_some]
    rfl
  | _ => simp only [close,after_mode,h,Option.map_some,Option.map_none]

end Prefixing

section Closing

-- What is appended to the text: a newline and a closing brace.
def brace : Text := ['\n','\x7d']

theorem operators_end {o : Text} (hc : c = '\n' ∨ c = '\x7d') : o ++ [c] ∉ operators := by
  have hall : ∀ o ∈ operators, '\n' ∉ o ∧ '\x7d' ∉ o := by decide
  intro h
  rcases hc with rfl | rfl
  · exact (hall _ h).1 (List.mem_append_right _ List.mem_cons_self)
  · exact (hall _ h).2 (List.mem_append_right _ List.mem_cons_self)

theorem step_end {spot : Spot} (h : r.mode = .bare spot) : r.step X '\n' = (r.flush spot).documents := by
  cases spot with
  | between => simp only [step,h]; rfl
  | operator o =>
    simp only [step,h,atSpot,if_neg (operators_end (.inl rfl))]
    rfl
  | word raw d =>
    have hd : delimits '\n' = true := by decide
    have hw : r.endWord X raw '\n' = r.emit (.word raw) := if_neg (fun h => by rcases h.1 with h | h <;> cases h)
    simp only [step,h,atSpot,hd,hw]
    rw [if_neg (by rintro ⟨_,h | h | ⟨h,_⟩⟩ <;> cases h)]
    rfl

-- A brace joins the word it stands in.
def bracedWord (spot : Spot) : Text :=
  match spot with
  | .word raw _ => raw ++ ['\x7d']
  | _ => ['\x7d']

def beforeWord (spot : Spot) (r : Reading X.State) : Reading X.State :=
  match spot with
  | .operator o => r.emit (.op o)
  | _ => r

theorem step_brace (spot : Spot) (h : r.mode = .bare spot) :
    (r.step X '\x7d').close = some ((((r.beforeWord spot).goto (.bare (.word (bracedWord spot) false)))).emit
      (.word (bracedWord spot))) := by
  cases spot with
  | between =>
    simp only [step,h]
    rfl
  | operator o =>
    simp only [step,h,atSpot,if_neg (operators_end (.inr rfl))]
    rfl
  | word raw d =>
    have hd : delimits '\x7d' = false := by decide
    simp only [step,h,atSpot,hd]
    rw [if_neg (by rintro ⟨_,h | h | ⟨h,_⟩⟩ <;> cases h)]
    rfl

theorem documents_empty (h : r.pending = []) : r.documents = (r.emit .newline).goto (.bare .between) := by
  simp only [documents,h]

theorem closed_documents (h : r.pending = []) : (r.documents.step X '\x7d').close =
    some ⟨r.tokens ++ [.newline,.word ['\x7d']],r.bodies,none,[],.bare (.word ['\x7d'] false)⟩ := by
  rw [documents_empty h,step_brace .between rfl]
  simp only [beforeWord,bracedWord,emit,goto,h,List.append_assoc]
  rfl

theorem here_brace {d : Delim} {body line : Text} {slash : Bool} (h : r.mode = .here d body line slash) :
    ∃ r', (r.step X '\x7d').close = some r' ∧ r'.tokens = r.tokens := by
  have hstay : ∃ line', r.step X '\x7d' = r.goto (.here d body line' false) := by
    simp only [step,h,inHere]
    cases slash with
    | true => exact ⟨_,rfl⟩
    | false => exact ⟨_,rfl⟩
  obtain ⟨line',hs⟩ := hstay
  rw [hs]
  exact ⟨_,rfl,rfl⟩

theorem open_documents (h : r.pending ≠ []) : ∃ r', (r.documents.step X '\x7d').close = some r' ∧ r'.tokens = r.tokens := by
  obtain ⟨d,ds,hp⟩ := List.exists_cons_of_ne_nil h
  have hdoc : r.documents = { r with pending := ds, mode := .here d [] [] false } := by simp only [documents,hp]
  obtain ⟨r',hc,ht⟩ := here_brace (X := X) (r := r.documents) (by rw [hdoc])
  exact ⟨r',hc,ht.trans (by rw [hdoc])⟩

theorem run_brace : r.run X brace = (r.step X '\n').step X '\x7d' := rfl

theorem close_braced (h : r.close = some r') (hd : ¬ r.Dangling) (ho : ¬ r.Open) : ∃ r'', (r.run X brace).close = some r'' ∧
    r''.script = ⟨r'.script.tokens ++ [.newline,.word ['\x7d']],r'.script.bodies⟩ := by
  rw [run_brace]
  cases hm : r.mode with
  | bare spot =>
    simp only [close,hm,Option.some.injEq] at h
    subst h
    have hp : (r.flush spot).pending = [] := by simpa only [Open,hm,not_not] using ho
    refine ⟨_,by rw [step_end hm,closed_documents hp],?_⟩
    simp only [script,hp]
  | slash spot => exact absurd ⟨spot,hm⟩ hd
  | comment =>
    simp only [close,hm,Option.some.injEq] at h
    subst h
    have hp : r.pending = [] := by simpa only [Open,hm,not_not] using ho
    have hs : r.step X '\n' = r.documents := by simp only [step,hm,if_pos]
    refine ⟨_,by rw [hs,closed_documents hp],?_⟩
    simp only [script,hp]
  | here d body line slash =>
    simp only [Open,hm,not_or,not_not] at ho
    obtain ⟨⟨hslash,hline⟩,hp⟩ := ho
    simp only [close,hm,hslash,hline,and_self,if_true,Option.some.injEq] at h
    subst h
    have hs : r.step X '\n' = ({ r with bodies := r.bodies ++ [body] } : Reading X.State).documents := by
      simp only [step,hm,inHere,hslash,hline,Bool.false_eq_true,if_false,if_true]
    refine ⟨_,by rw [hs,closed_documents (r := { r with bodies := r.bodies ++ [body] }) hp],?_⟩
    simp only [script,hp]
  | _ =>
    simp only [close,hm] at h
    cases h

theorem close_open (h : r.close = some r') (ho : r.Open) :
    ∃ r'', (r.run X brace).close = some r'' ∧ r''.tokens = r'.tokens := by
  rw [run_brace]
  cases hm : r.mode with
  | bare spot =>
    simp only [close,hm,Option.some.injEq] at h
    subst h
    rw [step_end hm]
    exact open_documents (by simpa only [Open,hm] using ho)
  | comment =>
    simp only [close,hm,Option.some.injEq] at h
    subst h
    have hs : r.step X '\n' = r.documents := by simp only [step,hm,if_pos]
    rw [hs]
    exact open_documents (by simpa only [Open,hm] using ho)
  | here d body line slash =>
    simp only [close,hm,Option.some.injEq] at h
    subst h
    by_cases hend : slash = false ∧ d.line line = d.text
    · have hs : r.step X '\n' = ({ r with bodies := r.bodies ++ [body] } : Reading X.State).documents := by
        simp only [step,hm,inHere,hend.1,hend.2,Bool.false_eq_true,if_false,if_true]
      rw [hs]
      refine open_documents (r := { r with bodies := r.bodies ++ [body] }) ?_
      simp only [Open,hm] at ho
      exact ho.resolve_left (not_not.mpr hend)
    · have hstay : ∃ body' line', r.step X '\n' = r.goto (.here d body' line' false) := by
        simp only [step,hm,inHere]
        cases slash with
        | true => exact ⟨_,_,rfl⟩
        | false =>
          have hl : d.line line ≠ d.text := fun h => hend ⟨rfl,h⟩
          simp only [Bool.false_eq_true,if_false,if_true,if_neg hl]
          exact ⟨_,_,rfl⟩
      obtain ⟨body',line',hs⟩ := hstay
      rw [hs]
      exact here_brace goto_mode
  | _ =>
    simp only [Open,hm] at ho

theorem close_dangling (h : r.close = some r') (hd : r.Dangling) :
    ∃ r'', (r.run X brace).close = some r'' ∧ r''.tokens.length = r'.tokens.length := by
  obtain ⟨spot,hm⟩ := hd
  have hs : r.step X '\n' = r.goto (.bare spot) := by simp only [step,hm,if_true]
  rw [run_brace,hs]
  refine ⟨_,step_brace _ goto_mode,?_⟩
  cases spot with
  | between =>
    simp only [close,hm,Option.some.injEq] at h
    subst h
    simp only [emit,beforeWord,goto,List.length_append]
    rfl
  | operator o =>
    simp only [close,hm,Option.some.injEq] at h
    subst h
    simp only [emit,beforeWord,goto,List.length_append]
    rfl
  | word raw d =>
    simp only [close,hm,Option.some.injEq] at h
    subst h
    simp only [emit,beforeWord,goto,List.length_append]
    rfl

end Closing

end Reading

end Shell
