import IdentityAwareMcp.Shell.Lexer

namespace Shell

-- A character that is part of the word it stands in, and nothing more.
structure Ordinary (c : Char) : Prop where
  single : c ≠ '\''
  double : c ≠ '"'
  back : c ≠ '`'
  dollar : c ≠ '$'
  slash : c ≠ '\\'
  hash : c ≠ '#'
  delim : delimits c = false

variable {X : Expansions} {r : Reading X.State} {raw t s : Text} {c : Char} {ts : List Token}

theorem Ordinary.begins (h : Ordinary c) : c ≠ '\n' ∧ isBlank c = false ∧ opens c = false := by
  have hd := h.delim
  simp only [delimits,Bool.or_eq_false_iff,decide_eq_false_iff_not] at hd
  exact ⟨hd.1.1,hd.1.2,hd.2⟩

namespace Reading

theorem run_append {t' : Text} : r.run X (t ++ t') = (r.run X t).run X t' := List.foldl_append

@[simp] theorem run_nil : r.run X [] = r := rfl

@[simp] theorem run_cons : r.run X (c :: t) = (r.step X c).run X t := rfl

@[simp] theorem goto_goto {m m' : Mode X.State} : (r.goto m).goto m' = r.goto m' := rfl

@[simp] theorem goto_mode {m : Mode X.State} : (r.goto m).mode = m := rfl

-- Between two words, or inside one: what comes next is joined to raw.
def Joins (raw : Text) (r : Reading X.State) : Prop :=
  r.mode = .bare (.word raw false) ∨ raw = [] ∧ r.mode = .bare .between

theorem joins_word : (r.goto (.bare (.word raw false))).Joins raw := .inl rfl

theorem step_ordinary (h : r.Joins raw) (hc : Ordinary c) : r.step X c = r.goto (.bare (.word (raw ++ [c]) false)) := by
  have hin : r.inWord X raw c = r.goto (.bare (.word (raw ++ [c]) false)) := by
    simp only [inWord,if_neg hc.single,if_neg hc.double,if_neg hc.back,hc.dollar,decide_false]
  obtain ⟨hn,hb,ho⟩ := hc.begins
  rcases h with h | ⟨rfl,h⟩
  · simp only [step,h,atSpot,if_neg hc.slash,hc.delim,Bool.false_eq_true,false_and,if_false,hin]
  · simp only [step,h,atSpot,begin,if_neg hn,hb,Bool.false_eq_true,if_false,if_neg hc.hash,if_neg hc.slash,ho,hin]

theorem run_ordinary (h : r.Joins raw) (ht : t ≠ []) (hc : ∀ c ∈ t, Ordinary c) :
    r.run X t = r.goto (.bare (.word (raw ++ t) false)) := by
  induction t generalizing r raw with
  | nil => exact absurd rfl ht
  | cons c t ih =>
    have hall : ∀ x ∈ t, Ordinary x := fun x hx => hc x (List.mem_cons_of_mem _ hx)
    rw [run_cons,step_ordinary h (hc c List.mem_cons_self)]
    cases t with
    | nil => rfl
    | cons x t =>
      rw [ih joins_word (List.cons_ne_nil x t) hall,goto_goto,List.append_assoc]
      rfl

theorem step_single (h : r.Joins raw) : r.step X '\'' = r.goto (.single (raw ++ ['\''])) := by
  have hd : delimits '\'' = false := by decide
  rcases h with h | ⟨rfl,h⟩
  · simp only [step,h,atSpot,hd]
    rfl
  · simp only [step,h]
    rfl

theorem run_single (ht : '\'' ∉ t) : (r.goto (.single raw)).run X t = r.goto (.single (raw ++ t)) := by
  induction t generalizing raw with
  | nil => rw [List.append_nil,run_nil]
  | cons c t ih =>
    have hc : c ≠ '\'' := fun h => ht (h ▸ List.mem_cons_self)
    rw [run_cons,step,goto_mode]
    simp only [if_neg hc,goto_goto]
    rw [ih (fun h => ht (List.mem_cons_of_mem _ h)),List.append_assoc]
    rfl

-- Nothing is open after these tokens.
def idle (ts : List Token) : Reading X.State := ⟨ts,[],none,[],.bare .between⟩

theorem start_idle : (start : Reading X.State) = idle [] := rfl

theorem idle_joins : (idle ts : Reading X.State).Joins [] := .inr ⟨rfl,rfl⟩

theorem idle_blank : ((idle ts : Reading X.State).goto (.bare (.word raw false))).step X ' ' = idle (ts ++ [.word raw]) := by
  have hd : delimits ' ' = true := by decide
  simp only [step,goto_mode,atSpot,hd]
  rfl

theorem idle_newline :
    ((idle ts : Reading X.State).goto (.bare (.word raw false))).step X '\n' = idle (ts ++ [.word raw,.newline]) := by
  have hd : delimits '\n' = true := by decide
  have he : endWord X raw '\n' ((idle ts : Reading X.State).goto (.bare (.word raw false))) =
      (idle (ts ++ [.word raw]) : Reading X.State).goto (.bare (.word raw false)) := rfl
  simp only [step,goto_mode,atSpot,hd]
  rw [if_neg (fun h => Bool.false_ne_true h.1),if_neg (by decide),if_pos trivial,he]
  simp only [begin,if_pos,documents,idle,goto,emit,List.append_assoc]
  rfl

theorem idle_word (ht : t ≠ []) (hc : ∀ c ∈ t, Ordinary c) :
    (idle ts : Reading X.State).run X (t ++ [' ']) = idle (ts ++ [.word t]) := by
  rw [run_append,run_ordinary idle_joins ht hc,List.nil_append]
  exact idle_blank

theorem idle_and : (idle ts : Reading X.State).run X "&& ".toList = idle (ts ++ [.op "&&".toList]) := rfl

end Reading

theorem unquote_ordinary (ht : ∀ c ∈ t, Ordinary c) (s : Text) :
    unquote .plain (t ++ s) = t.map (fun c => (c,.plain)) ++ unquote .plain s := by
  induction t with
  | nil => rfl
  | cons c t ih =>
    have hc := ht c List.mem_cons_self
    rw [List.cons_append,unquote,ih (fun x hx => ht x (List.mem_cons_of_mem _ hx))]
    · rfl
    · exact fun _ _ h _ => hc.slash h
    · exact hc.single
    · exact hc.double

theorem unquote_exact (ht : '\'' ∉ t) (s : Text) :
    unquote .exact (t ++ s) = t.map (fun c => (c,.exact)) ++ unquote .exact s := by
  induction t with
  | nil => rfl
  | cons c t ih =>
    have hc : c ≠ '\'' := fun h => ht (h ▸ List.mem_cons_self)
    rw [List.cons_append,unquote,ih (fun h => ht (List.mem_cons_of_mem _ h))]
    · rfl
    · exact hc

end Shell
