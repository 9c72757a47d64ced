import IdentityAwareMcp.Model.SandboxManager
import IdentityAwareMcp.Shell.Grammar
import IdentityAwareMcp.Shell.Words
import Mathlib.Data.List.Forall2

namespace IdentityAwareMcp

open SandboxManager Shell

-- A token as written, or a word that spells a given text.
inductive Piece where
  | exact (tok : Token)
  | spelled (text : Text)

def Piece.Reads : Token → Piece → Prop
  | tok, .exact tok' => tok = tok'
  | tok, .spelled text => ∃ raw, tok = .word raw ∧ Spells raw text

variable (cfg : Config) (ids : CallIds)

def exportPieces : List Piece :=
  if orElse ids.correlationId "" = "" then []
  else [.exact (.word "export".toList),.spelled ("AZURE_HTTP_USER_AGENT=" ++
    buildUserAgent cfg.uaIncludeOid (orElse ids.correlationId "") ids.userOid).toList,.exact .newline]

def workspacePieces : List Piece :=
  if cfg.blobEnabled then
    [.exact (.word "mkdir".toList),.exact (.word "-p".toList),.spelled (workspaceDir cfg ids).toList,.exact (.op "&&".toList),
      .exact (.word "cd".toList),.spelled (workspaceDir cfg ids).toList,.exact (.op "&&".toList),.exact (.word ['\x7b'])]
  else []

def afterCommand : Text := if cfg.blobEnabled then ['\n','\x7d'] else []

section Quoting

variable {X : Expansions} {r : Reading X.State} {raw t : Text} {s : String} {c : Char} {ts : List Token}

def escaped (c : Char) : Text := if c = '\'' then "'\"'\"'".toList else [c]

theorem safe_ordinary (h : Shlex.safe c = true) : Ordinary c := by
  have hne : ∀ x, Shlex.safe x = false → c ≠ x := by
    rintro x hx rfl
    rw [h] at hx
    cases hx
  have hmem : ∀ l : Text, l.all (fun x => !Shlex.safe x) = true → l.contains c = false := by
    intro l hl
    simp only [List.contains_eq_mem,decide_eq_false_iff_not]
    exact fun hc => hne c (by simpa using List.all_eq_true.mp hl c hc) rfl
  have hdelim : delimits c = false := by
    simp only [delimits,isBlank,opens,Bool.or_eq_false_iff,decide_eq_false_iff_not]
    exact ⟨⟨hne _ (by decide),hne _ (by decide),hne _ (by decide)⟩,hmem _ (by decide)⟩
  exact ⟨hne _ (by decide),hne _ (by decide),hne _ (by decide),hne _ (by decide),hne _ (by decide),hne _ (by decide),hdelim⟩

theorem safe_inert (h : Shlex.safe c = true) : active .plain c = false := by
  simp only [active,List.contains_eq_mem,decide_eq_false_iff_not]
  have hall : "$`*?[~".toList.all (fun x => !Shlex.safe x) = true := by decide
  intro hc
  have hc := List.all_eq_true.mp hall c hc
  rw [h] at hc
  cases hc

-- shlex.quote leaves a text as it is, or puts it between single quotes.
theorem quote_cases (s : String) : (s.toList ≠ [] ∧ (∀ c ∈ s.toList, Shlex.safe c = true) ∧ (Shlex.quote s).toList = s.toList) ∨
    (Shlex.quote s).toList = '\'' :: (s.toList.flatMap escaped ++ ['\'']) := by
  unfold Shlex.quote
  split
  · rename_i hs
    subst hs
    exact .inr (by decide)
  · rename_i hs
    split
    · rename_i hall
      exact .inl ⟨fun h => hs (String.toList_eq_nil_iff.mp h),List.all_eq_true.mp hall,rfl⟩
    · refine .inr ?_
      simp only [String.toList_append,String.toList_ofList]
      rfl

theorem run_escaped (t : Text) : (r.goto (.single raw)).run X (t.flatMap escaped) =
    r.goto (.single (raw ++ t.flatMap escaped)) := by
  induction t generalizing raw with
  | nil => rw [List.flatMap_nil,List.append_nil,Reading.run_nil]
  | cons c t ih =>
    have hone : (r.goto (.single raw)).run X (escaped c) = r.goto (.single (raw ++ escaped c)) := by
      unfold escaped
      split
      · simp only [show "'\"'\"'".toList = ['\'','"','\'','"','\''] by decide]
        have hclose : (r.goto (.single raw)).step X '\'' = r.goto (.bare (.word (raw ++ ['\'']) false)) := rfl
        have hopen : ∀ x : Text, (r.goto (.bare (.word x false))).step X '"' = r.goto (.double (x ++ ['"']) false) := by
          intro x
          have hd : delimits '"' = false := by decide
          simp only [Reading.step,Reading.goto_mode,Reading.atSpot,hd]
          rfl
        simp only [Reading.run_cons,Reading.run_nil,hclose,hopen]
        have hquote : (r.goto (.double (raw ++ ['\''] ++ ['"']) false)).step X '\'' =
            r.goto (.double (raw ++ ['\''] ++ ['"'] ++ ['\'']) false) := rfl
        have hend : ∀ x : Text, (r.goto (.double x false)).step X '"' = r.goto (.bare (.word (x ++ ['"']) false)) := fun _ => rfl
        rw [hquote,hend,Reading.step_single Reading.joins_word]
        simp
      · rename_i hc
        exact Reading.run_single (by simpa using fun h => hc h.symm)
    rw [List.flatMap_cons,Reading.run_append,hone,ih,List.append_assoc]

theorem run_quote (h : r.Joins raw) (s : String) :
    r.run X (Shlex.quote s).toList = r.goto (.bare (.word (raw ++ (Shlex.quote s).toList) false)) := by
  rcases quote_cases s with ⟨hne,hsafe,hq⟩ | hq
  · rw [hq]
    exact Reading.run_ordinary h hne (fun c hc => safe_ordinary (hsafe c hc))
  · have hclose : ∀ x : Text, (r.goto (.single x)).step X '\'' = r.goto (.bare (.word (x ++ ['\'']) false)) := fun _ => rfl
    rw [hq,Reading.run_cons,Reading.step_single h,Reading.run_append,run_escaped,Reading.run_cons,Reading.run_nil,hclose]
    simp

theorem unquote_escaped (t s : Text) : ∃ l, unquote .exact (t.flatMap escaped ++ s) = l ++ unquote .exact s ∧
    l.map Prod.fst = t ∧ ∀ x ∈ l, active x.2 x.1 = false := by
  induction t with
  | nil => exact ⟨[],rfl,rfl,by simp⟩
  | cons c t ih =>
    obtain ⟨l,hl,hfst,hact⟩ := ih
    rw [List.flatMap_cons,List.append_assoc,escaped]
    split
    · rename_i hc
      refine ⟨(c,.double) :: l,?_,by rw [List.map_cons,hfst],?_⟩
      · rw [List.cons_append,← hl,hc]
        rfl
      · intro x hx
        rcases List.mem_cons.mp hx with rfl | hx
        · rw [hc]
          decide
        · exact hact x hx
    · rename_i hc
      refine ⟨(c,.exact) :: l,?_,by rw [List.map_cons,hfst],?_⟩
      · exact (unquote_exact (t := [c]) (by simpa using fun h => hc h.symm) _).trans (congrArg (List.cons (c,Level.exact)) hl)
      · intro x hx
        rcases List.mem_cons.mp hx with rfl | hx
        · rfl
        · exact hact x hx

theorem spells_quote (ht : ∀ c ∈ t, Ordinary c ∧ active .plain c = false) (s : String) :
    Spells (t ++ (Shlex.quote s).toList) (t ++ s.toList) := by
  have hone : ∃ l, unquote .plain (Shlex.quote s).toList = l ∧ l.map Prod.fst = s.toList ∧ ∀ x ∈ l, active x.2 x.1 = false := by
    rcases quote_cases s with ⟨_,hsafe,hq⟩ | hq
    · refine ⟨_,rfl,?_,?_⟩
      · rw [hq,← List.append_nil s.toList,unquote_ordinary (fun c hc => safe_ordinary (hsafe c hc))]
        simp [unquote,Function.comp_def]
      · rw [hq,← List.append_nil s.toList,unquote_ordinary (fun c hc => safe_ordinary (hsafe c hc))]
        intro x hx
        simp only [unquote,List.append_nil,List.mem_map] at hx
        obtain ⟨c,hc,rfl⟩ := hx
        exact safe_inert (hsafe c hc)
    · obtain ⟨l,hl,hfst,hact⟩ := unquote_escaped s.toList ['\'']
      refine ⟨l,?_,hfst,hact⟩
      rw [hq,show unquote .plain ('\'' :: (s.toList.flatMap escaped ++ ['\''])) =
        unquote .exact (s.toList.flatMap escaped ++ ['\'']) from rfl,hl]
      exact List.append_nil l
  obtain ⟨l,hl,hfst,hact⟩ := hone
  rw [Spells,value,unquote_ordinary (fun c hc => (ht c hc).1),hl]
  refine ⟨by simp [hfst,Function.comp_def],?_⟩
  intro x hx
  rcases List.mem_append.mp hx with hx | hx
  · obtain ⟨c,hc,rfl⟩ := List.mem_map.mp hx
    exact (ht c hc).2
  · exact hact x hx

end Quoting

section Prefix

def exportText : Text :=
  if orElse ids.correlationId "" = "" then []
  else "export AZURE_HTTP_USER_AGENT=".toList ++
    (Shlex.quote (buildUserAgent cfg.uaIncludeOid (orElse ids.correlationId "") ids.userOid)).toList ++ ['\n']

def workspaceText : Text :=
  if cfg.blobEnabled then "mkdir -p ".toList ++ (Shlex.quote (workspaceDir cfg ids)).toList ++ " && cd ".toList ++
    (Shlex.quote (workspaceDir cfg ids)).toList ++ " && \x7b ".toList
  else []

def mkdirTokens (wd : Text) : List Token := [keyword "mkdir",keyword "-p",.word wd]

def cdTokens (wd : Text) : List Token := [keyword "cd",.word wd]

def exportTokens : List Token :=
  if orElse ids.correlationId "" = "" then []
  else [keyword "export",.word ("AZURE_HTTP_USER_AGENT=".toList ++
    (Shlex.quote (buildUserAgent cfg.uaIncludeOid (orElse ids.correlationId "") ids.userOid)).toList),.newline]

def workspaceTokens : List Token :=
  if cfg.blobEnabled then mkdirTokens (Shlex.quote (workspaceDir cfg ids)).toList ++
    symbol "&&" :: (cdTokens (Shlex.quote (workspaceDir cfg ids)).toList ++ [symbol "&&",keyword "\x7b"])
  else []

variable {cfg ids} {X : Expansions} {ts : List Token}

theorem scope_text (command : String) :
    (scopeToWorkspace cfg ids command).toList = workspaceText cfg ids ++ command.toList ++ afterCommand cfg := by
  unfold scopeToWorkspace workspaceText afterCommand
  cases cfg.blobEnabled with
  | false => simp
  | true => simp

theorem wrap_text (command : String) :
    (wrapText cfg ids command).toList = exportText cfg ids ++ workspaceText cfg ids ++ command.toList ++ afterCommand cfg := by
  unfold wrapText exportText
  cases ids.correlationId with
  | none => simp [orElse,scope_text]
  | some cid =>
    by_cases hc : cid = ""
    · simp [orElse,hc,scope_text]
    · simp [orElse,hc,scope_text]

theorem name_ordinary : ∀ c ∈ "AZURE_HTTP_USER_AGENT=".toList, Ordinary c ∧ active .plain c = false := by
  have hsafe : ∀ c ∈ "AZURE_HTTP_USER_AGENT=".toList, Shlex.safe c = true := List.all_eq_true.mp (by decide)
  exact fun c hc => ⟨safe_ordinary (hsafe c hc),safe_inert (hsafe c hc)⟩

theorem plain_word {w : Text} (hw : w ≠ []) (hs : w.all Shlex.safe = true) :
    (Reading.idle ts : Reading X.State).run X (w ++ [' ']) = Reading.idle (ts ++ [.word w]) :=
  Reading.idle_word hw (fun c hc => safe_ordinary (List.all_eq_true.mp hs c hc))

theorem quoted_word (s : String) : (Reading.idle ts : Reading X.State).run X ((Shlex.quote s).toList ++ [' ']) =
    Reading.idle (ts ++ [.word (Shlex.quote s).toList]) := by
  rw [Reading.run_append,run_quote Reading.idle_joins]
  exact Reading.idle_blank

theorem run_export : (Reading.idle [] : Reading X.State).run X (exportText cfg ids) = Reading.idle (exportTokens cfg ids) := by
  unfold exportText exportTokens
  split
  · rfl
  · generalize buildUserAgent cfg.uaIncludeOid (orElse ids.correlationId "") ids.userOid = ua
    rw [show "export AZURE_HTTP_USER_AGENT=".toList = "export".toList ++ [' '] ++ "AZURE_HTTP_USER_AGENT=".toList by decide,
      List.append_assoc,List.append_assoc,Reading.run_append,plain_word (by decide) (by decide),Reading.run_append,
      Reading.run_ordinary Reading.idle_joins (by decide) (fun c hc => (name_ordinary c hc).1),Reading.run_append,
      run_quote Reading.joins_word]
    exact Reading.idle_newline

theorem export_reads : List.Forall₂ Piece.Reads (exportTokens cfg ids) (exportPieces cfg ids) := by
  unfold exportTokens exportPieces
  split
  · exact .nil
  · refine .cons rfl (.cons ⟨_,rfl,?_⟩ (.cons rfl .nil))
    rw [String.toList_append]
    exact spells_quote name_ordinary _

theorem spells_directory : Spells (Shlex.quote (workspaceDir cfg ids)).toList (workspaceDir cfg ids).toList :=
  spells_quote (t := []) (by simp) _

theorem run_workspace : (Reading.idle ts : Reading X.State).run X (workspaceText cfg ids) =
    Reading.idle (ts ++ workspaceTokens cfg ids) := by
  unfold workspaceText workspaceTokens
  split
  · generalize workspaceDir cfg ids = wd
    have hbrace : ∀ ts, (Reading.idle ts : Reading X.State).run X ['\x7b',' '] = Reading.idle (ts ++ [.word ['\x7b']]) :=
      fun ts => Reading.idle_blank
    have htext : "mkdir -p ".toList ++ (Shlex.quote wd).toList ++ " && cd ".toList ++ (Shlex.quote wd).toList ++
        " && \x7b ".toList = ("mkdir".toList ++ [' ']) ++ (("-p".toList ++ [' ']) ++ (((Shlex.quote wd).toList ++ [' ']) ++
        ("&& ".toList ++ (("cd".toList ++ [' ']) ++ (((Shlex.quote wd).toList ++ [' ']) ++ ("&& ".toList ++ ['\x7b',' ']))))))
        := by simp
    rw [htext,Reading.run_append,plain_word (by decide) (by decide),Reading.run_append,plain_word (by decide) (by decide),
      Reading.run_append,quoted_word,Reading.run_append,Reading.idle_and,Reading.run_append,
      plain_word (by decide) (by decide),Reading.run_append,quoted_word,Reading.run_append,Reading.idle_and,hbrace]
    simp [mkdirTokens,cdTokens,keyword,symbol]
  · simp

theorem workspace_reads : List.Forall₂ Piece.Reads (workspaceTokens cfg ids) (workspacePieces cfg ids) := by
  unfold workspaceTokens workspacePieces
  split
  · exact .cons rfl (.cons rfl (.cons ⟨_,rfl,spells_directory⟩ (.cons rfl (.cons rfl (.cons ⟨_,rfl,spells_directory⟩
      (.cons rfl (.cons rfl .nil)))))))
  · exact .nil

theorem run_lead : (Reading.start : Reading X.State).run X (exportText cfg ids ++ workspaceText cfg ids) =
    Reading.idle (exportTokens cfg ids ++ workspaceTokens cfg ids) := by
  rw [Reading.start_idle,Reading.run_append,run_export,run_workspace]

end Prefix

-- Before the command there are the commands that set it up and nothing else, whatever the
-- identifiers hold; the command itself follows as it is.
theorem wrap_prefix (X : Expansions) (cfg : Config) (ids : CallIds) (command : String) : ∃ lead toks,
    (wrapText cfg ids command).toList = lead ++ command.toList ++ afterCommand cfg ∧
    (Reading.start : Reading X.State).run X lead = Reading.idle toks ∧
    List.Forall₂ Piece.Reads toks (exportPieces cfg ids ++ workspacePieces cfg ids) := by
  exact ⟨_,_,wrap_text command,run_lead,List.rel_append export_reads workspace_reads⟩

end IdentityAwareMcp
