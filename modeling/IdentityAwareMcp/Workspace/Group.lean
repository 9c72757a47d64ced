import IdentityAwareMcp.Shell.Flat
import IdentityAwareMcp.Workspace.Directory
import IdentityAwareMcp.Workspace.Wrapper

namespace IdentityAwareMcp

open SandboxManager Shell

variable (cfg : Config) (ids : CallIds)

section SettingUp

variable {σ : Type} (S : Semantics σ) (exports : List Token) (wd : Text) (s : σ)

-- The state in which the shell reads the line that holds the command.
def exported : σ := if exports = [] then s else (S.run ⟨exports.dropLast,[]⟩ s).1

def mkdirRun : σ × Nat := S.within (exported S exports s) ⟨mkdirTokens wd,[]⟩ (exported S exports s)

def cdRun : σ × Nat := S.within (exported S exports s) ⟨cdTokens wd,[]⟩ (mkdirRun S exports wd s).1

def SetUp : Prop := (mkdirRun S exports wd s).2 = 0 ∧ (cdRun S exports wd s).2 = 0

end SettingUp

structure Wraps (p : Script) (lead : List Token) (wd : Text) (nls : List Token) (q : Script) : Prop where
  exports : List.Forall₂ Piece.Reads lead (exportPieces cfg ids)
  directory : Spells wd (workspaceDir cfg ids).toList
  newlines : ∀ t ∈ nls, t = .newline
  tokens : q.tokens = lead ++ (mkdirTokens wd ++ symbol "&&" :: cdTokens wd) ++
    symbol "&&" :: grouped (p.tokens ++ nls)
  group : Derives .braceGroup (grouped (p.tokens ++ nls))
  bodies : q.bodies = p.bodies

-- The shell accepts the wrapped text, reads in it the set-up commands and a brace group around
-- the very program, and where they succeed runs that program in the state they leave.
def Preserved {σ : Type} (S : Semantics σ) (X : Expansions) (command : String) (p : Script) : Prop :=
  ∃ q exports wd nls, Accepts X (wrapText cfg ids command).toList q ∧ Wraps cfg ids p exports wd nls q ∧
    ∀ s, SetUp S exports wd s → S.run q s = S.run p (cdRun S exports wd s).1

-- The word the wrapper writes for the workspace directory.
def dirWord : Text := (Shlex.quote (workspaceDir cfg ids)).toList

-- In whatever state the set-up commands leave the shell, the program does there what it does when
-- all of it is read before the first of them has run.
def ReadAhead {σ : Type} (S : Semantics σ) (p : Script) : Prop :=
  ∀ s, SetUp S (exportTokens cfg ids) (dirWord cfg ids) s →
    AtOnce S (exported S (exportTokens cfg ids) s) p (cdRun S (exportTokens cfg ids) (dirWord cfg ids) s).1

variable {cfg ids} {X : Expansions} {command : String} {p q : Script} {wd wd' : Text}
  {nls nls' exports exports' body : List Token} {σ : Type} {S : Semantics σ}

theorem mkdir_simple : Derives .simpleCommand (mkdirTokens wd) := by
  have harg : Derives .cmdSuffix ([keyword "-p"] ++ [.word wd]) := .arguments .argument
  exact .called (by decide) (by decide) harg

theorem cd_simple : Derives .simpleCommand (cdTokens wd) := .called (by decide) (by decide) .argument

theorem setUp_derives (wd : Text) (h : Derives .braceGroup (grouped body)) :
    Derives (.andOr true) ((mkdirTokens wd ++ symbol "&&" :: cdTokens wd) ++ symbol "&&" :: grouped body) :=
  and_then (and_then (.pipeline (simple_pipeline mkdir_simple)) (simple_pipeline cd_simple)) (brace_pipeline h)

theorem export_simple (h : exportTokens cfg ids ≠ []) : ∃ e, exportTokens cfg ids = e ++ [.newline] ∧
    Derives .simpleCommand e ∧ hereCount e = 0 := by
  unfold exportTokens at h ⊢
  split
  · rename_i hc
    exact absurd (if_pos hc) h
  · refine ⟨[_,_],rfl,.called (by decide) (by decide) .argument,?_⟩
    simp [hereCount,hereOps,keyword,symbol]

theorem wrapped_derives (h : Derives .braceGroup (grouped body)) : Derives .program (exportTokens cfg ids ++
    (mkdirTokens wd ++ symbol "&&" :: cdTokens wd) ++ symbol "&&" :: grouped body) := by
  have hline := pipeline_complete (setUp_derives wd h)
  by_cases he : exportTokens cfg ids = []
  · simpa only [he,List.nil_append] using complete_program hline
  · obtain ⟨e,heq,hsimple,_⟩ := export_simple he
    have hprog := lines_program (pipeline_complete (.pipeline (simple_pipeline hsimple))) hline
    simpa [heq] using hprog

theorem hereCount_mkdir : hereCount (mkdirTokens wd) = 0 := by simp [hereCount,hereOps,mkdirTokens,keyword,symbol]

theorem hereCount_setUp : hereCount (mkdirTokens wd ++ symbol "&&" :: cdTokens wd) = 0 := by
  simp [hereCount,hereOps,mkdirTokens,cdTokens,keyword,symbol]

-- The line with the command: the group runs where the set-up commands lead, and its list was read before them.
theorem line_run {r s₁ s₂ : σ} (bs : List Text) (h : Derives .braceGroup (grouped body))
    (hmkdir : S.within r ⟨mkdirTokens wd,[]⟩ r = (s₁,0)) (hcd : S.within r ⟨cdTokens wd,[]⟩ s₁ = (s₂,0)) :
    S.run ⟨(mkdirTokens wd ++ symbol "&&" :: cdTokens wd) ++ symbol "&&" :: grouped body,bs⟩ r =
      (S.within r ⟨body,bs⟩ s₂).map S.settle id := by
  have hsetUp : S.within r ⟨mkdirTokens wd ++ symbol "&&" :: cdTokens wd,[]⟩ r = (s₂,0) := by
    have hand := S.andIf r (mkdirTokens wd) (cdTokens wd) [] [] r false false (.pipeline (simple_pipeline mkdir_simple)) hereCount_mkdir.symm
      (simple_pipeline cd_simple) (by rw [hmkdir])
    rw [hmkdir,hcd] at hand
    exact hand
  have hand := S.andIf r _ _ [] bs r false true (and_then (.pipeline (simple_pipeline mkdir_simple))
    (simple_pipeline cd_simple)) hereCount_setUp.symm (brace_pipeline h) (by rw [hsetUp])
  rw [S.complete _ _ _ (pipeline_complete (setUp_derives wd h))]
  rw [hsetUp,S.group _ _ _ _ h] at hand
  exact congrArg (Prod.map S.settle id) hand

theorem wrapped_run (s : σ) (bs : List Text) (h : Derives .braceGroup (grouped body))
    (hs : SetUp S (exportTokens cfg ids) wd s) :
    S.run ⟨exportTokens cfg ids ++ (mkdirTokens wd ++ symbol "&&" :: cdTokens wd) ++ symbol "&&" :: grouped body,bs⟩ s =
      (S.within (exported S (exportTokens cfg ids) s) ⟨body,bs⟩
        (cdRun S (exportTokens cfg ids) wd s).1).map S.settle id := by
  have hmkdir : S.within (exported S (exportTokens cfg ids) s) ⟨mkdirTokens wd,[]⟩ (exported S (exportTokens cfg ids) s) =
      ((mkdirRun S (exportTokens cfg ids) wd s).1,0) := Prod.ext rfl hs.1
  have hcd : S.within (exported S (exportTokens cfg ids) s) ⟨cdTokens wd,[]⟩ (mkdirRun S (exportTokens cfg ids) wd s).1 =
      ((cdRun S (exportTokens cfg ids) wd s).1,0) := Prod.ext rfl hs.2
  rw [← line_run bs h hmkdir hcd]
  by_cases he : exportTokens cfg ids = []
  · simp only [he,exported,if_true,List.nil_append]
  · obtain ⟨e,heq,hsimple,hhere⟩ := export_simple he
    have hmarked := derives_marked (setUp_derives wd h) rfl
    have hseq := S.sequence e _ [] bs s (pipeline_complete (.pipeline (simple_pipeline hsimple))) hhere.symm
      (complete_program (pipeline_complete (setUp_derives wd h))) hmarked
    have hstate : exported S (exportTokens cfg ids) s = (S.run ⟨e,[]⟩ s).1 := by
      rw [exported,if_neg he,heq,List.dropLast_concat]
    rw [List.nil_append] at hseq
    rw [hstate,← hseq,heq]
    simp only [List.append_assoc,List.cons_append,List.nil_append]

-- What the shell reads of the wrapped text, by what it reads of the command.
theorem read_wrapped (hblob : cfg.blobEnabled = true) : read X (wrapText cfg ids command).toList =
    ((Reading.start.run X command.toList).run X Reading.brace).close.map (fun r =>
      ⟨exportTokens cfg ids ++ workspaceTokens cfg ids ++ r.script.tokens,r.script.bodies⟩) := by
  have hafter : afterCommand cfg = Reading.brace := if_pos hblob
  have hidle : ∀ ts, (Reading.idle ts : Reading X.State) = Reading.start.after ts := by
    intro ts
    simp only [Reading.idle,Reading.start,Reading.after,List.append_nil]
  rw [Shell.read,wrap_text,hafter,List.append_assoc,Reading.run_append,run_lead,hidle,Reading.after_run,Reading.run_append,
    Reading.after_close,Option.map_map]
  rfl

theorem workspace_tokens (hblob : cfg.blobEnabled = true) (ids : CallIds) (ts : List Token) :
    workspaceTokens cfg ids ++ ts =
    (mkdirTokens (dirWord cfg ids) ++ symbol "&&" :: cdTokens (dirWord cfg ids)) ++ symbol "&&" :: keyword "\x7b" :: ts := by
  unfold workspaceTokens
  rw [if_pos hblob]
  simp only [dirWord,List.append_assoc,List.cons_append,List.nil_append]

theorem wrapped_wraps (ids : CallIds) (hblob : cfg.blobEnabled = true) (hp : Accepts X command.toList p) (hm : Marked p.tokens)
    (hd : ¬ (Reading.start.run X command.toList).Dangling) (ho : ¬ (Reading.start.run X command.toList).Open) :
    ∃ q, Accepts X (wrapText cfg ids command).toList q ∧
      Wraps cfg ids p (exportTokens cfg ids) (dirWord cfg ids) [.newline] q := by
  obtain ⟨hread,hder⟩ := hp
  obtain ⟨r,hclose,rfl⟩ := Option.map_eq_some_iff.mp hread
  obtain ⟨r',hclose',hscript⟩ := Reading.close_braced hclose hd ho
  have hgroup : Derives .braceGroup (grouped (r.script.tokens ++ [.newline])) := .braceGroup (program_body hder hm)
  have hq : read X (wrapText cfg ids command).toList = some ⟨exportTokens cfg ids ++
      (mkdirTokens (dirWord cfg ids) ++ symbol "&&" :: cdTokens (dirWord cfg ids)) ++
        symbol "&&" :: grouped (r.script.tokens ++ [.newline]),r.script.bodies⟩ := by
    rw [read_wrapped hblob,hclose',Option.map_some,hscript,List.append_assoc,workspace_tokens hblob ids]
    simp only [grouped,List.append_assoc,List.cons_append,List.nil_append]
    rfl
  exact ⟨_,⟨hq,wrapped_derives hgroup⟩,export_reads,spells_directory,by simp,rfl,hgroup,rfl⟩

theorem wraps_run (h : Wraps cfg ids p (exportTokens cfg ids) wd nls q) {s : σ} (hs : SetUp S (exportTokens cfg ids) wd s) :
    S.run q s = (S.within (exported S (exportTokens cfg ids) s) p (cdRun S (exportTokens cfg ids) wd s).1).map S.settle id := by
  obtain ⟨tokens,bodies⟩ := q
  obtain rfl : tokens = _ := h.tokens
  obtain rfl : bodies = _ := h.bodies
  rw [wrapped_run s p.bodies h.group hs]
  exact congrArg (Prod.map S.settle id) (S.blankWithin _ [] p.tokens nls p.bodies _ (by simp) h.newlines)

theorem wraps_same (h : Wraps cfg ids p exports wd nls q) (h' : Wraps cfg ids p exports' wd' nls' q) :
    exports = exports' ∧ wd = wd' := by
  have htokens := h.tokens.symm.trans h'.tokens
  have hlen : exports.length = exports'.length := h.exports.length_eq.trans h'.exports.length_eq.symm
  simp only [List.append_assoc] at htokens
  obtain ⟨hexports,hrest⟩ := List.append_inj htokens hlen
  simp only [mkdirTokens,List.cons_append,List.cons.injEq,Token.word.injEq] at hrest
  exact ⟨hexports,hrest.2.2.1⟩

theorem wraps_marked (h : Wraps cfg ids p exports wd nls q) : Marked p.tokens := by
  obtain ⟨t,ht,hne⟩ := body_marked h.group
  rcases List.mem_append.mp ht with ht | ht
  · exact ⟨t,ht,hne⟩
  · exact absurd (h.newlines t ht) hne

-- A newline and the brace that closes the group are not read as a newline and that brace.
theorem wraps_longer (hblob : cfg.blobEnabled = true) {r r' : Reading X.State}
    (hclose' : ((Reading.start.run X command.toList).run X Reading.brace).close = some r')
    (hread : read X (wrapText cfg ids command).toList = some q) (h : Wraps cfg ids r.script exports wd nls q) :
    r.tokens.length < r'.tokens.length := by
  have hlen := congrArg List.length h.tokens
  rw [read_wrapped hblob,hclose',Option.map_some,Option.some.injEq] at hread
  subst hread
  have he : exports.length = (exportTokens cfg ids).length :=
    h.exports.length_eq.trans export_reads.length_eq.symm
  have hw := congrArg List.length (workspace_tokens hblob ids [])
  simp only [grouped,mkdirTokens,cdTokens,List.length_append,List.length_cons,List.length_nil] at hlen hw
  have hr : r.script.tokens.length = r.tokens.length := rfl
  have hr' : r'.script.tokens.length = r'.tokens.length := rfl
  omega

theorem wraps_whole (hblob : cfg.blobEnabled = true) (hp : Accepts X command.toList p)
    (hq : Accepts X (wrapText cfg ids command).toList q) (h : Wraps cfg ids p exports wd nls q) :
    Marked p.tokens ∧ ¬ (Reading.start.run X command.toList).Dangling ∧ ¬ (Reading.start.run X command.toList).Open := by
  obtain ⟨r,hclose,rfl⟩ := Option.map_eq_some_iff.mp hp.1
  refine ⟨wraps_marked h,fun hd => ?_,fun ho => ?_⟩
  · obtain ⟨r',hclose',hlen⟩ := Reading.close_dangling hclose hd
    have := wraps_longer hblob hclose' hq.1 h
    omega
  · obtain ⟨r',hclose',htokens⟩ := Reading.close_open hclose ho
    have := wraps_longer hblob hclose' hq.1 h
    rw [htokens] at this
    omega

-- A program is kept exactly when it has a command in it, does not end in a backslash that would
-- join the newline after it, every here-document in it has met its delimiter, and it does not
-- matter to it that the shell reads all of it before it runs any of it.
theorem wrapper_preserves (S : Semantics σ) (hblob : cfg.blobEnabled = true) (hp : Accepts X command.toList p) :
    Preserved cfg ids S X command p ↔ Marked p.tokens ∧ ¬ (Reading.start.run X command.toList).Dangling ∧
      ¬ (Reading.start.run X command.toList).Open ∧ ReadAhead cfg ids S p := by
  constructor
  · rintro ⟨q,exports,wd,nls,hq,hwraps,hrun⟩
    obtain ⟨hm,hd,ho⟩ := wraps_whole hblob hp hq hwraps
    obtain ⟨q',hq',hwraps'⟩ := wrapped_wraps ids hblob hp hm hd ho
    cases hq.1.symm.trans hq'.1
    obtain ⟨rfl,rfl⟩ := wraps_same hwraps hwraps'
    exact ⟨hm,hd,ho,fun s hs => (wraps_run hwraps hs).symm.trans (hrun s hs)⟩
  · rintro ⟨hm,hd,ho,hahead⟩
    obtain ⟨q,hq,hwraps⟩ := wrapped_wraps ids hblob hp hm hd ho
    exact ⟨q,_,_,_,hq,hwraps,fun s hs => (wraps_run hwraps hs).trans (hahead s hs)⟩

-- An expansion ends at the first character that could close it.
def plainExpansions : Expansions where
  State := Char
  enter := id
  step := fun opened c => if c = (if opened = '(' then ')' else if opened = '\x7b' then '\x7d' else opened) then none else some opened
  dollarQuotes := false

def sampleIds : CallIds := ⟨some ownOid.text,some "s_1",some "c 1",some "f00d"⟩

def greeting : String := "cat <<E\nhello\nE\n\npwd # where"

def greetingScript : Script :=
  ⟨[keyword "cat",symbol "<<",keyword "E",.newline,.newline,keyword "pwd"],["hello\n".toList]⟩

def freshFlat : Flat := ⟨"/".toList,[],[],0,false⟩

theorem cat_complete : Derives .completeCommand [keyword "cat",symbol "<<",keyword "E"] :=
  pipeline_complete (.pipeline (simple_pipeline (.called (by decide) (by decide) (.suffixRedirect (.ioHere (by decide))))))

theorem pwd_complete : Derives .completeCommand [keyword "pwd"] :=
  pipeline_complete (.pipeline (simple_pipeline (.name (by decide) (by decide))))

theorem blank_pwd : Derives .program [.newline,keyword "pwd"] :=
  .program (.linebreak .newline) (.oneComplete pwd_complete) .noLinebreak

theorem greeting_accepted : Accepts plainExpansions greeting.toList greetingScript := by
  have hlines : Derives .completeCommands ([keyword "cat",symbol "<<",keyword "E"] ++ [.newline,.newline] ++ [keyword "pwd"]) :=
    .completeCommands (.oneComplete cat_complete) (.newlines .newline) pwd_complete
  have hprog : Derives .program ([] ++ _ ++ []) := .program .noLinebreak hlines .noLinebreak
  exact ⟨by decide +kernel,hprog⟩

theorem greeting_linewise (r s : Flat) : Linewise flat r greetingScript s := by
  have hpwd : Linewise flat r ⟨[.newline] ++ [keyword "pwd"] ++ [],[]⟩ (flat.run ⟨[keyword "cat",symbol "<<",keyword "E"],
      ["hello\n".toList]⟩ s).1 := .blank (by simp) (by simp) (.last pwd_complete rfl)
  exact .line cat_complete (by decide) blank_pwd ⟨keyword "pwd",by decide,by decide⟩ rfl hpwd

theorem greeting_mode : (Reading.start.run plainExpansions greeting.toList).mode = .comment := rfl

theorem wrapper_preserves_greeting : Preserved blobConfig sampleIds flat plainExpansions greeting greetingScript ∧
    SetUp flat (exportTokens blobConfig sampleIds) (dirWord blobConfig sampleIds) freshFlat := by
  have hdangling : ¬ (Reading.start.run plainExpansions greeting.toList).Dangling := by
    rintro ⟨spot,hs⟩
    rw [greeting_mode] at hs
    cases hs
  have hopen : ¬ (Reading.start.run plainExpansions greeting.toList).Open := by
    rw [Reading.Open,greeting_mode]
    exact fun h => h rfl
  have hahead : ReadAhead blobConfig sampleIds flat greetingScript := fun _ _ => (greeting_linewise _ _).atOnce
  exact ⟨(wrapper_preserves flat rfl greeting_accepted).mpr ⟨⟨keyword "cat",by decide,by decide⟩,hdangling,hopen,hahead⟩,
    by decide +kernel,by decide +kernel⟩

-- A comment alone is a program that does nothing; in braces it is no program at all.
theorem wrapper_breaks_comment : blobConfig.blobEnabled = true ∧ Accepts plainExpansions "# nothing".toList ⟨[],[]⟩ ∧
    ∀ (σ : Type) (S : Semantics σ), ¬ Preserved blobConfig sampleIds S plainExpansions "# nothing" ⟨[],[]⟩ := by
  refine ⟨rfl,⟨rfl,.emptyProgram .noLinebreak⟩,?_⟩
  rintro σ S ⟨q,exports,wd,nls,-,hwraps,-⟩
  obtain ⟨t,ht,-⟩ := wraps_marked hwraps
  cases ht

end IdentityAwareMcp
