import IdentityAwareMcp.Shell.Semantics

namespace Shell

-- A small shell without aliases: simple commands, one after the other and behind &&, in braces or
-- not, with a few utilities. Directories go by their full names, and what fails before && ends the program.
structure Flat where
  cwd : Text
  made : List Text
  out : Text
  status : Nat
  halted : Bool

namespace Flat

def utility (s : Flat) (body : Text) : List Text → Flat
  | [] => s
  | name :: args =>
    if s.halted then s
    else if name = "export".toList then { s with status := 0 }
    else if name = "mkdir".toList then { s with made := s.made ++ args.tail,status := 0 }
    else if name = "cd".toList then
      if args.all (fun d => s.made.contains d) then { s with cwd := args.headD s.cwd,status := 0 } else { s with status := 1 }
    else if name = "pwd".toList then { s with out := s.out ++ s.cwd ++ ['\n'],status := 0 }
    else if name = "cat".toList then { s with out := s.out ++ body,status := 0 }
    else { s with status := 127 }

-- The command being read; whether the next word belongs to a redirection; the here-documents to come.
structure Line where
  args : List Text
  body : Text
  target : Bool
  bodies : List Text
  state : Flat

namespace Line

def start (bs : List Text) (s : Flat) : Line := ⟨[],[],false,bs,s⟩

def flush (l : Line) : Line := start l.bodies (l.state.utility l.body l.args)

def haltUnless (l : Line) : Line := if l.state.status = 0 then l else { l with state := { l.state with halted := true } }

def step (l : Line) : Token → Line
  | .word raw =>
    if l.target then { l with target := false }
    else if .word raw = keyword "\x7b" ∨ .word raw = keyword "\x7d" then l
    else { l with args := l.args ++ [value raw] }
  | .io _ => l
  | .newline => l.flush
  | .op t =>
    if .op t ∈ hereOps then { l with body := l.bodies.headD [],bodies := l.bodies.tail,target := true }
    else if .op t ∈ fileOps then { l with target := true }
    else if .op t = symbol "&&" then l.flush.haltUnless
    else l.flush

variable {l : Line} {ts : List Token} {bs : List Text}

theorem haltUnless_bodies : l.haltUnless.bodies = l.bodies := by
  unfold haltUnless
  split <;> rfl

theorem haltUnless_with : ({ l with bodies := bs } : Line).haltUnless = { l.haltUnless with bodies := bs } := by
  unfold haltUnless
  split <;> rfl

theorem step_bodies (bs : List Text) {t : Token} (h : l.bodies.length = hereCount (t :: ts)) :
    ({ l with bodies := l.bodies ++ bs } : Line).step t = { l.step t with bodies := (l.step t).bodies ++ bs } ∧
      (l.step t).bodies.length = hereCount ts := by
  have hops : ∀ o ∈ hereOps, ∃ x, o = .op x := by simp [hereOps,symbol]
  have hnone : t ∉ hereOps → l.bodies.length = hereCount ts := fun hm => by simpa [hereCount,hm] using h
  cases t with
  | word raw =>
    have hlen := hnone (fun hm => by obtain ⟨_,he⟩ := hops _ hm; cases he)
    simp only [step]
    split
    · exact ⟨rfl,hlen⟩
    · split <;> exact ⟨rfl,hlen⟩
  | io digits => exact ⟨rfl,hnone (fun hm => by obtain ⟨_,he⟩ := hops _ hm; cases he)⟩
  | newline => exact ⟨rfl,hnone (fun hm => by obtain ⟨_,he⟩ := hops _ hm; cases he)⟩
  | op x =>
    simp only [step]
    split
    · rename_i hm
      cases hb : l.bodies with
      | nil => simp [hereCount,hm,hb] at h
      | cons d ds => exact ⟨rfl,by simpa [hereCount,hm,hb] using h⟩
    · rename_i hm
      split
      · exact ⟨rfl,hnone hm⟩
      · split
        · rw [haltUnless_bodies]
          exact ⟨haltUnless_with (l := l.flush),hnone hm⟩
        · exact ⟨rfl,hnone hm⟩

-- A command takes as many here-documents as it announces.
theorem fold_bodies (bs : List Text) (h : l.bodies.length = hereCount ts) :
    ts.foldl step { l with bodies := l.bodies ++ bs } = { ts.foldl step l with bodies := bs } := by
  induction ts generalizing l with
  | nil =>
    rw [List.length_eq_zero_iff.mp h]
    rfl
  | cons t ts ih =>
    obtain ⟨hstep,hlen⟩ := step_bodies bs h
    rw [List.foldl_cons,List.foldl_cons,hstep,ih hlen]

theorem fold_blank (h : ∀ t ∈ ts, t = .newline) : ts.foldl step l = if ts = [] then l else l.flush := by
  induction ts generalizing l with
  | nil => rfl
  | cons t ts ih =>
    rw [List.foldl_cons,h t List.mem_cons_self,ih (fun x hx => h x (List.mem_cons_of_mem _ hx)),if_neg (List.cons_ne_nil _ _)]
    split <;> rfl

end Line

def exec (p : Script) (s : Flat) : Flat := (p.tokens.foldl Line.step (Line.start p.bodies s)).flush.state

variable {a b c : List Token} {as bs : List Text} {s : Flat}

theorem exec_blank (ha : ∀ t ∈ a, t = .newline) (hc : ∀ t ∈ c, t = .newline) : exec ⟨a ++ b ++ c,bs⟩ s = exec ⟨b,bs⟩ s := by
  simp only [exec,List.foldl_append,Line.fold_blank ha,Line.fold_blank hc]
  split <;> split <;> rfl

theorem fold_line (h : as.length = hereCount a) : (a.foldl Line.step (Line.start (as ++ bs) s)).flush =
    Line.start bs (exec ⟨a,as⟩ s) := by
  have hfold := Line.fold_bodies (l := Line.start as s) bs h
  rw [show Line.start (as ++ bs) s = { Line.start as s with bodies := (Line.start as s).bodies ++ bs } from rfl,hfold]
  rfl

theorem exec_sequence (h : as.length = hereCount a) : exec ⟨a ++ .newline :: b,as ++ bs⟩ s = exec ⟨b,bs⟩ (exec ⟨a,as⟩ s) := by
  rw [exec,List.foldl_append,List.foldl_cons]
  exact congrArg (fun l => (b.foldl Line.step l).flush.state) (fold_line h)

theorem exec_andIf (h : as.length = hereCount a) (hs : (exec ⟨a,as⟩ s).status = 0) :
    exec ⟨a ++ symbol "&&" :: b,as ++ bs⟩ s = exec ⟨b,bs⟩ (exec ⟨a,as⟩ s) := by
  rw [exec,List.foldl_append,List.foldl_cons]
  refine congrArg (fun l => (b.foldl Line.step l).flush.state) ?_
  rw [show Line.step _ (symbol "&&") = (a.foldl Line.step (Line.start (as ++ bs) s)).flush.haltUnless from rfl,fold_line h]
  exact if_pos hs

theorem exec_group : exec ⟨grouped a,bs⟩ s = exec ⟨a,bs⟩ s := by
  rw [exec,grouped,List.cons_append,List.foldl_cons,List.foldl_append]
  have hclose : ∀ l : Line, (l.step (keyword "\x7d")).flush.state = l.flush.state := by
    intro l
    cases ht : l.target <;> simp [Line.step,Line.flush,keyword,ht]
  exact hclose _

end Flat

def flat : Semantics Flat where
  run p s := (Flat.exec p s,(Flat.exec p s).status)
  within _ p s := (Flat.exec p s,(Flat.exec p s).status)
  settle := id
  blank a b c bs s ha hc := by rw [Flat.exec_blank ha hc]
  blankWithin _ a b c bs s ha hc := by rw [Flat.exec_blank ha hc]
  complete _ _ _ _ := rfl
  sequence a b as bs s _ hn _ _ := by rw [Flat.exec_sequence hn]
  sequenceWithin _ a b as bs s _ hn _ _ := by rw [Flat.exec_sequence hn]
  andIf _ a b as bs s _ _ _ hn _ hs := by rw [Flat.exec_andIf hn hs]
  group _ body bs s _ := by rw [Flat.exec_group]

end Shell
