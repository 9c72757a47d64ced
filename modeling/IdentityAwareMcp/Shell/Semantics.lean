import IdentityAwareMcp.Shell.Ends
import IdentityAwareMcp.Shell.Group

namespace Shell

def Accepts (X : Expansions) (t : Text) (p : Script) : Prop := read X t = some p ∧ Derives .program p.tokens

def grouped (body : List Token) : List Token := keyword "\x7b" :: body ++ [keyword "\x7d"]

def hereCount (ts : List Token) : Nat := ts.countP (· ∈ hereOps)

-- What a shell does with a program, as far as sequences, AND lists and brace groups go. It reads and
-- runs one complete command after the other (run). All of a list inside a complete command is read in
-- the state given first, before any of it runs (within), so an alias that one line of it defines is
-- none yet on the next. A state may say that the list is being left, as after an error in an expansion
-- or an exit; settle is what remains of it once the complete command is over.
structure Semantics (σ : Type) where
  run : Script → σ → σ × Nat
  within : σ → Script → σ → σ × Nat
  settle : σ → σ
  blank : ∀ a b c bs s, (∀ t ∈ a, t = .newline) → (∀ t ∈ c, t = .newline) → run ⟨a ++ b ++ c,bs⟩ s = run ⟨b,bs⟩ s
  blankWithin : ∀ r a b c bs s, (∀ t ∈ a, t = .newline) → (∀ t ∈ c, t = .newline) →
    within r ⟨a ++ b ++ c,bs⟩ s = within r ⟨b,bs⟩ s
  complete : ∀ a bs s, Derives .completeCommand a → run ⟨a,bs⟩ s = (within s ⟨a,bs⟩ s).map settle id
  sequence : ∀ a b as bs s, Derives .completeCommand a → as.length = hereCount a → Derives .program b → Marked b →
    run ⟨a ++ .newline :: b,as ++ bs⟩ s = run ⟨b,bs⟩ (run ⟨a,as⟩ s).1
  sequenceWithin : ∀ r a b as bs s, Derives .completeCommand a → as.length = hereCount a → Derives .program b → Marked b →
    within r ⟨a ++ .newline :: b,as ++ bs⟩ s = within r ⟨b,bs⟩ (within r ⟨a,as⟩ s).1
  andIf : ∀ r a b as bs s f g, Derives (.andOr f) a → as.length = hereCount a → Derives (.pipeline g) b →
    (within r ⟨a,as⟩ s).2 = 0 → within r ⟨a ++ symbol "&&" :: b,as ++ bs⟩ s = within r ⟨b,bs⟩ (within r ⟨a,as⟩ s).1
  group : ∀ r body bs s, Derives .braceGroup (grouped body) → within r ⟨grouped body,bs⟩ s = within r ⟨body,bs⟩ s

section Reading

variable {σ : Type} {S : Semantics σ} {r s : σ} {p : Script}

-- Whether the shell reads all of the program before it runs any of it makes no difference.
def AtOnce (S : Semantics σ) (r : σ) (p : Script) (s : σ) : Prop := (S.within r p s).map S.settle id = S.run p s

-- Each complete command does, read in the first state, what it does when it is read at its turn;
-- all but the last leave nothing to settle either.
inductive Linewise (S : Semantics σ) (r : σ) : Script → σ → Prop
  | last {a as s} : Derives .completeCommand a → (S.within r ⟨a,as⟩ s).map S.settle id = S.run ⟨a,as⟩ s → Linewise S r ⟨a,as⟩ s
  | line {a b as bs s} : Derives .completeCommand a → as.length = hereCount a → Derives .program b → Marked b →
      S.within r ⟨a,as⟩ s = S.run ⟨a,as⟩ s → Linewise S r ⟨b,bs⟩ (S.run ⟨a,as⟩ s).1 →
      Linewise S r ⟨a ++ .newline :: b,as ++ bs⟩ s
  | blank {a b c bs s} : (∀ t ∈ a, t = .newline) → (∀ t ∈ c, t = .newline) → Linewise S r ⟨b,bs⟩ s →
      Linewise S r ⟨a ++ b ++ c,bs⟩ s

theorem Linewise.atOnce (h : Linewise S r p s) : AtOnce S r p s := by
  induction h with
  | last _ h => exact h
  | line ha hn hb hm heq _ ih =>
    unfold AtOnce
    rw [S.sequenceWithin r _ _ _ _ _ ha hn hb hm,S.sequence _ _ _ _ _ ha hn hb hm,heq]
    exact ih
  | blank ha hc _ ih =>
    unfold AtOnce
    rw [S.blankWithin r _ _ _ _ _ ha hc,S.blank _ _ _ _ _ ha hc]
    exact ih

end Reading

variable {a b : List Token}

theorem simple_pipeline (h : Derives .simpleCommand a) : Derives (.pipeline false) a := .plainPipe (.oneCommand (.simple h))

theorem brace_pipeline (h : Derives .braceGroup a) : Derives (.pipeline true) a :=
  .plainPipe (.oneCommand (.compound (.brace h)))

theorem pipeline_complete {f : Bool} (h : Derives (.andOr f) a) : Derives .completeCommand a := .bareComplete (.oneAndOr h)

theorem complete_program (h : Derives .completeCommand a) : Derives .program a := by
  have hp : Derives .program ([] ++ a ++ []) := .program .noLinebreak (.oneComplete h) .noLinebreak
  rwa [List.append_nil] at hp

theorem lines_program (ha : Derives .completeCommand a) (hb : Derives .completeCommand b) :
    Derives .program (a ++ .newline :: b) := by
  have hp : Derives .program ([] ++ (a ++ [.newline] ++ b) ++ []) :=
    .program .noLinebreak (.completeCommands (.oneComplete ha) .newline hb) .noLinebreak
  simpa using hp

theorem and_then {f g : Bool} (ha : Derives (.andOr f) a) (hb : Derives (.pipeline g) b) :
    Derives (.andOr g) (a ++ symbol "&&" :: b) := by
  have h := Derives.andIf ha .noLinebreak hb
  simpa using h

end Shell
