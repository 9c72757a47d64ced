import Mathlib.Data.List.Basic

namespace Shell

abbrev Text := List Char

inductive Token where
  | word (raw : Text)
  | io (digits : Text)
  | op (text : Text)
  | newline
deriving DecidableEq

-- How a shell finds the end of an expansion inside a word: it reads on from the opening
-- character until a character closes it.
structure Expansions where
  State : Type
  enter : Char → State
  step : State → Char → Option State
  dollarQuotes : Bool

structure Delim where
  text : Text
  quoted : Bool
  strip : Bool

inductive Spot where
  | between
  | operator (text : Text)
  | word (raw : Text) (dollar : Bool)

inductive Mode (S : Type) where
  | bare (spot : Spot)
  | slash (spot : Spot)
  | comment
  | single (raw : Text)
  | double (raw : Text) (dollar : Bool)
  | doubleSlash (raw : Text) (dollar : Bool)
  | nested (raw : Text) (quoted : Bool) (st : S)
  | here (d : Delim) (body line : Text) (slash : Bool)

structure Reading (S : Type) where
  tokens : List Token
  bodies : List Text
  expect : Option Bool
  pending : List Delim
  mode : Mode S

-- What is read of a program: its tokens and the bodies of its here-documents, in order.
structure Script where
  tokens : List Token
  bodies : List Text
deriving DecidableEq

def isBlank (c : Char) : Bool := c = ' ' || c = '\t'

def opens (c : Char) : Bool := "&|;<>()".toList.contains c

def delimits (c : Char) : Bool := c = '\n' || isBlank c || opens c

def operators : List Text := ["&&".toList,"||".toList,";;".toList,"<<".toList,">>".toList,"<&".toList,">&".toList,"<>".toList,
  "<<-".toList,">|".toList]

inductive Level where
  | plain
  | double
  | exact
deriving DecidableEq

-- The characters of a word without its quotes, each with the quoting it stood in.
def unquote : Level → Text → List (Char × Level)
  | _, [] => []
  | .plain, '\\' :: c :: t => (c,.exact) :: unquote .plain t
  | .plain, '\'' :: t => unquote .exact t
  | .plain, '"' :: t => unquote .double t
  | .plain, c :: t => (c,.plain) :: unquote .plain t
  | .double, '\\' :: c :: t =>
    if "$`\"\\".toList.contains c then (c,.exact) :: unquote .double t else ('\\',.double) :: unquote .double (c :: t)
  | .double, '"' :: t => unquote .plain t
  | .double, c :: t => (c,.double) :: unquote .double t
  | .exact, '\'' :: t => unquote .plain t
  | .exact, c :: t => (c,.exact) :: unquote .exact t

def value (raw : Text) : Text := (unquote .plain raw).map Prod.fst

def active : Level → Char → Bool
  | .plain, c => "$`*?[~".toList.contains c
  | .double, c => "$`".toList.contains c
  | .exact, _ => false

-- A word that stands for one text, with nothing in it for the shell to expand.
def Spells (raw text : Text) : Prop := value raw = text ∧ ∀ x ∈ unquote .plain raw, active x.2 x.1 = false

def delim (raw : Text) (strip : Bool) : Delim :=
  ⟨value raw,raw.any (fun c => "\\'\"".toList.contains c),strip⟩

def Delim.line (d : Delim) (line : Text) : Text := if d.strip then line.dropWhile (· = '\t') else line

namespace Reading

variable {S : Type}

def start : Reading S := ⟨[],[],none,[],.bare .between⟩

def emit (tok : Token) (r : Reading S) : Reading S :=
  { r with
    tokens := r.tokens ++ [tok]
    expect := if tok = .op "<<".toList then some false else if tok = .op "<<-".toList then some true else none
    pending := match tok, r.expect with
      | .word raw, some strip => r.pending ++ [delim raw strip]
      | _, _ => r.pending }

def goto (m : Mode S) (r : Reading S) : Reading S := { r with mode := m }

-- Here-documents begin after a newline; the newline itself counts once they are read.
def documents (r : Reading S) : Reading S :=
  match r.pending with
  | [] => (r.emit .newline).goto (.bare .between)
  | d :: ds => { r with pending := ds, mode := .here d [] [] false }

def flush (spot : Spot) (r : Reading S) : Reading S :=
  match spot with
  | .between => r
  | .operator t => r.emit (.op t)
  | .word raw _ => r.emit (.word raw)

variable (X : Expansions)

def inWord (raw : Text) (c : Char) (r : Reading X.State) : Reading X.State :=
  if c = '\'' then r.goto (.single (raw ++ [c]))
  else if c = '"' then r.goto (.double (raw ++ [c]) false)
  else if c = '`' then r.goto (.nested (raw ++ [c]) false (X.enter c))
  else r.goto (.bare (.word (raw ++ [c]) (c = '$')))

def begin (c : Char) (r : Reading X.State) : Reading X.State :=
  if c = '\n' then r.documents
  else if isBlank c then r.goto (.bare .between)
  else if c = '#' then r.goto .comment
  else if c = '\\' then r.goto (.slash .between)
  else if opens c then r.goto (.bare (.operator [c]))
  else r.inWord X [] c

def endWord (raw : Text) (c : Char) (r : Reading X.State) : Reading X.State :=
  if (c = '<' ∨ c = '>') ∧ raw.all Char.isDigit then r.emit (.io raw) else r.emit (.word raw)

def atSpot (spot : Spot) (c : Char) (r : Reading X.State) : Reading X.State :=
  match spot with
  | .between => r.begin X c
  | .operator t =>
    if t ++ [c] ∈ operators then r.goto (.bare (.operator (t ++ [c])))
    else if c = '\\' then r.goto (.slash (.operator t))
    else (r.emit (.op t)).begin X c
  | .word raw dollar =>
    if dollar ∧ (c = '(' ∨ c = '{' ∨ c = '\'' ∧ X.dollarQuotes) then r.goto (.nested (raw ++ [c]) false (X.enter c))
    else if c = '\\' then r.goto (.slash (.word raw dollar))
    else if delimits c then (r.endWord X raw c).begin X c
    else r.inWord X raw c

-- The word an unquoted backslash belongs to.
def slashed (spot : Spot) (tail : Text) (r : Reading S) : Reading S :=
  match spot with
  | .between => r.goto (.bare (.word ('\\' :: tail) false))
  | .operator t => (r.emit (.op t)).goto (.bare (.word ('\\' :: tail) false))
  | .word raw _ => r.goto (.bare (.word (raw ++ '\\' :: tail) false))

def inHere (d : Delim) (body line : Text) (slash : Bool) (c : Char) (r : Reading S) : Reading S :=
  if slash then
    if c = '\n' then r.goto (.here d body line false) else r.goto (.here d body (line ++ ['\\',c]) false)
  else if c = '\n' then
    if d.line line = d.text then { r with bodies := r.bodies ++ [body] }.documents
    else r.goto (.here d (body ++ d.line line ++ [c]) [] false)
  else if c = '\\' ∧ !d.quoted then r.goto (.here d body line true)
  else r.goto (.here d body (line ++ [c]) false)

def step (r : Reading X.State) (c : Char) : Reading X.State :=
  match r.mode with
  | .bare spot => r.atSpot X spot c
  | .slash spot => if c = '\n' then r.goto (.bare spot) else r.slashed spot [c]
  | .comment => if c = '\n' then r.documents else r
  | .single raw => if c = '\'' then r.goto (.bare (.word (raw ++ [c]) false)) else r.goto (.single (raw ++ [c]))
  | .double raw dollar =>
    if c = '"' then r.goto (.bare (.word (raw ++ [c]) false))
    else if c = '\\' then r.goto (.doubleSlash raw dollar)
    else if c = '`' ∨ dollar ∧ (c = '(' ∨ c = '{') then r.goto (.nested (raw ++ [c]) true (X.enter c))
    else r.goto (.double (raw ++ [c]) (c = '$'))
  | .doubleSlash raw dollar =>
    if c = '\n' then r.goto (.double raw dollar) else r.goto (.double (raw ++ ['\\',c]) false)
  | .nested raw quoted st =>
    match X.step st c with
    | some st' => r.goto (.nested (raw ++ [c]) quoted st')
    | none => if quoted then r.goto (.double (raw ++ [c]) false) else r.goto (.bare (.word (raw ++ [c]) false))
  | .here d body line slash => r.inHere d body line slash c

def run (r : Reading X.State) (t : Text) : Reading X.State := t.foldl (step X) r

-- At the end of input: an open quote or expansion has no end, a backslash stands for itself,
-- a here-document ends where the input does.
def close (r : Reading S) : Option (Reading S) :=
  match r.mode with
  | .bare spot => some (r.flush spot)
  | .slash spot => match spot with
    | .between => some (r.emit (.word ['\\']))
    | .operator t => some ((r.emit (.op t)).emit (.word ['\\']))
    | .word raw _ => some (r.emit (.word (raw ++ ['\\'])))
  | .comment => some r
  | .here d body line slash =>
    some { r with
      bodies := r.bodies ++ [if slash = false ∧ d.line line = d.text then body
        else body ++ d.line (if slash then line ++ ['\\'] else line)] }
  | _ => none

def script (r : Reading S) : Script := ⟨r.tokens,r.bodies ++ r.pending.map (fun _ => [])⟩

end Reading

def read (X : Expansions) (t : Text) : Option Script := (Reading.start.run X t).close.map Reading.script

end Shell
