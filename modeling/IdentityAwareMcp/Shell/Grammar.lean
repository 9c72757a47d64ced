import IdentityAwareMcp.Shell.Lexer

namespace Shell

-- The nonterminals of the command language. The flag tells whether a reserved word may follow
-- at once: after a simple command it would be one more argument.
inductive Nonterminal where
  | program
  | completeCommands
  | completeCommand
  | list
  | andOr (closed : Bool)
  | pipeline (closed : Bool)
  | pipeSequence (closed : Bool)
  | command (closed : Bool)
  | compoundCommand
  | subshell
  | compoundList (closed : Bool)
  | term (closed : Bool)
  | forClause
  | wordlist
  | caseClause
  | caseList
  | caseListNs
  | caseItem
  | caseItemNs
  | pattern
  | ifClause
  | elsePart
  | whileClause
  | untilClause
  | functionDefinition (closed : Bool)
  | functionBody (closed : Bool)
  | braceGroup
  | doGroup
  | simpleCommand
  | cmdPrefix
  | cmdSuffix
  | redirectList
  | ioRedirect
  | newlineList
  | linebreak
  | separatorOp
  | separator
  | sequentialSep

def keyword (s : String) : Token := .word s.toList

def symbol (s : String) : Token := .op s.toList

def reserved : List Text := ["!".toList,"\x7b".toList,"\x7d".toList,"case".toList,"do".toList,"done".toList,"elif".toList,
  "else".toList,"esac".toList,"fi".toList,"for".toList,"if".toList,"in".toList,"then".toList,"until".toList,"while".toList]

def isName (raw : Text) : Bool :=
  match raw with
  | [] => false
  | c :: t => (c.isAlpha || c = '_') && t.all (fun c => c.isAlphanum || c = '_')

def isAssignment (raw : Text) : Bool := raw.contains '=' && isName (raw.takeWhile (· ≠ '='))

def fileOps : List Token := [symbol "<",symbol "<&",symbol ">",symbol ">&",symbol ">>",symbol "<>",symbol ">|"]

def hereOps : List Token := [symbol "<<",symbol "<<-"]

-- One constructor for each production.
inductive Derives : Nonterminal → List Token → Prop
  | program {a b c} : Derives .linebreak a → Derives .completeCommands b → Derives .linebreak c →
      Derives .program (a ++ b ++ c)
  | emptyProgram {a} : Derives .linebreak a → Derives .program a
  | completeCommands {a b c} : Derives .completeCommands a → Derives .newlineList b → Derives .completeCommand c →
      Derives .completeCommands (a ++ b ++ c)
  | oneComplete {a} : Derives .completeCommand a → Derives .completeCommands a
  | completeCommand {a b} : Derives .list a → Derives .separatorOp b → Derives .completeCommand (a ++ b)
  | bareComplete {a} : Derives .list a → Derives .completeCommand a
  | list {a b c f} : Derives .list a → Derives .separatorOp b → Derives (.andOr f) c → Derives .list (a ++ b ++ c)
  | oneAndOr {a f} : Derives (.andOr f) a → Derives .list a
  | pipeline {a f} : Derives (.pipeline f) a → Derives (.andOr f) a
  | andIf {a b c f g} : Derives (.andOr g) a → Derives .linebreak b → Derives (.pipeline f) c →
      Derives (.andOr f) (a ++ symbol "&&" :: b ++ c)
  | orIf {a b c f g} : Derives (.andOr g) a → Derives .linebreak b → Derives (.pipeline f) c →
      Derives (.andOr f) (a ++ symbol "||" :: b ++ c)
  | plainPipe {a f} : Derives (.pipeSequence f) a → Derives (.pipeline f) a
  | bang {a f} : Derives (.pipeSequence f) a → Derives (.pipeline f) (keyword "!" :: a)
  | oneCommand {a f} : Derives (.command f) a → Derives (.pipeSequence f) a
  | pipe {a b c f g} : Derives (.pipeSequence g) a → Derives .linebreak b → Derives (.command f) c →
      Derives (.pipeSequence f) (a ++ symbol "|" :: b ++ c)
  | simple {a} : Derives .simpleCommand a → Derives (.command false) a
  | compound {a} : Derives .compoundCommand a → Derives (.command true) a
  | redirected {a b} : Derives .compoundCommand a → Derives .redirectList b → Derives (.command false) (a ++ b)
  | function {a f} : Derives (.functionDefinition f) a → Derives (.command f) a
  | brace {a} : Derives .braceGroup a → Derives .compoundCommand a
  | inSubshell {a} : Derives .subshell a → Derives .compoundCommand a
  | inFor {a} : Derives .forClause a → Derives .compoundCommand a
  | inCase {a} : Derives .caseClause a → Derives .compoundCommand a
  | inIf {a} : Derives .ifClause a → Derives .compoundCommand a
  | inWhile {a} : Derives .whileClause a → Derives .compoundCommand a
  | inUntil {a} : Derives .untilClause a → Derives .compoundCommand a
  | subshell {a f} : Derives (.compoundList f) a → Derives .subshell (symbol "(" :: a ++ [symbol ")"])
  | bareList {a b f} : Derives .linebreak a → Derives (.term f) b → Derives (.compoundList f) (a ++ b)
  | compoundList {a b c f} : Derives .linebreak a → Derives (.term f) b → Derives .separator c →
      Derives (.compoundList true) (a ++ b ++ c)
  | term {a b c f g} : Derives (.term g) a → Derives .separator b → Derives (.andOr f) c → Derives (.term f) (a ++ b ++ c)
  | oneTerm {a f} : Derives (.andOr f) a → Derives (.term f) a
  | forAll {n b} : isName n = true → Derives .doGroup b → Derives .forClause (keyword "for" :: .word n :: b)
  | forSep {n a b} : isName n = true → Derives .sequentialSep a → Derives .doGroup b →
      Derives .forClause (keyword "for" :: .word n :: a ++ b)
  | forNone {n a b c} : isName n = true → Derives .linebreak a → Derives .sequentialSep b → Derives .doGroup c →
      Derives .forClause (keyword "for" :: .word n :: a ++ keyword "in" :: b ++ c)
  | forIn {n a b c d} : isName n = true → Derives .linebreak a → Derives .wordlist b → Derives .sequentialSep c →
      Derives .doGroup d → Derives .forClause (keyword "for" :: .word n :: a ++ keyword "in" :: b ++ c ++ d)
  | wordlist {a w} : Derives .wordlist a → Derives .wordlist (a ++ [.word w])
  | oneWord {w} : Derives .wordlist [.word w]
  | caseClause {w a b c} : Derives .linebreak a → Derives .linebreak b → Derives .caseList c →
      Derives .caseClause (keyword "case" :: .word w :: a ++ keyword "in" :: b ++ c ++ [keyword "esac"])
  | caseClauseNs {w a b c} : Derives .linebreak a → Derives .linebreak b → Derives .caseListNs c →
      Derives .caseClause (keyword "case" :: .word w :: a ++ keyword "in" :: b ++ c ++ [keyword "esac"])
  | caseNone {w a b} : Derives .linebreak a → Derives .linebreak b →
      Derives .caseClause (keyword "case" :: .word w :: a ++ keyword "in" :: b ++ [keyword "esac"])
  | caseListNs {a b} : Derives .caseList a → Derives .caseItemNs b → Derives .caseListNs (a ++ b)
  | oneItemNs {a} : Derives .caseItemNs a → Derives .caseListNs a
  | caseList {a b} : Derives .caseList a → Derives .caseItem b → Derives .caseList (a ++ b)
  | oneItem {a} : Derives .caseItem a → Derives .caseList a
  | itemNsNone {p a} : Derives .pattern p → Derives .linebreak a → Derives .caseItemNs (p ++ symbol ")" :: a)
  | itemNs {p a} : Derives .pattern p → Derives (.compoundList true) a → Derives .caseItemNs (p ++ symbol ")" :: a)
  | parenNsNone {p a} : Derives .pattern p → Derives .linebreak a →
      Derives .caseItemNs (symbol "(" :: p ++ symbol ")" :: a)
  | parenNs {p a} : Derives .pattern p → Derives (.compoundList true) a →
      Derives .caseItemNs (symbol "(" :: p ++ symbol ")" :: a)
  | itemNone {p a b} : Derives .pattern p → Derives .linebreak a → Derives .linebreak b →
      Derives .caseItem (p ++ symbol ")" :: a ++ symbol ";;" :: b)
  | item {p a b f} : Derives .pattern p → Derives (.compoundList f) a → Derives .linebreak b →
      Derives .caseItem (p ++ symbol ")" :: a ++ symbol ";;" :: b)
  | parenNone {p a b} : Derives .pattern p → Derives .linebreak a → Derives .linebreak b →
      Derives .caseItem (symbol "(" :: p ++ symbol ")" :: a ++ symbol ";;" :: b)
  | paren {p a b f} : Derives .pattern p → Derives (.compoundList f) a → Derives .linebreak b →
      Derives .caseItem (symbol "(" :: p ++ symbol ")" :: a ++ symbol ";;" :: b)
  | pattern {w} : w ≠ "esac".toList → Derives .pattern [.word w]
  | patterns {p w} : Derives .pattern p → Derives .pattern (p ++ [symbol "|",.word w])
  | ifElse {a b c} : Derives (.compoundList true) a → Derives (.compoundList true) b → Derives .elsePart c →
      Derives .ifClause (keyword "if" :: a ++ keyword "then" :: b ++ c ++ [keyword "fi"])
  | ifClause {a b} : Derives (.compoundList true) a → Derives (.compoundList true) b →
      Derives .ifClause (keyword "if" :: a ++ keyword "then" :: b ++ [keyword "fi"])
  | elif {a b} : Derives (.compoundList true) a → Derives (.compoundList true) b →
      Derives .elsePart (keyword "elif" :: a ++ keyword "then" :: b)
  | elifElse {a b c} : Derives (.compoundList true) a → Derives (.compoundList true) b → Derives .elsePart c →
      Derives .elsePart (keyword "elif" :: a ++ keyword "then" :: b ++ c)
  | elsePart {a} : Derives (.compoundList true) a → Derives .elsePart (keyword "else" :: a)
  | whileClause {a b} : Derives (.compoundList true) a → Derives .doGroup b →
      Derives .whileClause (keyword "while" :: a ++ b)
  | untilClause {a b} : Derives (.compoundList true) a → Derives .doGroup b →
      Derives .untilClause (keyword "until" :: a ++ b)
  | functionDefinition {n a b f} : isName n = true → n ∉ reserved → Derives .linebreak a → Derives (.functionBody f) b →
      Derives (.functionDefinition f) (.word n :: symbol "(" :: symbol ")" :: a ++ b)
  | functionBody {a} : Derives .compoundCommand a → Derives (.functionBody true) a
  | redirectedBody {a b} : Derives .compoundCommand a → Derives .redirectList b → Derives (.functionBody false) (a ++ b)
  | braceGroup {a} : Derives (.compoundList true) a → Derives .braceGroup (keyword "\x7b" :: a ++ [keyword "\x7d"])
  | doGroup {a} : Derives (.compoundList true) a → Derives .doGroup (keyword "do" :: a ++ [keyword "done"])
  | prefixed {a w b} : Derives .cmdPrefix a → isAssignment w = false → Derives .cmdSuffix b →
      Derives .simpleCommand (a ++ .word w :: b)
  | prefixedName {a w} : Derives .cmdPrefix a → isAssignment w = false → Derives .simpleCommand (a ++ [.word w])
  | prefixOnly {a} : Derives .cmdPrefix a → Derives .simpleCommand a
  | called {w a} : w ∉ reserved → isAssignment w = false → Derives .cmdSuffix a → Derives .simpleCommand (.word w :: a)
  | name {w} : w ∉ reserved → isAssignment w = false → Derives .simpleCommand [.word w]
  | firstRedirect {a} : Derives .ioRedirect a → Derives .cmdPrefix a
  | prefixRedirect {a b} : Derives .cmdPrefix a → Derives .ioRedirect b → Derives .cmdPrefix (a ++ b)
  | assignment {w} : isAssignment w = true → Derives .cmdPrefix [.word w]
  | assignments {a w} : Derives .cmdPrefix a → isAssignment w = true → Derives .cmdPrefix (a ++ [.word w])
  | suffixRedirect {a} : Derives .ioRedirect a → Derives .cmdSuffix a
  | suffixRedirects {a b} : Derives .cmdSuffix a → Derives .ioRedirect b → Derives .cmdSuffix (a ++ b)
  | argument {w} : Derives .cmdSuffix [.word w]
  | arguments {a w} : Derives .cmdSuffix a → Derives .cmdSuffix (a ++ [.word w])
  | redirect {a} : Derives .ioRedirect a → Derives .redirectList a
  | redirects {a b} : Derives .redirectList a → Derives .ioRedirect b → Derives .redirectList (a ++ b)
  | ioFile {o w} : o ∈ fileOps → Derives .ioRedirect [o,.word w]
  | ioNumberFile {n o w} : o ∈ fileOps → Derives .ioRedirect [.io n,o,.word w]
  | ioHere {o w} : o ∈ hereOps → Derives .ioRedirect [o,.word w]
  | ioNumberHere {n o w} : o ∈ hereOps → Derives .ioRedirect [.io n,o,.word w]
  | newline : Derives .newlineList [.newline]
  | newlines {a} : Derives .newlineList a → Derives .newlineList (a ++ [.newline])
  | linebreak {a} : Derives .newlineList a → Derives .linebreak a
  | noLinebreak : Derives .linebreak []
  | background : Derives .separatorOp [symbol "&"]
  | semicolon : Derives .separatorOp [symbol ";"]
  | separator {a b} : Derives .separatorOp a → Derives .linebreak b → Derives .separator (a ++ b)
  | newlineSeparator {a} : Derives .newlineList a → Derives .separator a
  | sequentialSep {a} : Derives .linebreak a → Derives .sequentialSep (symbol ";" :: a)
  | newlineSep {a} : Derives .newlineList a → Derives .sequentialSep a

end Shell
