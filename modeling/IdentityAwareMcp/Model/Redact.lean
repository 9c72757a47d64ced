import IdentityAwareMcp.Model.Identity
import IdentityAwareMcp.Rx.Scan

namespace IdentityAwareMcp

namespace Redact

open Rx

-- str.isspace, as `\s` tests it.
def spaces : List Char :=
  ([0x9,0xA,0xB,0xC,0xD,0x1C,0x1D,0x1E,0x1F,0x20,0x85,0xA0,0x1680,0x2000,0x2001,0x2002,0x2003,0x2004,0x2005,0x2006,
    0x2007,0x2008,0x2009,0x200A,0x2028,0x2029,0x202F,0x205F,0x3000] : List Nat).map Char.ofNat

def isSpace (c : Char) : Bool := spaces.contains c

-- str.isalnum, known on ASCII and on white space.
structure Unicode where
  isAlnum : Char → Bool
  ascii : ∀ c : Char, c.toNat < 128 → isAlnum c = c.isAlphanum
  space : ∀ c ∈ spaces, isAlnum c = false

def Unicode.basic : Unicode where
  isAlnum := Char.isAlphanum
  ascii := fun _ _ => rfl
  space := List.all_iff_forall_prop.mp (by decide +kernel)

def word (u : Unicode) (c : Char) : Bool := u.isAlnum c || c == '_'

-- What (?i) compares: the lower case, with the other letters it identifies with i, k and s.
def foldCase (c : Char) : Char :=
  if c.isUpper then c.toLower
  else if c.toNat = 0x130 || c.toNat = 0x131 then 'i'
  else if c.toNat = 0x17F then 's'
  else if c.toNat = 0x212A then 'k'
  else c

def ignoreCase (p : Char → Bool) (c : Char) : Bool := p (foldCase c)

-- [A-Za-z0-9] and the letters of extra.
def cls (extra : String) (c : Char) : Bool := c.isAlphanum || extra.toList.contains c

def cat : List (Pattern Char) → Pattern Char
  | [] => .eps
  | r :: rs => .seq r (cat rs)

def alts (r : Pattern Char) : List (Pattern Char) → Pattern Char
  | [] => r
  | t :: ts => .alt r (alts t ts)

def lit (s : String) : Pattern Char := cat (s.toList.map (fun c => .one (· == c)))

def litI (s : String) : Pattern Char := cat (s.toList.map (fun c => .one (fun x => foldCase x == foldCase c)))

def atLeast (n : Nat) (p : Char → Bool) : Pattern Char := .rep p n none true

def exactly (n : Nat) (p : Char → Bool) : Pattern Char := .rep p n (some n) true

theorem ones_length {f : Char → Char → Bool} {cs l : List Char} (h : (cat (cs.map (fun c => .one (f c)))).Spells l) :
    l.length = cs.length := by
  induction cs generalizing l with
  | nil =>
    cases (show l = [] from h)
    rfl
  | cons c cs ih =>
    obtain ⟨_,b,rfl,⟨d,-,rfl⟩,hb⟩ := h
    rw [List.singleton_append,List.length_cons,List.length_cons,ih hb]

theorem lit_spells {s : String} {l : List Char} (h : (lit s).Spells l) : l = s.toList := by
  rw [lit] at h
  generalize s.toList = cs at h ⊢
  induction cs generalizing l with
  | nil => exact h
  | cons c cs ih =>
    obtain ⟨_,b,rfl,⟨d,hd,rfl⟩,hb⟩ := h
    have hdc : d = c := by simpa using hd
    rw [List.singleton_append,hdc,ih hb]

theorem ones_neutral {f : Char → Char → Bool} {cs : List Char} (w : Char) :
    (cat (cs.map (fun c => .one (f c)))).neutral w = true := by
  induction cs with
  | nil => rfl
  | cons c cs ih => exact ih

@[simp] theorem lit_neutral (s : String) (w : Char) : (lit s).neutral w = true := ones_neutral w

@[simp] theorem litI_neutral (s : String) (w : Char) : (litI s).neutral w = true := ones_neutral w

section Rules

variable (u : Unicode)

def edge : Pattern Char := .edge (word u)

def bearer : Rule Char where
  label := .seq (litI "bearer") (atLeast 1 isSpace)
  body := atLeast 10 (ignoreCase (cls "._~+/=-"))
  wide := Nat.le_of_ble_eq_true rfl

def sasSig : Rule Char where
  label := .seq (.seq (edge u) (litI "sig")) (litI "=")
  body := atLeast 10 (ignoreCase (cls "%_/+-"))
  wide := Nat.le_of_ble_eq_true rfl

def connSecret : Rule Char where
  label := .seq (.seq (edge u) (alts (litI "AccountKey") [litI "SharedAccessKey",litI "Password",litI "pwd"])) (litI "=")
  body := atLeast 1 (fun c => !(c == ';' || isSpace c || c == '"' || c == '\''))
  wide := Nat.le_of_ble_eq_true rfl

def funcUrlCode : Rule Char where
  label := .seq (.seq (.one (ignoreCase "?&".toList.contains)) (litI "code")) (litI "=")
  body := atLeast 20 (ignoreCase (cls "._~%+/-"))
  wide := Nat.le_of_ble_eq_true rfl

def jwt : Rule Char where
  label := .eps
  body := cat [lit "eyJ",atLeast 5 (cls "_-"),lit ".",atLeast 5 (cls "_-"),lit ".",atLeast 5 (cls "_-")]
  wide := Nat.le_of_ble_eq_true rfl

def pemPrivate : Rule Char where
  label := .eps
  body := cat [lit "-----BEGIN ",atLeast 0 (· != '-'),lit "PRIVATE KEY-----",.rep (fun _ => true) 0 none false,
    lit "-----END ",atLeast 0 (· != '-'),lit "PRIVATE KEY-----"]
  wide := Nat.le_of_ble_eq_true rfl

def storageKey : Rule Char where
  label := .eps
  body := cat [.notBehind (cls "+/"),exactly 86 (cls "+/"),lit "=="]
  wide := Nat.le_of_ble_eq_true rfl

def azureFuncKey : Rule Char where
  label := .eps
  body := cat [.notBehind (cls "_/+-"),atLeast 40 (cls "_-"),lit "==",.notAhead (cls "=")]
  wide := Nat.le_of_ble_eq_true rfl

def azureAdSecret : Rule Char where
  label := .eps
  body := cat [edge u,exactly 3 (cls "~._-"),.one (cls ""),lit "Q~",.rep (cls "~._-") 31 (some 34) true,edge u]
  wide := Nat.le_of_ble_eq_true rfl

def awsAccessKeyId : Rule Char where
  label := .eps
  body := cat [edge u,alts (lit "AKIA") [lit "ASIA",lit "AGPA",lit "AIDA",lit "AROA",lit "AIPA",lit "ANPA",lit "ANVA"],
    exactly 16 (fun c => c.isUpper || c.isDigit),edge u]
  wide := Nat.le_of_ble_eq_true rfl

def gcpApiKey : Rule Char where
  label := .eps
  body := cat [edge u,lit "AIza",exactly 35 (cls "_-"),edge u]
  wide := Nat.le_of_ble_eq_true rfl

def githubToken : Rule Char where
  label := .eps
  body := cat [edge u,lit "gh",.one "posur".toList.contains,lit "_",atLeast 36 (cls ""),edge u]
  wide := Nat.le_of_ble_eq_true rfl

def slackToken : Rule Char where
  label := .eps
  body := cat [edge u,lit "xox",.one "baprs".toList.contains,lit "-",atLeast 10 (cls "-"),edge u]
  wide := Nat.le_of_ble_eq_true rfl

def openaiKey : Rule Char where
  label := .eps
  body := cat [edge u,lit "sk-",atLeast 20 (cls ""),edge u]
  wide := Nat.le_of_ble_eq_true rfl

-- _KNOWN: a rule of group 0 has an empty label.
def known : List (Rule Char) :=
  [bearer,sasSig u,connSecret u,funcUrlCode,jwt,pemPrivate,storageKey,azureFuncKey,azureAdSecret u,awsAccessKeyId u,
    gcpApiKey u,githubToken u,slackToken u,openaiKey u]

def MASK : Text := "«redacted»".toList

-- The text and the number of replacements.
def redactText (text : Text) : Text × Nat :=
  (known u).foldl (fun x ru => (ru.sub id MASK x.1,x.2 + (ru.spans x.1).length)) (text,0)

def redactOne (text : Text) : Text × Nat := if text = [] then (text,0) else redactText u text

def redactResult (result : ExecResult) : ExecResult :=
  let out := redactOne u result.stdout
  let err := redactOne u result.stderr
  if out.2 + err.2 ≠ 0 then { result with stdout := out.1, stderr := err.1 } else result

end Rules

end Redact

end IdentityAwareMcp
