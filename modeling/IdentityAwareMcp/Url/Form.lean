import Mathlib.Data.Bool.AllAny
import IdentityAwareMcp.Utf8.Codec

namespace Url

abbrev Text := List Char

section Quoting

def hexValue (c : Char) : Option Nat :=
  if 48 ≤ c.toNat ∧ c.toNat ≤ 57 then some (c.toNat - 48)
  else if 65 ≤ c.toNat ∧ c.toNat ≤ 70 then some (c.toNat - 55)
  else if 97 ≤ c.toNat ∧ c.toNat ≤ 102 then some (c.toNat - 87)
  else none

def hexDigit (n : Nat) : Char := if n < 10 then Char.ofNat (48 + n) else Char.ofNat (55 + n)

def byteOf (c : Char) : UInt8 := .ofNat c.toNat

def charOf (b : UInt8) : Char := Char.ofNat b.toNat

def isAscii (c : Char) : Bool := decide (c.toNat < 128)

-- unquote_to_bytes: a percent sign that no two hex digits follow stands for itself.
def unquoteToBytes : Text → List UInt8
  | '%' :: x :: y :: t => match hexValue x, hexValue y with
    | some m, some n => .ofNat (16 * m + n) :: unquoteToBytes t
    | _, _ => byteOf '%' :: unquoteToBytes (x :: y :: t)
  | c :: t => byteOf c :: unquoteToBytes t
  | [] => []

-- unquote: every maximal run of ASCII is decoded for itself, what stands between the runs is kept.
def unquoteRuns (run : Text) : Text → Text
  | [] => Utf8.decode (unquoteToBytes run)
  | c :: t => if isAscii c then unquoteRuns (run ++ [c]) t else Utf8.decode (unquoteToBytes run) ++ c :: unquoteRuns [] t

def unquote (t : Text) : Text := unquoteRuns [] t

def unreserved : Text := "ABCDEFGHIJKLMNOPQRSTUVWXYZabcdefghijklmnopqrstuvwxyz0123456789_.-~".toList

def quoteByte (safe : Text) (b : UInt8) : Text :=
  if charOf b ∈ unreserved ++ safe then [charOf b] else ['%',hexDigit (b.toNat / 16),hexDigit (b.toNat % 16)]

def quote (safe t : Text) : Text := (Utf8.encode t).flatMap (quoteByte safe)

def quotePlus (t : Text) : Text := (quote [' '] t).map (fun c => if c = ' ' then '+' else c)

end Quoting

section Forms

abbrev Item := Text × Text

def field (p : Item) : Text := quotePlus p.1 ++ '=' :: quotePlus p.2

def urlencode (items : List Item) : Text := List.intercalate ['&'] (items.map field)

end Forms

section RoundTrip

variable {safe t : Text} {b : UInt8}

end RoundTrip

end Url
