import Mathlib.Data.Bool.AllAny
import Mathlib.Data.List.Basic

namespace IdentityAwareMcp

structure Guid where
  text : String
  length : text.length = 36
  hex : ∀ c ∈ text.toList, c ∈ "0123456789abcdefABCDEF-".toList
deriving DecidableEq

inductive Group where
  | diagnose
  | action
deriving DecidableEq, Repr

def Group.name : Group → String
  | .diagnose => "diagnose"
  | .action => "action"

def Group.all : List Group := [.diagnose,.action]

structure SessionCtx where
  userOid : Option Guid
  sessionId : Option String
  conversationId : Option String
  group : Group
  correlationId : Option String := none
deriving DecidableEq

abbrev Text := List Char

structure ExecResult where
  exitCode : Option Int
  stdout : Text
  stderr : Text
  truncated : Bool := false
deriving DecidableEq

-- What an f-string prints for a value that may be None.
def fmt : Option String → String
  | none => "None"
  | some s => s

def oidText (oid : Option Guid) : Option String := oid.map Guid.text

theorem guid_no_colon (g : Guid) : ':' ∉ g.text.toList := by
  intro h
  have := g.hex _ h
  revert this
  decide

theorem guid_ne_none (g : Guid) : g.text ≠ "None" := by
  intro h
  have hl := g.length
  rw [h] at hl
  revert hl
  decide

theorem fmt_oid_no_colon (oid : Option Guid) : ':' ∉ (fmt (oidText oid)).toList := by
  cases oid with
  | none => decide
  | some g => exact guid_no_colon g

theorem fmt_oid_injective {oid oid' : Option Guid} (h : fmt (oidText oid) = fmt (oidText oid')) :
    oid = oid' := by
  cases oid with
  | none =>
    cases oid' with
    | none => rfl
    | some g => exact absurd h.symm (guid_ne_none g)
  | some g =>
    cases oid' with
    | none => exact absurd h (guid_ne_none g)
    | some g' =>
      have ht : g.text = g'.text := h
      cases g
      cases g'
      simp only at ht
      subst ht
      rfl

theorem group_name_no_colon (g : Group) : ':' ∉ g.name.toList := by cases g <;> decide

theorem group_name_injective {g g' : Group} (h : g.name = g'.name) : g = g' := by
  cases g <;> cases g' <;> first | rfl | (revert h; decide)

end IdentityAwareMcp
