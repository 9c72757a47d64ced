import Mathlib.Data.List.Dedup
import IdentityAwareMcp.Model.World

namespace IdentityAwareMcp

structure AccessToken where
  token : String
  claims : Option (List (String × String))

def AccessToken.oid (tk : AccessToken) : Option String := tk.claims.bind (List.lookup "oid")

-- What `r.json().get("value", [])` makes of a body, or that it (or the set made of it) raises.
inductive Body where
  | malformed
  | groups (value : Option (List String))
deriving DecidableEq

structure Reply where
  status : Nat
  body : Body
deriving DecidableEq

def Reply.isSuccess (r : Reply) : Bool := decide (200 ≤ r.status) && decide (r.status < 300)

inductive GroupOp where
  | cacheGet (key : String)
  | cacheSet (key : String) (value : List String)
  | acquireTokenOnBehalfOf (userAssertion : String)
  | checkMemberGroups (bearer : String) (groupIds : List String)
deriving DecidableEq

abbrev GroupOp.Ans : GroupOp → Type
  | .cacheGet _ => Option (List String)
  | .cacheSet _ _ => Unit
  | .acquireTokenOnBehalfOf _ => Option String
  | .checkMemberGroups _ _ => Reply

abbrev G (α : Type) := Coop.Task GroupOp GroupOp.Ans Exc α

def request (o : GroupOp) : G o.Ans := Coop.Task.perform o

structure Cached where
  value : List String
  stored : Nat
deriving DecidableEq

def groupCacheTtl : Nat := 300

structure Memory where
  now : Nat
  cache : String → Option Cached

def Memory.get (m : Memory) (key : String) : Option (List String) :=
  match m.cache key with
  | some c => if m.now < c.stored + groupCacheTtl * 1000 then some c.value else none
  | none => none

def Memory.act (o : GroupOp) (m : Memory) (r : Except Exc o.Ans) : Option Memory :=
  match o, r with
  | .cacheGet key, .ok v => if v = m.get key then some m else none
  | .cacheGet _, .error _ => none
  | .cacheSet key value, .ok _ => some { m with cache := Coop.upd m.cache key (some ⟨value,m.now⟩) }
  | .cacheSet _ _, .error _ => none
  | .acquireTokenOnBehalfOf _, _ => some m
  | .checkMemberGroups _ _, _ => some m

-- The cache may drop an entry at any time to stay within its size.
inductive MemoryEnv where
  | tick (ms : Nat)
  | evict (key : String)

def Memory.env (e : MemoryEnv) (m : Memory) : Option Memory :=
  match e with
  | .tick ms => some { m with now := m.now + ms }
  | .evict key => some { m with cache := Coop.upd m.cache key none }

def authMachine : Coop.Machine GroupOp GroupOp.Ans Exc Nat Unit Memory MemoryEnv :=
  ⟨fun _ o m r _ => m.act o r,Memory.env⟩

namespace GroupCache

def key (oid : String) : String := "groups:" ++ oid

def get (oid : String) : G (Option (List String)) := request (.cacheGet (key oid))

def set (oid : String) (groups : List String) : G Unit := request (.cacheSet (key oid) groups)

end GroupCache

structure Directory where
  diagnoseGroupId : String
  actionGroupId : String

def Directory.knownGroups (d : Directory) : List String := [d.diagnoseGroupId,d.actionGroupId]

variable (d : Directory)

def resolveGroups (tk : AccessToken) : G (List String) := do
  match ← request (.acquireTokenOnBehalfOf tk.token) with
  | none => return []
  | some bearer =>
    let r ← request (.checkMemberGroups bearer d.knownGroups)
    if !r.isSuccess then .raise (.http (some r.status))
    else
      match r.body with
      | .malformed => .raise .other
      | .groups value =>
        let groups := (value.getD []).dedup
        match tk.oid with
        | some oid =>
          GroupCache.set oid groups
          return groups
        | none => return groups

def userGroups (tk : AccessToken) : G (List String) := do
  match tk.oid with
  | some oid =>
    match ← GroupCache.get oid with
    | some cached => return cached
    | none => resolveGroups d tk
  | none => resolveGroups d tk

def requireGroup (groupId : String) (token : Option AccessToken) : G Bool := do
  match token with
  | none => return false
  | some tk => return (← userGroups d tk).contains groupId

def requireDiagnose (token : Option AccessToken) : G Bool := requireGroup d d.diagnoseGroupId token

def requireAction (token : Option AccessToken) : G Bool := requireGroup d d.actionGroupId token

end IdentityAwareMcp
