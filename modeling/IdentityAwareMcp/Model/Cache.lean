import IdentityAwareMcp.Model.World

namespace IdentityAwareMcp

structure RedisBackend where
  ttl : Option Nat
  pfx : String := "mcp"

namespace RedisBackend

def k (b : RedisBackend) (key : String) : String := b.pfx ++ ":" ++ key

def get (b : RedisBackend) (key : String) : M (Option Value) := perform (.get (b.k key))

def set (b : RedisBackend) (key : String) (v : Value) : M Unit := perform (.set (b.k key) v b.ttl)

def delete (b : RedisBackend) (key : String) : M Unit := perform (.del (b.k key))

end RedisBackend

-- A view reads only what it wrote: another kind of value under its key counts as absent.
def Value.asText : Value → Option String
  | .text s => some s
  | _ => none

namespace SessionSandboxCache

def key (oid sessionId : Option String) (group : String) : String :=
  "session:" ++ fmt oid ++ ":" ++ fmt sessionId ++ ":" ++ group

def peek (b : RedisBackend) (oid sessionId : Option String) (group : String) : M (Option String) := do
  let v ← b.get (key oid sessionId group)
  return v.bind Value.asText

def set (b : RedisBackend) (oid sessionId : Option String) (group sandboxId : String) : M Unit :=
  b.set (key oid sessionId group) (.text sandboxId)

def get (b : RedisBackend) (oid sessionId : Option String) (group : String) : M (Option String) := do
  let v ← b.get (key oid sessionId group)
  match v.bind Value.asText with
  | some sandboxId =>
    set b oid sessionId group sandboxId
    return some sandboxId
  | none => return none

def delete (b : RedisBackend) (oid sessionId : Option String) (group : String) : M Unit :=
  b.delete (key oid sessionId group)

def bootstrappedKey (sandboxId : String) : String := "bootstrapped:" ++ sandboxId

def isBootstrapped (b : RedisBackend) (sandboxId : String) : M Bool := do
  let v ← b.get (bootstrappedKey sandboxId)
  return v == some (.flag true)

def markBootstrapped (b : RedisBackend) (sandboxId : String) : M Unit :=
  b.set (bootstrappedKey sandboxId) (.flag true)

end SessionSandboxCache

namespace UserProfileCache

def key (oid : String) : String := "profile:" ++ oid

def get (b : RedisBackend) (oid : String) : M (Option Value) := b.get (key oid)

end UserProfileCache

namespace UserSessionCache

def key (oid : String) : String := "usersession:" ++ oid

def get (b : RedisBackend) (oid : String) : M (Option String) := do
  let v ← b.get (key oid)
  match v.bind Value.asText with
  | some sessionId =>
    b.set (key oid) (.text sessionId)
    return some sessionId
  | none => return none

def set (b : RedisBackend) (oid sessionId : String) : M Unit := b.set (key oid) (.text sessionId)

end UserSessionCache

end IdentityAwareMcp
