import IdentityAwareMcp.Model.Cache
import IdentityAwareMcp.Model.Command

namespace IdentityAwareMcp

namespace SessionResolver

-- `transport_session_id or request_id`: the second one may still be None.
def conversationId (transportSessionId requestId : Option String) : Option String :=
  match transportSessionId with
  | none => requestId
  | some s => if s = "" then requestId else some s

def shortOid (oid : Guid) : String := String.ofList ((oid.text.toList.filter (· ≠ '-')).take 12)

def resolve (b : RedisBackend) (oid : Option Guid) (transportSessionId requestId : Option String) :
    M (Option String × Option String) := do
  let conversation := conversationId transportSessionId requestId
  match oid with
  | none => return (some (orElse transportSessionId "anon"),conversation)
  | some oid =>
    match ← UserSessionCache.get b oid.text with
    | some existing =>
      if existing = "" then mint oid conversation else return (some existing,conversation)
    | none => mint oid conversation
where
  mint (oid : Guid) (conversation : Option String) : M (Option String × Option String) := do
    let base := orElse transportSessionId (shortOid oid)
    let now ← perform .clock
    let sessionId := base ++ "_" ++ toString (α := Nat) now
    UserSessionCache.set b oid.text sessionId
    return (some sessionId,conversation)

end SessionResolver

end IdentityAwareMcp
