import IdentityAwareMcp.Control.Keys
import IdentityAwareMcp.Model.Membership

namespace IdentityAwareMcp

open SandboxManager

variable (cfg : Config)

-- What the views and the two raw keys keep in the one Redis instance.
inductive StoredEntry where
  | routing (oid : Option Guid) (sessionId : String) (group : Group)
  | bootstrapped (sandboxId : String)
  | profile (oid : Option Guid)
  | userSession (oid : Option Guid)
  | membership (oid : Option Guid)
  | reverseIndex (sandboxId : String)
  | routingLock (oid : Option Guid) (sessionId : String) (group : Group)
  | reaperLease
deriving DecidableEq

namespace StoredEntry

def redisKey : StoredEntry → String
  | .routing oid s g => cfg.sessions.k (SessionSandboxCache.key (oidText oid) (some s) g.name)
  | .bootstrapped id => cfg.sessions.k (SessionSandboxCache.bootstrappedKey id)
  | .profile oid => cfg.profiles.k (UserProfileCache.key (fmt (oidText oid)))
  | .userSession oid => cfg.sessions.k (UserSessionCache.key (fmt (oidText oid)))
  -- in memory as deployed; on Redis it takes the default prefix like the other views
  | .membership oid => RedisBackend.k ⟨some groupCacheTtl,"mcp"⟩ (GroupCache.key (fmt (oidText oid)))
  | .reverseIndex id => cfg.indexBackend.k id
  | .routingLock oid s g => "lock:" ++ routingKey (routed oid (some s) g)
  | .reaperLease => leaderKey

def view : StoredEntry → String
  | .routing _ _ _ => "session"
  | .bootstrapped _ => "bootstrapped"
  | .profile _ => "profile"
  | .userSession _ => "usersession"
  | .membership _ => "groups"
  | .reverseIndex _ => "sbxidx"
  | .routingLock _ _ _ => ""
  | .reaperLease => "reaper"

-- What follows the first four letters, up to the next colon.
def viewOf (k : String) : List Char := (k.toList.drop 4).takeWhile (fun c => c ≠ ':')

theorem viewOf_redisKey (e : StoredEntry) : viewOf (e.redisKey cfg) = e.view.toList := by
  cases e with
  | routing oid s g => simp [viewOf,redisKey,view,RedisBackend.k,Config.sessions,SessionSandboxCache.key]
  | bootstrapped id => simp [viewOf,redisKey,view,RedisBackend.k,Config.sessions,SessionSandboxCache.bootstrappedKey]
  | profile oid => simp [viewOf,redisKey,view,RedisBackend.k,Config.profiles,UserProfileCache.key]
  | userSession oid => simp [viewOf,redisKey,view,RedisBackend.k,Config.sessions,UserSessionCache.key]
  | membership oid => simp [viewOf,redisKey,view,RedisBackend.k,GroupCache.key]
  | reverseIndex id => simp [viewOf,redisKey,view,RedisBackend.k,Config.indexBackend]
  | routingLock oid s g => simp [viewOf,redisKey,view]
  | reaperLease => simp [viewOf,redisKey,view,leaderKey]

theorem view_unique {e e' : StoredEntry} (h : e.redisKey cfg = e'.redisKey cfg) : e.view = e'.view := by
  have hv := congrArg viewOf h
  rw [viewOf_redisKey,viewOf_redisKey] at hv
  exact String.toList_inj.mp hv

theorem routed_unique {oid oid' : Option Guid} {s s' : String} {g g' : Group}
    (h : routingKey (routed oid (some s) g) = routingKey (routed oid' (some s') g')) : oid = oid' ∧ s = s' ∧ g = g' :=
  routingKey_parts h

end StoredEntry

-- Different entries, of one kind or of two, never share a key, whatever a session id is made of.
theorem redis_keys_injective : Function.Injective (StoredEntry.redisKey cfg) := by
  intro e e' h
  have hv := StoredEntry.view_unique cfg h
  cases e with
  | routing oid s g =>
    cases e' with
    | routing oid' s' g' =>
      obtain ⟨rfl,rfl,rfl⟩ := StoredEntry.routed_unique (ctxKey_injective cfg h)
      rfl
    | _ => simp [StoredEntry.view] at hv
  | bootstrapped id =>
    cases e' with
    | bootstrapped id' => rw [flagKey_injective cfg h]
    | _ => simp [StoredEntry.view] at hv
  | profile oid =>
    cases e' with
    | profile oid' => rw [fmt_oid_injective (append_injective _ (append_injective _ h))]
    | _ => simp [StoredEntry.view] at hv
  | userSession oid =>
    cases e' with
    | userSession oid' => rw [fmt_oid_injective (append_injective _ (append_injective _ h))]
    | _ => simp [StoredEntry.view] at hv
  | membership oid =>
    cases e' with
    | membership oid' => rw [fmt_oid_injective (append_injective _ (append_injective _ h))]
    | _ => simp [StoredEntry.view] at hv
  | reverseIndex id =>
    cases e' with
    | reverseIndex id' => rw [indexKey_injective cfg h]
    | _ => simp [StoredEntry.view] at hv
  | routingLock oid s g =>
    cases e' with
    | routingLock oid' s' g' =>
      obtain ⟨rfl,rfl,rfl⟩ := StoredEntry.routed_unique (append_injective _ h)
      rfl
    | _ => simp [StoredEntry.view] at hv
  | reaperLease =>
    cases e' with
    | reaperLease => rfl
    | _ => simp [StoredEntry.view] at hv

end IdentityAwareMcp
