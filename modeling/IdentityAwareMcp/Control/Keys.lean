import IdentityAwareMcp.Control.Jobs

namespace IdentityAwareMcp

open SandboxManager

section Joined

variable {α : Type}

theorem split_first {s : α} {a a' x x' : List α} (ha : s ∉ a) (ha' : s ∉ a')
    (h : a ++ s :: x = a' ++ s :: x') : a = a' ∧ x = x' := by
  induction a generalizing a' with
  | nil =>
    cases a' with
    | nil =>
      injection h with _ hx
      exact ⟨rfl,hx⟩
    | cons b a' =>
      injection h with hb _
      exact absurd (hb ▸ List.mem_cons_self) ha'
  | cons c a ih =>
    cases a' with
    | nil =>
      injection h with hc _
      exact absurd (hc ▸ List.mem_cons_self) ha
    | cons b a' =>
      injection h with hb hr
      have ht := ih (fun hs => ha (List.mem_cons_of_mem _ hs)) (fun hs => ha' (List.mem_cons_of_mem _ hs)) hr
      exact ⟨by rw [hb,ht.1],ht.2⟩

theorem split_last {s : α} {a a' x x' : List α} (ha : s ∉ a) (ha' : s ∉ a')
    (h : x ++ s :: a = x' ++ s :: a') : a = a' ∧ x = x' := by
  have hr : a.reverse ++ s :: x.reverse = a'.reverse ++ s :: x'.reverse := by
    have := congrArg List.reverse h
    simpa using this
  have hs := split_first (by simpa using ha) (by simpa using ha') hr
  exact ⟨List.reverse_injective hs.1,List.reverse_injective hs.2⟩

end Joined

variable (cfg : Config)

theorem routingKey_parts {ctx ctx' : SessionCtx} (h : routingKey ctx = routingKey ctx') :
    ctx.userOid = ctx'.userOid ∧ fmt ctx.sessionId = fmt ctx'.sessionId ∧ ctx.group = ctx'.group := by
  have hl := congrArg String.toList h
  simp only [routingKey,String.toList_append,List.append_assoc] at hl
  have h1 := split_first (fmt_oid_no_colon ctx.userOid) (fmt_oid_no_colon ctx'.userOid) hl
  have h2 := split_last (group_name_no_colon ctx.group) (group_name_no_colon ctx'.group) h1.2
  have ho := fmt_oid_injective (String.toList_inj.mp h1.1)
  have hs := String.toList_inj.mp h2.2
  have hg := group_name_injective (String.toList_inj.mp h2.1)
  exact ⟨ho,hs,hg⟩

def routed (oid : Option Guid) (sessionId : Option String) (group : Group) : SessionCtx :=
  ⟨oid,sessionId,none,group,none⟩

theorem sessionKey_eq (oid : Option Guid) (sessionId : Option String) (group : Group) :
    sessionKey cfg (oidText oid) sessionId group.name = "mcp:session:" ++ routingKey (routed oid sessionId group) := by
  simp only [sessionKey,SessionSandboxCache.key,RedisBackend.k,Config.sessions,routingKey,routed,
    ← String.append_assoc]
  rfl

theorem ctxKey_eq (ctx : SessionCtx) : ctxKey cfg ctx = "mcp:session:" ++ routingKey ctx :=
  sessionKey_eq cfg ctx.userOid ctx.sessionId ctx.group

theorem append_injective (p : String) {s s' : String} (h : p ++ s = p ++ s') : s = s' := by
  have hl := congrArg String.toList h
  simp only [String.toList_append] at hl
  exact String.toList_inj.mp (List.append_cancel_left hl)

theorem ctxKey_injective {ctx ctx' : SessionCtx} (h : ctxKey cfg ctx = ctxKey cfg ctx') :
    routingKey ctx = routingKey ctx' := by
  rw [ctxKey_eq,ctxKey_eq] at h
  exact append_injective _ h

theorem sessionKey_parts {oid oid' : Option Guid} {s s' : Option String} {g g' : Group}
    (h : sessionKey cfg (oidText oid) s g.name = sessionKey cfg (oidText oid') s' g'.name) :
    oid = oid' ∧ fmt s = fmt s' ∧ g = g' := by
  rw [sessionKey_eq,sessionKey_eq] at h
  exact routingKey_parts (append_injective _ h)

theorem indexKey_injective {id id' : String} (h : indexKey cfg id = indexKey cfg id') : id = id' :=
  append_injective _ (append_injective _ (by simpa only [indexKey,RedisBackend.k,String.append_assoc] using h))

theorem flagKey_injective {id id' : String} (h : flagKey cfg id = flagKey cfg id') : id = id' := by
  have hk : SessionSandboxCache.bootstrappedKey id = SessionSandboxCache.bootstrappedKey id' :=
    append_injective _ (by simpa only [flagKey,RedisBackend.k] using h)
  exact append_injective _ hk

theorem userKey_injective {oid oid' : Guid} (h : userKey cfg oid = userKey cfg oid') : oid = oid' := by
  have hk : UserSessionCache.key oid.text = UserSessionCache.key oid'.text :=
    append_injective _ (by simpa only [userKey,RedisBackend.k] using h)
  have ht : oidText (some oid) = oidText (some oid') := congrArg some (append_injective _ hk)
  exact Option.some.inj (fmt_oid_injective (congrArg fmt ht))

-- The first letters of a key tell which store it belongs to.
def store (k : String) : List Char := k.toList.take 6

@[simp] theorem store_sessionKey (oid s : Option String) (g : String) :
    store (sessionKey cfg oid s g) = "mcp:se".toList := by
  simp [store,sessionKey,SessionSandboxCache.key,RedisBackend.k,Config.sessions]

@[simp] theorem store_ctxKey (ctx : SessionCtx) : store (ctxKey cfg ctx) = "mcp:se".toList :=
  store_sessionKey cfg _ _ _

@[simp] theorem store_indexKey (id : String) : store (indexKey cfg id) = "mcp:sb".toList := by
  simp [store,indexKey,RedisBackend.k,Config.indexBackend]

@[simp] theorem store_flagKey (id : String) : store (flagKey cfg id) = "mcp:bo".toList := by
  simp [store,flagKey,SessionSandboxCache.bootstrappedKey,RedisBackend.k,Config.sessions]

@[simp] theorem store_userKey (oid : Guid) : store (userKey cfg oid) = "mcp:us".toList := by
  simp [store,userKey,UserSessionCache.key,RedisBackend.k,Config.sessions]

@[simp] theorem store_profileKey (oid : String) :
    store (cfg.profiles.k (UserProfileCache.key oid)) = "mcp:pr".toList := by
  simp [store,UserProfileCache.key,RedisBackend.k,Config.profiles]

@[simp] theorem store_leaderKey : store leaderKey = "mcp:re".toList := rfl

theorem key_ne {k k' : String} (h : store k ≠ store k') : k ≠ k' := fun he => h (congrArg store he)

theorem lockKey_ne {ctx : SessionCtx} {k : String} (hk : k.toList.head? = some 'm') : lockKey ctx ≠ k := by
  rintro rfl
  simp [lockKey] at hk

theorem head_ctxKey (ctx : SessionCtx) : (ctxKey cfg ctx).toList.head? = some 'm' := by
  simp [ctxKey_eq]

theorem head_indexKey (id : String) : (indexKey cfg id).toList.head? = some 'm' := by
  simp [indexKey,RedisBackend.k,Config.indexBackend]

theorem head_flagKey (id : String) : (flagKey cfg id).toList.head? = some 'm' := by
  simp [flagKey,SessionSandboxCache.bootstrappedKey,RedisBackend.k,Config.sessions]

theorem lockKey_injective {ctx ctx' : SessionCtx} (h : lockKey ctx = lockKey ctx') :
    routingKey ctx = routingKey ctx' := append_injective _ h

-- The routing keys and the two kinds of set-up keys share the table of local locks.
theorem routingKey_ne {ctx : SessionCtx} {p x : String} (hp : ':' ∉ p.toList) (hl : p.toList.length ≠ 36)
    (hn : p ≠ "None") : routingKey ctx ≠ p ++ ":" ++ x := by
  intro h
  have ht := congrArg String.toList h
  simp only [routingKey,String.toList_append,List.append_assoc] at ht
  have hs := (split_first (fmt_oid_no_colon ctx.userOid) hp ht).1
  cases ho : ctx.userOid with
  | none =>
    rw [ho] at hs
    exact hn (String.toList_inj.mp hs).symm
  | some g =>
    rw [ho] at hs
    have hg : g.text.toList.length = 36 := g.length
    have he : g.text.toList = p.toList := hs
    rw [he] at hg
    exact hl hg

end IdentityAwareMcp
