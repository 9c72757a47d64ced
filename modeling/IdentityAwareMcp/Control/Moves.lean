import IdentityAwareMcp.Control.Effects

namespace IdentityAwareMcp

open Coop SandboxManager

variable {cfg : Config} {ctx : SessionCtx} {command : Option String} {st st' : Stage} {ph ph' : Phase}
variable {o : Op} {r : Except Exc o.Ans}

-- The sandbox a call has chosen, by a hit or by a creation.
@[simp] def Stage.client : Stage → Option Client
  | .refresh c => some c
  | .wake c => some c
  | .poll c => some c
  | .policy c => some c
  | .publish c => some c
  | .record c => some c
  | .flag c => some c
  | .boot c => some c
  | .mark c => some c
  | .done c => some c
  | .unlock res => res
  | .leave res => res
  | .left res => res
  | _ => none

inductive Picks (cfg : Config) (ctx : SessionCtx) : (o : Op) → Except Exc o.Ans → Client → Prop
  | hit (v : Option Value) (id : String) : v.bind Value.asText = some id →
      Picks cfg ctx ⟨.get (ctxKey cfg ctx),false⟩ (.ok v) ⟨cfg.groupNames ctx.group,id⟩
  | create (spec : Spec) (c : Client) : spec.environment.spAppId = cfg.spAppIds ctx.group →
      Picks cfg ctx ⟨.beginCreate (cfg.groupNames ctx.group) spec,true⟩ (.ok c) c

theorem leaving_client {res : Option Client} (h : Leaving res st) : st.client = res := by
  rcases h with rfl | rfl <;> rfl

theorem call_client (hm : CallMove cfg ctx command st o r st') {c : Client} (hc : st'.client = some c) :
    st.client = some c ∨ Picks cfg ctx o r c := by
  cases hm with
  | hit v id hv =>
    cases hc
    exact .inr (.hit v id hv)
  | began spec x hs =>
    cases hc
    exact .inr (.create spec c hs)
  | published x r st hr hst =>
    subst hst
    split at hc <;> exact .inl hc
  | _ =>
    first
      | exact .inl hc
      | cases hc
      | (rename_i hl; rw [leaving_client hl] at hc; first | exact .inl hc | cases hc)

theorem call_sets (hm : CallMove cfg ctx command st o r st') {k id : String} {ex : Option Nat}
    (ho : o.cmd = .set k (.text id) ex) :
    k = ctxKey cfg ctx ∧ ex = cfg.sessions.ttl ∧ ∃ c, c.sandboxId = id ∧ (st = .refresh c ∨ st = .publish c) := by
  cases hm with
  | refreshed c u => cases ho; exact ⟨rfl,rfl,c,rfl,.inl rfl⟩
  | refreshFailed c e he => cases ho; exact ⟨rfl,rfl,c,rfl,.inl rfl⟩
  | refreshCut c e st he hl => cases ho; exact ⟨rfl,rfl,c,rfl,.inl rfl⟩
  | published c r st hr hs => cases ho; exact ⟨rfl,rfl,c,rfl,.inr rfl⟩
  | publishCut c e st he hl => cases ho; exact ⟨rfl,rfl,c,rfl,.inr rfl⟩
  | prepared c r hp => cases ho; cases hp
  | prepFailed c r st hp hl => cases ho; cases hp
  | _ => cases ho

-- Only a call writes an id under a routing key, and it writes its own one.
theorem move_sets (hm : PhaseMove cfg ph o r ph') {x : SessionCtx} {id : String} {ex : Option Nat}
    (ho : o.cmd = .set (ctxKey cfg x) (.text id) ex) :
    ex = cfg.sessions.ttl ∧ ∃ ctx command st c, ph = .call ctx command st ∧ routingKey ctx = routingKey x ∧
      c.sandboxId = id ∧ (st = .refresh c ∨ st = .publish c) := by
  have huser : ∀ {oid : Guid}, userKey cfg oid ≠ ctxKey cfg x := by
    intro oid
    exact key_ne (by simp)
  cases hm with
  | call ctx command st st' o r hc =>
    obtain ⟨hk,hx,c,hid,hst⟩ := call_sets hc ho
    exact ⟨hx,ctx,command,st,c,rfl,(ctxKey_injective cfg hk).symm,hid,hst⟩
  | ending oid s st st' o r he => cases he <;> cases ho
  | reap st st' o r hr => cases hr <;> cases ho
  | slid v oid s u hv hs =>
    injection ho with hk
    exact absurd hk huser
  | slidEmpty v oid u hv =>
    injection ho with hk
    exact absurd hk huser
  | mintedKey v oid s u hv =>
    injection ho with hk
    exact absurd hk huser
  | known v oid x s hv hx => cases ho
  | unknown v oid x hv hx => cases ho
  | read v oid n hv => cases ho
  | resolveFailed v oid st e hv =>
    cases st with
    | look => cases ho
    | clock => cases ho
    | slide s =>
      injection ho with hk
      exact absurd hk huser
    | mint s =>
      injection ho with hk
      exact absurd hk huser

theorem move_call (hm : PhaseMove cfg ph o r ph') {ctx : SessionCtx} {command : Option String} {st : Stage}
    (hp : ph = .call ctx command st) : ∃ st', ph' = .call ctx command st' ∧ CallMove cfg ctx command st o r st' := by
  subst hp
  cases hm with
  | call _ _ _ st' _ _ hc => exact ⟨st',rfl,hc⟩

-- A call is entered at its start only.
theorem move_into (hm : PhaseMove cfg ph o r ph') {ctx : SessionCtx} {command : Option String} {st' : Stage}
    (hp : ph' = .call ctx command st') :
    (∃ st, ph = .call ctx command st ∧ CallMove cfg ctx command st o r st') ∨
      st' = .start ∧ ∃ v st, ph = .resolve v st := by
  cases hm with
  | call ctx command st st' o r hc =>
    cases hp
    exact .inl ⟨st,rfl,hc⟩
  | slid v oid s u hv hs =>
    cases hp
    exact .inr ⟨rfl,v,_,rfl⟩
  | mintedKey v oid s u hv =>
    cases hp
    exact .inr ⟨rfl,v,_,rfl⟩
  | _ => cases hp

theorem move_runs (hm : PhaseMove cfg ph o r ph') {c : Client} {cmd : String} (ho : o.cmd = .exec c cmd) :
    ∃ ctx command st, ph = .call ctx command st ∧ st.client = some c := by
  cases hm with
  | call ctx command st st' o r hc =>
    refine ⟨ctx,command,st,rfl,?_⟩
    cases hc with
    | prepared c r hp => cases ho; cases hp
    | prepFailed c r st hp hl => cases ho; cases hp
    | _ => cases ho <;> rfl
  | ending oid s st st' o r he => cases he <;> cases ho
  | reap st st' o r hr => cases hr <;> cases ho
  | resolveFailed v oid st e hv => cases st <;> cases ho
  | _ => cases ho

theorem move_claims (hm : PhaseMove cfg ph o r ph') {k : String} {v : Value} {ex : Nat}
    (ho : o.cmd = .setNx k v ex) : k = leaderKey ∧ ∃ n, v = .token n := by
  cases hm with
  | call ctx command st st' o r hc =>
    cases hc with
    | prepared c r hp => cases ho; cases hp
    | prepFailed c r st hp hl => cases ho; cases hp
    | _ => cases ho
  | ending oid s st st' o r he => cases he <;> cases ho
  | reap st st' o r hr =>
    cases hr with
    | claimed n r st hs => cases ho; exact ⟨rfl,n,rfl⟩
    | _ => cases ho
  | resolveFailed v oid st e hv => cases st <;> cases ho
  | _ => cases ho

theorem writes_text (hm : PhaseMove cfg ph o r ph') {x : SessionCtx} {t now : Nat} {e : Entry} {id : String}
    (hw : Writes t now o.cmd (ctxKey cfg x) e) (hv : e.val = .text id) :
    e.deadline = some (now + cfg.sessionTtl * 1000) ∧ ∃ ctx command st c, ph = .call ctx command st ∧
      routingKey ctx = routingKey x ∧ c.sandboxId = id ∧ (st = .refresh c ∨ st = .publish c) := by
  cases ho : o.cmd with
  | set k v ex =>
    rw [ho] at hw
    obtain ⟨rfl,rfl⟩ := hw
    cases hv
    obtain ⟨rfl,hc⟩ := move_sets hm ho
    exact ⟨rfl,hc⟩
  | setNx k v ex =>
    rw [ho] at hw
    obtain ⟨rfl,he⟩ := hw
    obtain ⟨_,n,rfl⟩ := move_claims hm ho
    rw [he] at hv
    cases hv
  | lockRedis k ttl =>
    rw [ho] at hw
    rw [hw.2] at hv
    cases hv
  | _ =>
    rw [ho] at hw
    cases hw

-- Whoever changes what a routing key holds.
theorem touches_ctx (hm : PhaseMove cfg ph o r ph') {x : SessionCtx} {t : Nat} {w : World}
    (ht : Touches t w o.cmd (ctxKey cfg x)) :
    (∃ ctx command st c, ph = .call ctx command st ∧ routingKey ctx = routingKey x ∧
      o.cmd = .set (ctxKey cfg x) (.text c.sandboxId) cfg.sessions.ttl ∧ (st = .refresh c ∨ st = .publish c)) ∨
    (∃ ctx command st, ph = .call ctx command st ∧ routingKey ctx = routingKey x ∧
      o.cmd = .del (ctxKey cfg x) ∧ (st = .unbind ∨ st = .rollback)) ∨
    ∃ oid sid st, ph = .ending oid sid st := by
  have hlock : ∀ {y : SessionCtx}, lockKey y ≠ ctxKey cfg x := lockKey_ne (head_ctxKey cfg x)
  cases hm with
  | call ctx command st st' o r hc =>
    have hset : ∀ {c : Client}, o.cmd = .set (ctxKey cfg ctx) (.text c.sandboxId) cfg.sessions.ttl →
        ctxKey cfg ctx = ctxKey cfg x → (st = .refresh c ∨ st = .publish c) →
        ∃ ctx' command' st₀ c, Phase.call ctx command st = .call ctx' command' st₀ ∧
          routingKey ctx' = routingKey x ∧ o.cmd = .set (ctxKey cfg x) (.text c.sandboxId) cfg.sessions.ttl ∧
          (st₀ = .refresh c ∨ st₀ = .publish c) := by
      intro c ho hk hst
      exact ⟨ctx,command,st,c,rfl,ctxKey_injective cfg hk,hk ▸ ho,hst⟩
    have hdel : o.cmd = .del (ctxKey cfg ctx) → ctxKey cfg ctx = ctxKey cfg x → (st = .unbind ∨ st = .rollback) →
        ∃ ctx' command' st₀, Phase.call ctx command st = .call ctx' command' st₀ ∧
          routingKey ctx' = routingKey x ∧ o.cmd = .del (ctxKey cfg x) ∧ (st₀ = .unbind ∨ st₀ = .rollback) := by
      intro ho hk hst
      exact ⟨ctx,command,st,rfl,ctxKey_injective cfg hk,hk ▸ ho,hst⟩
    cases hc with
    | prepared c r hp => cases c <;> first | exact ht.elim | exact hp.elim
    | prepFailed c r st hp hl => cases c <;> first | exact ht.elim | exact hp.elim
    | _ =>
      first
        | exact ht.elim
        | exact .inl (hset rfl ht (.inl rfl))
        | exact .inl (hset rfl ht (.inr rfl))
        | exact .inr (.inl (hdel rfl ht (.inl rfl)))
        | exact .inr (.inl (hdel rfl ht (.inr rfl)))
        | exact absurd ht (key_ne (by simp))
        | exact absurd ht.1 hlock
  | ending oid s st st' o r he => exact .inr (.inr ⟨oid,s,st,rfl⟩)
  | reap st st' o r hr =>
    cases hr with
    | _ =>
      first
        | exact ht.elim
        | exact absurd ht (key_ne (by simp))
        | exact absurd ht.1 (key_ne (by simp))
  | resolveFailed v oid st e hv =>
    cases st with
    | look => exact ht.elim
    | clock => exact ht.elim
    | slide s => exact absurd ht (key_ne (by simp))
    | mint s => exact absurd ht (key_ne (by simp))
  | _ =>
    first
      | exact ht.elim
      | exact absurd ht (key_ne (by simp))

theorem move_sets_token (hm : PhaseMove cfg ph o r ph') {k : String} {v : Value} {ex : Option Nat}
    (ho : o.cmd = .set k v ex) (n : Nat) : v ≠ .token n := by
  rintro rfl
  cases hm with
  | call ctx command st st' o r hc =>
    cases hc with
    | prepared c r hp => cases ho; cases hp
    | prepFailed c r st hp hl => cases ho; cases hp
    | _ => cases ho
  | ending oid s st st' o r he => cases he <;> cases ho
  | reap st st' o r hr => cases hr <;> cases ho
  | resolveFailed v oid st e hv => cases st <;> cases ho
  | _ => cases ho

theorem move_locks (hm : PhaseMove cfg ph o r ph') {k : String} {ttl : Nat} (ho : o.cmd = .lockRedis k ttl) :
    ∃ ctx command, ph = .call ctx command .wait := by
  cases hm with
  | call ctx command st st' o r hc =>
    cases hc with
    | locked got => exact ⟨ctx,command,rfl⟩
    | lockFailed e he => exact ⟨ctx,command,rfl⟩
    | lockCut e he => exact ⟨ctx,command,rfl⟩
    | prepared c r hp => cases ho; cases hp
    | prepFailed c r st hp hl => cases ho; cases hp
    | _ => cases ho
  | ending oid s st st' o r he => cases he <;> cases ho
  | reap st st' o r hr => cases hr <;> cases ho
  | resolveFailed v oid st e hv => cases st <;> cases ho
  | _ => cases ho

-- A call holds its Redis lock only if it already did, unless it has just asked for it.
theorem token_back {rep : Nat → Nat} {t i : Nat} {w w' : World} {h : Hint} {x : SessionCtx}
    (hm : PhaseMove cfg ph o r ph') (ha : act rep t o w r h = some w')
    (hl : w'.lookup (lockKey x) = some (.token i)) :
    w.lookup (lockKey x) = some (.token i) ∨ i = t ∧ ∃ ctx command, ph = .call ctx command .wait := by
  obtain ⟨e,he,hv,hlive⟩ := lookup_some hl
  rcases act_entry ha he with hold | hw
  · rw [act_now ha] at hlive
    exact .inl (by simp [World.lookup,hold,hlive,hv])
  · cases ho : o.cmd with
    | set k v ex =>
      rw [ho] at hw
      obtain ⟨rfl,rfl⟩ := hw
      exact absurd hv (move_sets_token hm ho i)
    | setNx k v ex =>
      rw [ho] at hw
      obtain ⟨rfl,_⟩ := move_claims hm ho
      exact absurd hw.1.symm (lockKey_ne rfl)
    | lockRedis k ttl =>
      rw [ho] at hw
      rw [hw.2] at hv
      cases hv
      exact .inr ⟨rfl,move_locks hm ho⟩
    | _ =>
      rw [ho] at hw
      cases hw

end IdentityAwareMcp
