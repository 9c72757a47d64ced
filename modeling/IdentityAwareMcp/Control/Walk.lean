import IdentityAwareMcp.Model.SandboxManager

namespace IdentityAwareMcp

open Coop SandboxManager

-- The commands of a call on its own lock, session and sandbox.
def Cmd.everyday : Cmd → Prop
  | .lockRedis _ _ => True
  | .unlockRedis _ => True
  | .get _ => True
  | .set _ _ _ => True
  | .del _ => True
  | .ensureRunning _ => True
  | .exec _ _ => True
  | _ => False

section Walk

variable {P : ∀ {α : Type}, M α → Prop} (hP : Task.Compositional P) {α : Type} {cfg : Config}
include hP

theorem walk_except {p : M α} {h : Exc → M α} (hp : P p) (hh : ∀ e, P (h e)) : P (exceptException p h) := by
  refine hP.handle hp (fun e => ?_)
  split
  · exact hh e
  · exact hP.raise e

theorem walk_redisSafe {p : M α} (hp : P p) (a : α) : P (redisSafe p a) := walk_except hP hp (fun _ => hP.ret a)

theorem walk_withLock {key : String} {p : M α} (ha : P (perform (.acquire key))) (hr : P (perform (.release key)))
    (hp : P p) : P (withLock key p) :=
  hP.bind ha (fun _ => hP.ensuring hp hr)

variable (hc : ∀ c : Cmd, c.everyday → P (perform c))
include hc

theorem walk_withDlock {key : String} {p : M α} (hp : P p) : P (withDlock cfg key p) := by
  unfold withDlock
  split
  · exact hp
  · refine hP.bind (walk_except hP (hc _ trivial) (fun _ => hP.ret false)) (fun got => hP.ensuring hp ?_)
    split
    · exact walk_except hP (hc _ trivial) (fun _ => hP.ret ())
    · exact hP.ret ()

theorem walk_reuse (ctx : SessionCtx) : P (reuse cfg ctx) := by
  refine hP.bind (walk_redisSafe hP ?_ none) (fun sandboxId => ?_)
  · refine hP.bind (hc (.get _) trivial) (fun v => ?_)
    split
    · exact hP.bind (hc (.set _ _ _) trivial) (fun _ => hP.ret _)
    · exact hP.ret none
  · cases sandboxId with
    | none => exact hP.ret none
    | some id =>
      refine hP.handle (hP.bind (hc (.ensureRunning _) trivial) (fun _ => hP.ret _)) (fun e => ?_)
      split
      · exact hP.bind (walk_redisSafe hP (hc (.del _) trivial) ()) (fun _ => hP.ret none)
      · exact hP.raise e

theorem walk_bootstrap (c : Client) : P (bootstrap c) := by
  refine hP.bind (hc (.exec _ _) trivial) (fun result => ?_)
  split
  · split <;> exact hP.raise _
  · split
    · exact hP.ret ()
    · exact hP.raise _

theorem walk_setUp (ctx : SessionCtx) (c : Client) : P (setUp cfg ctx c) := by
  have hflag : P (do
      let already ← redisSafe (SessionSandboxCache.isBootstrapped cfg.sessions c.sandboxId) false
      if already then return c
      else
        bootstrap c
        redisSafe (SessionSandboxCache.markBootstrapped cfg.sessions c.sandboxId) ()
        return c : M Client) := by
    refine hP.bind (walk_redisSafe hP (hP.bind (hc (.get _) trivial) (fun _ => hP.ret _)) false) (fun already => ?_)
    split
    · exact hP.ret c
    · exact hP.bind (walk_bootstrap hP hc c) (fun _ =>
        hP.bind (walk_redisSafe hP (hc (.set _ _ _) trivial) ()) (fun _ => hP.ret c))
  refine hP.bind (walk_redisSafe hP (hc (.set _ _ _) trivial) ()) (fun _ => ?_)
  split
  · exact hP.bind (walk_redisSafe hP (hc (.set _ _ _) trivial) ()) (fun _ => hflag)
  · exact hflag

-- A call is put together from its commands and from the creation of a sandbox.
theorem walk_getOrCreate (ctx : SessionCtx) (ha : P (perform (.acquire (routingKey ctx))))
    (hr : P (perform (.release (routingKey ctx)))) (hnew : P (waitFor (createSandbox cfg ctx ctx.group))) :
    P (getOrCreate cfg ctx) := by
  refine walk_withLock hP ha hr (walk_withDlock hP hc (hP.bind (walk_reuse hP hc ctx) (fun found => ?_)))
  cases found with
  | some c => exact hP.ret c
  | none =>
    exact hP.bind hnew (fun c => walk_except hP (walk_setUp hP hc ctx c)
      (fun e => hP.bind (walk_redisSafe hP (hc (.del _) trivial) ()) (fun _ => hP.raise e)))

end Walk

end IdentityAwareMcp
