import IdentityAwareMcp.Safety.Isolation

namespace IdentityAwareMcp

open Coop SandboxManager

section Mutex

variable {cfg : Config} {rep : Nat → Nat} {t : Nat} {o : Op} {r : Except Exc o.Ans} {h : Hint} {w w' : World}
variable {ph : Nat → Phase} {p p' : Phase} {ctx : SessionCtx} {command : Option String} {st st' : Stage}

-- From the local lock to its release.
@[simp] def Stage.inside : Stage → Bool
  | .start => false
  | .left _ => false
  | .done _ => false
  | _ => true

theorem leaving_inside {res : Option Client} (hl : Leaving res st) : st.inside = true := by
  rcases hl with rfl | rfl <;> rfl

def SetUpKey (k : String) : Prop := ∃ x, k = "diskimage:" ++ x ∨ k = "volume:" ++ x

theorem setUpKey_ne {k : String} (hk : SetUpKey k) (ctx : SessionCtx) : routingKey ctx ≠ k := by
  obtain ⟨x,rfl | rfl⟩ := hk
  · exact routingKey_ne (p := "diskimage") (by decide) (by decide) (by decide)
  · exact routingKey_ne (p := "volume") (by decide) (by decide) (by decide)

theorem call_releases (hm : CallMove cfg ctx command st o r st') {k : String} (ho : o.cmd = .release k) :
    k = routingKey ctx ∧ st.inside = true ∧ st'.inside = false ∨ SetUpKey k := by
  cases hm with
  | prepared c r hp => cases ho; exact .inr ⟨_,hp⟩
  | prepFailed c r st hp hl => cases ho; exact .inr ⟨_,hp⟩
  | released res u => cases ho; exact .inl ⟨rfl,rfl,rfl⟩
  | releaseFailed res e => cases ho; exact .inl ⟨rfl,rfl,rfl⟩
  | _ => cases ho

theorem move_releases (hm : PhaseMove cfg p o r p') {k : String} (ho : o.cmd = .release k) :
    (∃ ctx command st st', p = .call ctx command st ∧ p' = .call ctx command st' ∧ k = routingKey ctx ∧
      st.inside = true ∧ st'.inside = false) ∨ SetUpKey k := by
  cases hm with
  | call ctx command st st' o r hc =>
    rcases call_releases hc ho with ⟨hk,hst,hst'⟩ | hk
    · exact .inl ⟨ctx,command,st,st',rfl,rfl,hk,hst,hst'⟩
    · exact .inr hk
  | ending oid s st st' o r he => cases he <;> cases ho
  | reap st st' o r hr => cases hr <;> cases ho
  | resolveFailed v oid st e hv => cases st <;> cases ho
  | _ => cases ho

theorem call_enters (hm : CallMove cfg ctx command st o r st') (hst' : st'.inside = true) :
    st.inside = true ∨ o.cmd = .acquire (routingKey ctx) ∧ ∃ a, r = .ok a := by
  cases hm with
  | acquired u => exact .inr ⟨rfl,u,rfl⟩
  | acquiredAlone u => exact .inr ⟨rfl,u,rfl⟩
  | gaveUp e => cases hst'
  | ran c cmd res hcmd => cases hst'
  | runFailed c cmd e hcmd => cases hst'
  | _ => exact .inl rfl

def Excludes (rep : Nat → Nat) (w : World) (ph : Nat → Phase) : Prop :=
  ∀ t ctx command st, ph t = .call ctx command st → st.inside = true →
    w.locks (rep t) (routingKey ctx) = some t

theorem acquire_takes {k : String} (ha : act rep t o w r h = some w') (ho : o.cmd = .acquire k)
    (hr : ∃ a, r = .ok a) : w'.locks (rep t) k = some t := by
  obtain ⟨c,b⟩ := o
  cases ho
  obtain ⟨a,rfl⟩ := hr
  simp only [act] at ha
  split at ha
  · cases ha
    rw [lock_locks]
    simp
  · cases ha

theorem Excludes.step (hi : Excludes rep w ph) (hm : PhaseMove cfg (ph t) o r p)
    (ha : act rep t o w r h = some w') : Excludes rep w' (upd ph t p) := by
  intro i ctx command st hp hst
  have hl := act_locks ha (rep i) (routingKey ctx)
  by_cases hit : i = t
  · subst hit
    have hp' : p = .call ctx command st := by simpa using hp
    rcases move_into hm hp' with ⟨st₀,hst₀,hcm⟩ | ⟨rfl,_⟩
    · rcases call_enters hcm hst with hin | ⟨ho,hr⟩
      · have hold := hi i ctx command st₀ hst₀ hin
        rcases hl with hl | ⟨_,⟨_,hn,_⟩ | ⟨ho,_⟩⟩
        · rw [hl,hold]
        · rw [hold] at hn
          cases hn
        · rcases call_releases hcm ho with ⟨_,_,hout⟩ | hk
          · rw [hst] at hout
            cases hout
          · exact absurd rfl (setUpKey_ne hk ctx)
      · exact acquire_takes ha ho hr
    · cases hst
  · have hold := hi i ctx command st (by simpa [hit] using hp) hst
    rcases hl with hl | ⟨hrep,⟨_,hn,_⟩ | ⟨ho,_⟩⟩
    · rw [hl,hold]
    · rw [hold] at hn
      cases hn
    · rcases move_releases hm ho with ⟨ctx',command',st₁,st₂,hpt,_,hk,hin,_⟩ | hk
      · have ht := hi t ctx' command' st₁ hpt hin
        rw [← hk,← hrep,hold] at ht
        cases ht
        exact absurd rfl hit
      · exact absurd rfl (setUpKey_ne hk ctx)

end Mutex

end IdentityAwareMcp
