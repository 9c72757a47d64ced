import IdentityAwareMcp.Safety.Reaper

namespace IdentityAwareMcp

open Coop SandboxManager

section Election

-- Every Redis command on another key, and every other command.
def Cmd.unled : Cmd → Prop
  | .lockRedis k _ => k ≠ leaderKey
  | .unlockRedis k => k ≠ leaderKey
  | .set k _ _ => k ≠ leaderKey
  | .del k => k ≠ leaderKey
  | .setNx _ _ _ => False
  | .evalRelease _ _ => False
  | _ => True

inductive Leading where
  | apart
  | elect
  | claim (n : Nat)
  | lead (n : Nat)

@[simp] def Leading.token : Leading → Option Nat
  | .claim n => some n
  | .lead n => some n
  | _ => none

inductive LeadMove (cfg : Config) : Leading → (o : Op) → Except Exc o.Ans → Leading → Prop
  | unled (ph : Leading) (o : Op) (r : Except Exc o.Ans) : o.cmd.unled → LeadMove cfg ph o r ph
  | drew (n : Nat) : LeadMove cfg .elect ⟨.uuid,false⟩ (.ok n) (.claim n)
  | won (n : Nat) : LeadMove cfg (.claim n) ⟨.setNx leaderKey (.token n) cfg.reaperLease,false⟩ (.ok true) (.lead n)
  | lost (n : Nat) (r : Except Exc Bool) : r ≠ .ok true →
      LeadMove cfg (.claim n) ⟨.setNx leaderKey (.token n) cfg.reaperLease,false⟩ r .apart
  | resigned (n : Nat) (r : Except Exc Unit) :
      LeadMove cfg (.lead n) ⟨.evalRelease leaderKey (.token n),false⟩ r (.lead n)

variable {cfg : Config}

theorem unled_untouched {c : Cmd} (hc : c.unled) (t : Nat) (w : World) : ¬ Touches t w c leaderKey := by
  cases c <;> simp_all [Cmd.unled,Touches]

theorem call_unled {ctx : SessionCtx} {command : Option String} {st st' : Stage} {o : Op} {r : Except Exc o.Ans}
    (hm : CallMove cfg ctx command st o r st') : o.cmd.unled := by
  cases hm with
  | prepared c r hp => cases c <;> trivial
  | prepFailed c r st hp hl => cases c <;> trivial
  | _ => first | trivial | exact lockKey_ne rfl | exact key_ne (by simp)

theorem move_unled {ph ph' : Phase} {o : Op} {r : Except Exc o.Ans} (hp : ∀ st, ph ≠ .reap st)
    (hm : PhaseMove cfg ph o r ph') : (∀ st, ph' ≠ .reap st) ∧ o.cmd.unled := by
  cases hm with
  | call ctx command st st' o r hc => exact ⟨by simp,call_unled hc⟩
  | ending oid s st st' o r he =>
    refine ⟨by simp,?_⟩
    cases he <;> first | trivial | exact key_ne (by simp)
  | reap st st' o r hr => exact absurd rfl (hp st)
  | resolveFailed v oid st e hv =>
    refine ⟨by simp,?_⟩
    cases st <;> first | trivial | exact key_ne (by simp)
  | _ => exact ⟨by simp [Visit.calling],by first | trivial | exact key_ne (by simp)⟩

variable (cfg)

theorem apart_follows {j : Job} (hj : j ≠ .reaperRound) :
    Follows (LeadMove cfg) .apart (j.task cfg) (fun _ _ => True) := by
  refine ((job_follows cfg j).refine (fun _ => Leading.apart) (P := fun ph => ∀ st, ph ≠ .reap st)
    (fun ph o r ph' hp hm => ?_) ?_).mono (fun _ _ _ => trivial)
  · obtain ⟨hp',hu⟩ := move_unled hp hm
    exact ⟨hp',.unled _ _ _ hu⟩
  · cases j <;> simp_all [Job.phase]

def Same {α : Type} (ph : Leading) : Leading → Except Exc α → Prop := fun x _ => x = ph

theorem unled_follows (ph : Leading) {c : Cmd} (hc : c.unled) : Follows (LeadMove cfg) ph (perform c) (Same ph) :=
  Follows.perform (fun r => ⟨ph,.unled _ _ r hc,rfl⟩)

theorem same_bind {α β : Type} {ph : Leading} {p : M α} {f : α → M β} (hp : Follows (LeadMove cfg) ph p (Same ph))
    (hf : ∀ a, Follows (LeadMove cfg) ph (f a) (Same ph)) : Follows (LeadMove cfg) ph (p.bind f) (Same ph) := by
  refine hp.bind (fun x a h => ?_) (fun _ _ h => h)
  cases h
  exact hf a

theorem same_handle {α : Type} {ph : Leading} {p : M α} {f : Exc → M α}
    (hp : Follows (LeadMove cfg) ph p (Same ph)) (hf : ∀ e, Follows (LeadMove cfg) ph (f e) (Same ph)) :
    Follows (LeadMove cfg) ph (p.handle f) (Same ph) := by
  refine hp.handle (fun _ _ h => h) (fun x e h => ?_)
  cases h
  exact hf e

theorem reapOne_unled (ph : Leading) (groupName id : String) :
    Follows (LeadMove cfg) ph (reapOne cfg groupName id) (Same ph) := by
  refine same_bind cfg (unled_follows cfg ph (c := .get _) trivial) (fun v => ?_)
  match v with
  | none => rfl
  | some (.binding oid s gr) =>
    refine same_bind cfg (same_bind cfg (unled_follows cfg ph (c := .get _) trivial) (fun _ => rfl)) (fun live => ?_)
    by_cases hl : live = some id
    · simp only [hl,if_true]
      rfl
    · simp only [hl,if_false]
      refine same_bind cfg (same_handle cfg (unled_follows cfg ph (c := .beginDelete _) trivial) (fun e => ?_))
        (fun _ => unled_follows cfg ph (c := .del _) (key_ne (k := indexKey cfg id) (by simp)))
      split <;> rfl
  | some (.text _) => rfl
  | some (.flag _) => rfl
  | some (.profile _) => rfl
  | some (.names _) => rfl
  | some (.token _) => rfl

theorem reapListed_unled (ph : Leading) (groupName : String) (ids : List String) :
    Follows (LeadMove cfg) ph (reapListed cfg groupName ids) (Same ph) := by
  induction ids with
  | nil => rfl
  | cons id ids ih => exact same_bind cfg (reapOne_unled cfg ph groupName id) (fun _ => ih)

theorem reapGroups_unled (ph : Leading) (gs : List Group) :
    Follows (LeadMove cfg) ph (reapGroups cfg gs) (Same ph) := by
  induction gs with
  | nil => rfl
  | cons g gs ih =>
    refine same_bind cfg (same_handle cfg ?_ (fun e => ?_)) (fun _ => ih)
    · exact same_bind cfg (unled_follows cfg ph (c := .listSandboxes _) trivial)
        (fun ids => reapListed_unled cfg ph (cfg.groupNames g) ids)
    · split <;> rfl

theorem reapOrphans_unled (ph : Leading) : Follows (LeadMove cfg) ph (reapOrphans cfg) (Same ph) := by
  unfold reapOrphans
  split
  · rfl
  · exact reapGroups_unled cfg ph Group.all

-- What an election returns: a token once it is the leader's, the sentinel after an exception.
def Won : Leading → Except Exc (Option Lease) → Prop
  | ph, .ok (some (.token n)) => ph = .lead n
  | _, _ => True

theorem tryBecomeReaper_leads (hflag : cfg.distributedLock = true) (hclient : cfg.redisClient = true) :
    Follows (LeadMove cfg) .elect (tryBecomeReaper cfg) Won := by
  simp only [tryBecomeReaper,hflag,hclient,Bool.not_true,Bool.or_self,Bool.false_eq_true,if_false]
  refine follows_call (fun n => ⟨_,.drew n,?_⟩) (fun e => ⟨.elect,.unled _ _ _ trivial,trivial⟩)
  refine follows_except (Q := Won) ?_ (fun _ _ h => h) (fun _ e _ _ => trivial) (fun _ _ _ _ => trivial)
  refine follows_call (fun got => ?_) (fun e => ⟨_,.lost n (.error e) (by simp),trivial⟩)
  cases got with
  | true => exact ⟨_,.won n,rfl⟩
  | false => exact ⟨_,.lost n (.ok false) (by simp),trivial⟩

theorem resignReaper_leads (hclient : cfg.redisClient = true) (n : Nat) :
    Follows (LeadMove cfg) (.lead n) (resignReaper cfg (.token n)) (fun _ _ => True) := by
  simp only [resignReaper,hclient,if_true]
  exact follows_except (Q := fun _ _ => True) (Follows.perform (fun r => ⟨_,.resigned n r,trivial⟩))
    (fun _ _ _ => trivial) (fun _ _ _ _ => trivial) (fun _ _ _ _ => trivial)

theorem reaperRound_leads (hflag : cfg.distributedLock = true) (hclient : cfg.redisClient = true) :
    Follows (LeadMove cfg) .elect (reaperRound cfg) (fun _ _ => True) := by
  refine follows_except (Q := fun _ _ => True) ?_ (fun _ _ _ => trivial) (fun _ _ _ _ => trivial)
    (fun _ _ _ _ => trivial)
  refine (tryBecomeReaper_leads cfg hflag hclient).bind (fun ph lease h => ?_) (fun _ _ _ => trivial)
  match lease with
  | none => trivial
  | some .noLease =>
    refine (reapOrphans_unled cfg ph).ensuring (fun x r _ => ?_)
    cases r <;> trivial
  | some (.token n) =>
    cases h
    refine (reapOrphans_unled cfg (.lead n)).ensuring (fun x r hx => ?_)
    cases hx
    exact (resignReaper_leads cfg hclient n).mono (fun x u _ => by cases u <;> trivial)

def Job.leading : Job → Leading
  | .reaperRound => .elect
  | _ => .apart

theorem job_leads (hflag : cfg.distributedLock = true) (hclient : cfg.redisClient = true) (j : Job) :
    Follows (LeadMove cfg) j.leading (j.task cfg) (fun _ _ => True) := by
  cases j with
  | reaperRound => exact Follows.bind (reaperRound_leads cfg hflag hclient) (fun _ _ _ => trivial) (fun _ _ _ => trivial)
  | _ => exact apart_follows cfg (by simp)

end Election

section Lease

variable {cfg : Config} {rep : Nat → Nat} {t : Nat} {o : Op} {r : Except Exc o.Ans} {h : Hint} {w w' : World}
variable {ph : Nat → Leading} {p : Leading}

-- Until when the lease runs that a task has won and not given back.
def leases (s : System) (l : Step) (g : Nat → Option Nat) : Nat → Option Nat :=
  match l with
  | .task t ⟨.setNx k _ ex,_⟩ (.ok true) _ =>
    if k = leaderKey then upd g t (some (s.world.now + ex * 1000)) else g
  | .task t ⟨.evalRelease k _,_⟩ (.ok _) _ => if k = leaderKey then upd g t none else g
  | .task t ⟨.evalRelease k _,_⟩ (.error _) h => if k = leaderKey ∧ h.reached = true then upd g t none else g
  | _ => g

-- Redis answers: a command fails only with the task it belongs to.
def Answering (_ : System) (_ : Nat → Option Nat) : Step → Prop
  | .task _ _ r _ => ∀ e, r = .error e → e ≠ .redis
  | .env _ => True

structure Leased (w : World) (g : Nat → Option Nat) (ph : Nat → Leading) : Prop where
  drawn : ∀ i n, (ph i).token = some n → n < w.uuids
  distinct : ∀ i j n, (ph i).token = some n → (ph j).token = some n → i = j
  held : ∀ i d, g i = some d → ∃ n, ph i = .lead n ∧ (w.now < d → w.redis leaderKey = some ⟨.token n,some d⟩)

theorem act_uuids (ha : act rep t o w r h = some w') :
    w'.uuids = w.uuids ∨ o.cmd = .uuid ∧ w'.uuids = w.uuids + 1 := by
  obtain ⟨c,b⟩ := o
  have halt : Alters rep t w c w' := act_alters ha
  cases halt with
  | uuid => exact .inr ⟨rfl,rfl⟩
  | ready | gone | policy | bootstrapped | deleting =>
    left
    simp only [World.modifyBox]
    split <;> rfl
  | _ => exact .inl rfl

theorem act_setNx {k : String} {v : Value} {ex : Nat} {r : Except Exc Bool} {b : Bool}
    (ha : act rep t ⟨.setNx k v ex,b⟩ w r h = some w') :
    r ≠ .ok true ∧ w' = w ∨ w.lookup k = none ∧ w' = w.store k v (some ex) := by
  cases r with
  | ok got =>
    simp only [act] at ha
    split at ha
    · rename_i hgot
      cases got with
      | true =>
        cases ha
        exact .inr ⟨of_decide_eq_true hgot.symm,rfl⟩
      | false =>
        cases ha
        exact .inl ⟨by simp,rfl⟩
    · cases ha
  | error e =>
    simp only [act] at ha
    split at ha
    · cases ha
      split
      · rename_i hn
        simp only [Bool.and_eq_true,decide_eq_true_eq] at hn
        exact .inr ⟨hn.2,rfl⟩
      · exact .inl ⟨by simp,rfl⟩
    · cases ha

theorem act_evalRelease {k : String} {v : Value} {r : Except Exc Unit} {b : Bool}
    (ha : act rep t ⟨.evalRelease k v,b⟩ w r h = some w') :
    w' = w ∨ w.lookup k = some v ∧ w' = w.erase k ∧ (r = .ok () ∨ h.reached = true) := by
  cases r with
  | ok u =>
    cases ha
    split
    · rename_i hl
      exact .inr ⟨hl,rfl,.inl rfl⟩
    · exact .inl rfl
  | error e =>
    simp only [act] at ha
    split at ha
    · cases ha
      split
      · rename_i hn
        simp only [Bool.and_eq_true,decide_eq_true_eq] at hn
        exact .inr ⟨hn.2,rfl,.inr hn.1⟩
      · exact .inl rfl
    · cases ha

theorem unled_leases {s : System} {g : Nat → Option Nat} (hu : o.cmd.unled) : leases s (.task t o r h) g = g := by
  obtain ⟨c,b⟩ := o
  cases c <;> cases r <;> first | rfl | exact hu.elim

theorem lease_live {k : String} {n d : Nat} (he : w.redis k = some ⟨.token n,some d⟩) (hd : w.now < d) :
    w.lookup k = some (.token n) := by
  simp [World.lookup,he,Entry.live,hd]

variable {g : Nat → Option Nat}

theorem Leased.frame (hi : Leased w g ph) (hr : w'.redis leaderKey = w.redis leaderKey) (hn : w.now ≤ w'.now)
    (hu : w.uuids ≤ w'.uuids) : Leased w' g ph where
  drawn := fun i n hp => Nat.lt_of_lt_of_le (hi.drawn i n hp) hu
  distinct := hi.distinct
  held := by
    intro i d hd
    obtain ⟨n,hp,he⟩ := hi.held i d hd
    exact ⟨n,hp,fun hlt => hr ▸ he (Nat.lt_of_le_of_lt hn hlt)⟩

-- The key is free only when every lease has run out.
theorem Leased.lapsed (hi : Leased w g ph) (hn : w.lookup leaderKey = none) {i d : Nat} (hd : g i = some d) :
    d ≤ w.now := by
  obtain ⟨n,_,he⟩ := hi.held i d hd
  by_contra hlt
  rw [lease_live (he (Nat.lt_of_not_le hlt)) (Nat.lt_of_not_le hlt)] at hn
  cases hn

theorem Leased.claimed (hi : Leased w g ph) (hn : w.lookup leaderKey = none) {n ex : Nat} :
    Leased (w.store leaderKey (.token n) (some ex)) g ph where
  drawn := hi.drawn
  distinct := hi.distinct
  held := by
    intro i d hd
    obtain ⟨m,hp,_⟩ := hi.held i d hd
    exact ⟨m,hp,fun hlt => absurd (hi.lapsed hn hd) (Nat.not_le_of_lt hlt)⟩

theorem Leased.moved (hi : Leased w g ph) (hf : p.token = none ∨ p.token = (ph t).token)
    (hg : g t = none ∨ p = ph t) : Leased w g (upd ph t p) := by
  have htok : ∀ {i n}, (upd ph t p i).token = some n → (ph i).token = some n := by
    intro i n hp
    by_cases hit : i = t
    · subst hit
      rw [upd_same] at hp
      rcases hf with hf | hf
      · rw [hf] at hp
        cases hp
      · rw [← hf,hp]
    · rwa [upd_other _ _ hit] at hp
  refine ⟨fun i n hp => hi.drawn i n (htok hp),fun i j n hp hq => hi.distinct i j n (htok hp) (htok hq),?_⟩
  intro i d hd
  obtain ⟨n,hp,he⟩ := hi.held i d hd
  refine ⟨n,?_,he⟩
  by_cases hit : i = t
  · subst hit
    rw [upd_same]
    rcases hg with hg | rfl
    · rw [hg] at hd
      cases hd
    · exact hp
  · rw [upd_other _ _ hit,hp]

theorem Leased.dropped (hi : Leased w g ph) : Leased w (upd g t none) ph where
  drawn := hi.drawn
  distinct := hi.distinct
  held := by
    intro i d hd
    rcases upd_eq hd with ⟨_,⟨⟩⟩ | ⟨_,hd⟩
    exact hi.held i d hd

-- Whose token the key holds, if the lease still runs.
theorem Leased.spared (hi : Leased w g ph) {n i d : Nat} (hp : ph t = .lead n) (hl : w.lookup leaderKey = some (.token n))
    (hd : g i = some d) (hlt : w.now < d) : i = t := by
  obtain ⟨m,hpi,he⟩ := hi.held i d hd
  have hm := lease_live (he hlt) hlt
  rw [hl] at hm
  cases hm
  exact hi.distinct i t n (by rw [hpi]; rfl) (by rw [hp]; rfl)

theorem Leased.drew (hi : Leased w g ph) {n : Nat} (hp : ph t = .elect) (hn : n = w.uuids) :
    Leased { w with uuids := w.uuids + 1 } g (upd ph t (.claim n)) := by
  have htok : ∀ {i m}, (upd ph t (.claim n) i).token = some m → i = t ∧ m = n ∨ i ≠ t ∧ (ph i).token = some m := by
    intro i m hm
    by_cases hit : i = t
    · subst hit
      rw [upd_same] at hm
      cases hm
      exact .inl ⟨rfl,rfl⟩
    · rw [upd_other _ _ hit] at hm
      exact .inr ⟨hit,hm⟩
  refine ⟨?_,?_,?_⟩
  · intro i m hm
    rcases htok hm with ⟨_,rfl⟩ | ⟨_,hm⟩
    · exact hn ▸ Nat.lt_succ_self _
    · exact Nat.lt_succ_of_lt (hi.drawn i m hm)
  · intro i j m hm hm'
    rcases htok hm with ⟨hit,he⟩ | ⟨_,hold⟩ <;> rcases htok hm' with ⟨hjt,he'⟩ | ⟨_,hold'⟩
    · rw [hit,hjt]
    · exact absurd (hi.drawn j m hold') (by omega)
    · exact absurd (hi.drawn i m hold) (by omega)
    · exact hi.distinct i j m hold hold'
  · intro i d hd
    obtain ⟨m,hpi,he⟩ := hi.held i d hd
    have hit : i ≠ t := by
      rintro rfl
      rw [hp] at hpi
      cases hpi
    exact ⟨m,by rw [upd_other _ _ hit,hpi],he⟩

theorem Leased.won (hi : Leased w g ph) {n ex : Nat} (hp : ph t = .claim n) (hn : w.lookup leaderKey = none) :
    Leased (w.store leaderKey (.token n) (some ex)) (upd g t (some (w.now + ex * 1000))) (upd ph t (.lead n)) := by
  have htok : ∀ {i m}, (upd ph t (.lead n) i).token = some m → (ph i).token = some m := by
    intro i m hm
    by_cases hit : i = t
    · subst hit
      rw [upd_same] at hm
      rw [hp]
      exact hm
    · rwa [upd_other _ _ hit] at hm
  refine ⟨fun i m hm => hi.drawn i m (htok hm),fun i j m hm hm' => hi.distinct i j m (htok hm) (htok hm'),?_⟩
  intro i d hd
  by_cases hit : i = t
  · subst hit
    rw [upd_same] at hd ⊢
    cases hd
    exact ⟨n,rfl,fun _ => by simp [World.store]⟩
  · rw [upd_other _ _ hit] at hd ⊢
    obtain ⟨m,hpi,_⟩ := hi.held i d hd
    exact ⟨m,hpi,fun hlt => absurd (hi.lapsed hn hd) (Nat.not_le_of_lt hlt)⟩

theorem Leased.resigned (hi : Leased w g ph) {n : Nat} (hp : ph t = .lead n)
    (hl : w.lookup leaderKey = some (.token n)) : Leased (w.erase leaderKey) (upd g t none) ph where
  drawn := hi.drawn
  distinct := hi.distinct
  held := by
    intro i d hd
    rcases upd_eq hd with ⟨_,⟨⟩⟩ | ⟨hit,hd⟩
    obtain ⟨m,hpi,_⟩ := hi.held i d hd
    exact ⟨m,hpi,fun hlt => absurd (hi.spared hp hl hd hlt) hit⟩

theorem Leased.step {s : System} (hi : Leased s.world g ph) (hm : LeadMove cfg (ph t) o r p)
    (ha : act rep t o s.world r h = some w') : Leased w' (leases s (.task t o r h) g) (upd ph t p) := by
  have hnow := act_now ha
  have hidle : ∀ {n}, ph t = .claim n → g t = none := by
    intro n hp
    cases hd : g t with
    | none => rfl
    | some d =>
      obtain ⟨m,hm',_⟩ := hi.held t d hd
      rw [hp] at hm'
      cases hm'
  generalize hq : ph t = q at hm
  cases hm with
  | unled _ o r hu =>
    rw [unled_leases hu]
    refine (hi.frame (act_untouched ha (unled_untouched hu t s.world)) (Nat.le_of_eq hnow.symm) ?_).moved (.inr (by rw [hq])) (.inr hq.symm)
    rcases act_uuids ha with h | ⟨_,h⟩ <;> omega
  | drew n =>
    simp only [act] at ha
    split at ha
    · rename_i hn
      cases ha
      exact hi.drew hq hn
    · cases ha
  | won n =>
    rcases act_setNx ha with ⟨hne,_⟩ | ⟨hn,rfl⟩
    · exact absurd rfl hne
    · exact hi.won hq hn
  | lost n r hr =>
    have hg : leases s (.task t ⟨.setNx leaderKey (.token n) cfg.reaperLease,false⟩ r h) g = g := by
      cases r with
      | ok won =>
        cases won with
        | true => exact absurd rfl hr
        | false => rfl
      | error e => rfl
    rw [hg]
    rcases act_setNx ha with ⟨_,rfl⟩ | ⟨hn,rfl⟩
    · exact hi.moved (.inl rfl) (.inl (hidle hq))
    · exact (hi.claimed hn).moved (.inl rfl) (.inl (hidle hq))
  | resigned n r =>
    have hself : upd ph t (.lead n) = ph := by
      funext i
      by_cases hit : i = t
      · subst hit
        rw [upd_same,hq]
      · rw [upd_other _ _ hit]
    rw [hself]
    have hg : leases s (.task t ⟨.evalRelease leaderKey (.token n),false⟩ r h) g = g ∨
        leases s (.task t ⟨.evalRelease leaderKey (.token n),false⟩ r h) g = upd g t none := by
      cases r with
      | ok u => exact .inr rfl
      | error e =>
        simp only [leases,true_and]
        split
        · exact .inr rfl
        · exact .inl rfl
    rcases act_evalRelease ha with rfl | ⟨hl,rfl,hok⟩
    · rcases hg with hg | hg <;> rw [hg]
      · exact hi
      · exact hi.dropped
    · have hdrop : leases s (.task t ⟨.evalRelease leaderKey (.token n),false⟩ r h) g = upd g t none := by
        rcases hok with rfl | hok
        · rfl
        · cases r with
          | ok u => rfl
          | error e => simp only [leases,true_and,hok,if_true]
      rw [hdrop]
      exact hi.resigned hq hl

end Lease

section Runs

variable {cfg : Config} {rep : Nat → Nat} {jobs : Nat → Job} {now : Nat}

theorem leased_run (hflag : cfg.distributedLock = true) (hclient : cfg.redisClient = true) {s : System}
    {g : Nat → Option Nat}
    (hr : (machine rep).Run Answering leases (start cfg jobs now) (fun _ => none) s g) :
    ∃ ph, Leased s.world g ph ∧ ∀ t, Follows (LeadMove cfg) (ph t) (s.pool t) (fun _ _ => True) := by
  refine hr.tracked (I := Leased) (fun t => (jobs t).leading) (fun t => job_leads cfg hflag hclient (jobs t)) ?_ ?_ ?_
  · have hnone : ∀ j : Job, j.leading.token = none := by
      intro j
      cases j <;> rfl
    refine ⟨fun i n hp => ?_,fun i j n hp => ?_,fun i d hd => by cases hd⟩
    · rw [hnone] at hp
      cases hp
    · rw [hnone] at hp
      cases hp
  · intro s g ph t o r h w p hi _ _ hm ha
    exact hi.step hm ha
  · intro s g ph e w hi _ he
    exact hi.frame (by rw [env_redis he]) (env_now he) (Nat.le_of_eq (env_uuids he).symm)

-- What an election under the flag returns, after whatever answers.
theorem election_returns (hflag : cfg.distributedLock = true) (hclient : cfg.redisClient = true)
    {tr : Task.Played Op Op.Ans Exc} {lease : Lease} (hp : Task.Plays (tryBecomeReaper cfg) tr (.ok (some lease))) :
    ∃ n r, tr = [⟨⟨.uuid,false⟩,.ok n⟩,⟨⟨.setNx leaderKey (.token n) cfg.reaperLease,false⟩,r⟩] ∧
      (r = .ok true ∧ lease = .token n ∨ ∃ e, r = .error e ∧ e.isException = true) := by
  simp only [tryBecomeReaper,hflag,hclient,Bool.not_true,Bool.or_self,Bool.false_eq_true,if_false] at hp
  cases hp with
  | call _ _ r tr _ hk =>
    cases r with
    | error e => cases hk
    | ok n =>
      cases hk with
      | call _ _ r tr _ hk =>
        refine ⟨n,r,?_⟩
        match r with
        | .ok true =>
          cases hk
          exact ⟨rfl,.inl ⟨rfl,rfl⟩⟩
        | .ok false => cases hk
        | .error e => cases e <;> cases hk <;> exact ⟨rfl,.inr ⟨_,rfl,rfl⟩⟩

theorem claim_refused {t : Nat} {v x : Value} {ex : Nat} {r : Except Exc Bool} {h : Hint} {w w' : World}
    (ha : act rep t ⟨.setNx leaderKey v ex,false⟩ w r h = some w') (hl : w.lookup leaderKey = some x)
    (hr : ∀ e, r = .error e → e ≠ .redis) : r = .ok false ∨ r = .error .cancelled := by
  match r with
  | .ok false => exact .inl rfl
  | .ok true =>
    rcases act_setNx ha with ⟨hne,_⟩ | ⟨hn,_⟩
    · exact absurd rfl hne
    · rw [hl] at hn
      cases hn
  | .error e =>
    refine .inr ?_
    simp only [act] at ha
    split at ha
    · rename_i hfail
      cases e <;> simp_all [redisFails,Op.interrupts]
    · cases ha

theorem others_keep {s : System} {g : Nat → Option Nat} {ph : Nat → Leading} {i d n : Nat}
    (hi : Leased s.world g ph) (hd : g i = some d) (hlt : s.world.now < d)
    (hl : s.world.lookup leaderKey = some (.token n)) {t : Nat} (hit : t ≠ i) {o : Op} {r : Except Exc o.Ans} {h : Hint}
    {w : World} {p : Leading} (hm : LeadMove cfg (ph t) o r p) (ha : act rep t o s.world r h = some w) :
    w.lookup leaderKey = s.world.lookup leaderKey := by
  generalize hq : ph t = q at hm
  cases hm with
  | unled _ o r hu => exact lookup_congr (act_untouched ha (unled_untouched hu t s.world)) (act_now ha)
  | drew n =>
    simp only [act] at ha
    split at ha <;> cases ha
    rfl
  | won n =>
    rcases act_setNx ha with ⟨hne,_⟩ | ⟨hn,_⟩
    · exact absurd rfl hne
    · rw [hl] at hn
      cases hn
  | lost n r hr =>
    rcases act_setNx ha with ⟨_,rfl⟩ | ⟨hn,_⟩
    · rfl
    · rw [hl] at hn
      cases hn
  | resigned m r =>
    rcases act_evalRelease ha with rfl | ⟨hm,_⟩
    · rfl
    · exact absurd (hi.spared hq hm hd hlt).symm hit

-- While the lease of one task runs, no step of another changes the key, and no other election is won.
theorem one_leader (hflag : cfg.distributedLock = true) (hclient : cfg.redisClient = true) :
    (∀ (tr : Task.Played Op Op.Ans Exc) (lease : Lease), Task.Plays (tryBecomeReaper cfg) tr (.ok (some lease)) →
      ∃ n r, tr = [⟨⟨.uuid,false⟩,.ok n⟩,⟨⟨.setNx leaderKey (.token n) cfg.reaperLease,false⟩,r⟩] ∧
        (r = .ok true ∧ lease = .token n ∨ ∃ e, r = .error e ∧ e.isException = true)) ∧
    ∀ (s : System) (g : Nat → Option Nat) (i d : Nat),
      (machine rep).Run Answering leases (start cfg jobs now) (fun _ => none) s g → g i = some d → s.world.now < d →
      ∃ n, s.world.lookup leaderKey = some (.token n) ∧ ∀ t, t ≠ i →
        (∀ (o : Op) (r : Except Exc o.Ans) (h : Hint) (s' : System),
          (machine rep).fire (.task t o r h) s = some s' → s'.world.lookup leaderKey = some (.token n)) ∧
        ∀ (v : Value) (ex : Nat) (r : Except Exc Bool) (h : Hint) (s' : System),
          Answering s g (.task t ⟨.setNx leaderKey v ex,false⟩ r h) →
          (machine rep).fire (.task t ⟨.setNx leaderKey v ex,false⟩ r h) s = some s' →
          r = .ok false ∨ r = .error .cancelled := by
  refine ⟨fun tr lease hp => election_returns hflag hclient hp,?_⟩
  intro s g i d hr hd hlt
  obtain ⟨ph,hi,hph⟩ := leased_run hflag hclient hr
  obtain ⟨n,_,he⟩ := hi.held i d hd
  have hl := lease_live (he hlt) hlt
  refine ⟨n,hl,fun t hit => ⟨fun o r h s' hf => ?_,fun v ex r h s' hadm hf => ?_⟩⟩
  · obtain ⟨k,w,hp,ha,rfl⟩ := (machine rep).fire_task hf
    have ht := hph t
    rw [hp] at ht
    obtain ⟨p,hm,_⟩ := ht r
    exact (others_keep hi hd hlt hl hit hm ha).trans hl
  · obtain ⟨k,w,_,ha,_⟩ := (machine rep).fire_task hf
    exact claim_refused ha hl hadm

end Runs

section Schedules

def electing (cfg : Config) (t n : Nat) (got : Bool) : List Step :=
  [answers t .uuid n,answers t (.setNx leaderKey (.token n) cfg.reaperLease) got]

def emptyPass (cfg : Config) (t : Nat) : List Step :=
  [answers t (.listSandboxes (cfg.groupNames .diagnose)) [],answers t (.listSandboxes (cfg.groupNames .action)) []]

-- The first leader is slow: it resigns after another one has taken over.
theorem one_leader_late : ∃ s g d, (machine id).Run Answering leases
      (start lockingConfig (fun _ => .reaperRound) 0) (fun _ => none) s g ∧ g 1 = some d ∧ s.world.now < d ∧
    ∃ n, s.world.lookup leaderKey = some (.token n) ∧ ∀ (o : Op) (r : Except Exc o.Ans) (h : Hint) (s' : System),
      (machine id).fire (.task 0 o r h) s = some s' → s'.world.lookup leaderKey = some (.token n) := by
  obtain ⟨s,g,hr,hn⟩ : ∃ s g, (machine id).Run Answering leases (start lockingConfig (fun _ => .reaperRound) 0)
      (fun _ => none) s g ∧ (g 1,s.world.now,(s.pool 0).next) =
        (some 121000,61000,some ⟨.evalRelease leaderKey (.token 0),false⟩) :=
    Machine.replay_reaches (fun _ _ l => match l with
        | .task _ _ r _ => match r with
          | .ok _ => true
          | .error _ => false
        | .env _ => true)
      (electing lockingConfig 0 0 true ++ [.env (.tick 61000)] ++ electing lockingConfig 1 1 true ++
        emptyPass lockingConfig 0)
      (fun s g l hl => by
        cases l with
        | env e => trivial
        | task t o r h =>
          cases r with
          | ok a => simp [Answering]
          | error e => cases hl)
      (by decide +kernel)
  simp only [Prod.mk.injEq] at hn
  obtain ⟨hd,hnow,_⟩ := hn
  obtain ⟨n,hl,hx⟩ := (one_leader rfl rfl).2 s g 1 121000 hr hd (by rw [hnow]; decide)
  exact ⟨s,g,121000,hr,hd,by rw [hnow]; decide,n,hl,(hx 0 (by decide)).1⟩

end Schedules

end IdentityAwareMcp
