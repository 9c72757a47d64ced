import IdentityAwareMcp.Safety.Window

namespace IdentityAwareMcp

open Coop SandboxManager

section Calls

-- The commands of the two sliding views, each as a task of its own.
inductive CacheCall where
  | sessionGet (oid sessionId : Option String) (group : String)
  | sessionSet (oid sessionId : Option String) (group sandboxId : String)
  | sessionDelete (oid sessionId : Option String) (group : String)
  | userGet (oid : String)
  | userSet (oid sessionId : String)

def CacheCall.task (b : RedisBackend) : CacheCall → M (Option String)
  | .sessionGet oid sessionId group => SessionSandboxCache.get b oid sessionId group
  | .sessionSet oid sessionId group sandboxId => do
    SessionSandboxCache.set b oid sessionId group sandboxId
    return none
  | .sessionDelete oid sessionId group => do
    SessionSandboxCache.delete b oid sessionId group
    return none
  | .userGet oid => UserSessionCache.get b oid
  | .userSet oid sessionId => do
    UserSessionCache.set b oid sessionId
    return none

abbrev Store := Coop.Sys Op Op.Ans Exc Nat World (Option String)

def startStore (b : RedisBackend) (calls : Nat → CacheCall) (now : Nat) : Store :=
  ⟨World.empty now,fun t => (calls t).task b⟩

inductive Refreshing where
  | read (k : String)
  | refresh (k v : String)
  | write (k v : String)
  | remove (k : String)
  | ended

inductive RefreshMove (b : RedisBackend) : Refreshing → (o : Op) → Except Exc o.Ans → Refreshing → Prop
  | found (k : String) (v : Option Value) (x : String) : v.bind Value.asText = some x →
      RefreshMove b (.read k) ⟨.get k,false⟩ (.ok v) (.refresh k x)
  | absent (k : String) (v : Option Value) : v.bind Value.asText = none →
      RefreshMove b (.read k) ⟨.get k,false⟩ (.ok v) .ended
  | failed (k : String) (e : Exc) : RefreshMove b (.read k) ⟨.get k,false⟩ (.error e) .ended
  | refreshed (k v : String) (r : Except Exc Unit) :
      RefreshMove b (.refresh k v) ⟨.set k (.text v) b.ttl,false⟩ r .ended
  | wrote (k v : String) (r : Except Exc Unit) : RefreshMove b (.write k v) ⟨.set k (.text v) b.ttl,false⟩ r .ended
  | removed (k : String) (r : Except Exc Unit) : RefreshMove b (.remove k) ⟨.del k,false⟩ r .ended

variable (b : RedisBackend)

def CacheCall.phase : CacheCall → Refreshing
  | .sessionGet oid sessionId group => .read (b.k (SessionSandboxCache.key oid sessionId group))
  | .sessionSet oid sessionId group sandboxId => .write (b.k (SessionSandboxCache.key oid sessionId group)) sandboxId
  | .sessionDelete oid sessionId group => .remove (b.k (SessionSandboxCache.key oid sessionId group))
  | .userGet oid => .read (b.k (UserSessionCache.key oid))
  | .userSet oid sessionId => .write (b.k (UserSessionCache.key oid)) sessionId

theorem cache_follows (c : CacheCall) :
    Follows (RefreshMove b) (c.phase b) (c.task b) (fun _ _ => True) := by
  cases c with
  | sessionGet oid sid gr =>
    refine follows_call (fun v => ?_) (fun e => ⟨_,.failed _ e,trivial⟩)
    cases hv : v.bind Value.asText with
    | none => exact ⟨_,.absent _ v hv,trivial⟩
    | some x => exact ⟨_,.found _ v x hv,follows_call (fun u => ⟨_,.refreshed _ x (.ok u),trivial⟩)
        (fun e => ⟨_,.refreshed _ x (.error e),trivial⟩)⟩
  | userGet oid =>
    refine follows_call (fun v => ?_) (fun e => ⟨_,.failed _ e,trivial⟩)
    cases hv : v.bind Value.asText with
    | none => exact ⟨_,.absent _ v hv,trivial⟩
    | some x => exact ⟨_,.found _ v x hv,follows_call (fun u => ⟨_,.refreshed _ x (.ok u),trivial⟩)
        (fun e => ⟨_,.refreshed _ x (.error e),trivial⟩)⟩
  | sessionSet oid sid gr id =>
    exact follows_call (fun u => ⟨_,.wrote _ id (.ok u),trivial⟩) (fun e => ⟨_,.wrote _ id (.error e),trivial⟩)
  | userSet oid sid =>
    exact follows_call (fun u => ⟨_,.wrote _ sid (.ok u),trivial⟩) (fun e => ⟨_,.wrote _ sid (.error e),trivial⟩)
  | sessionDelete oid sid gr =>
    exact follows_call (fun u => ⟨_,.removed _ (.ok u),trivial⟩) (fun e => ⟨_,.removed _ (.error e),trivial⟩)

end Calls

section Ledger

-- What each get has read and not yet written back, and what the keys would hold if a
-- refresh only prolonged a value that is still there.
structure Ledger where
  pending : Nat → Option (String × Value)
  held : String → Option Entry

def applied (r : Except Exc Unit) (h : Hint) : Bool :=
  match r with
  | .ok _ => true
  | .error _ => h.reached

def liveValue (now : Nat) (e : Option Entry) : Option Value :=
  e.bind (fun e => if e.live now then some e.val else none)

def settle (s : Store) (l : Step) (g : Ledger) : Ledger :=
  match l with
  | .task t ⟨.get k,_⟩ (.ok v) _ =>
    { g with pending := upd g.pending t ((v.bind Value.asText).map (fun x => (k,.text x))) }
  | .task t ⟨.set k v ex,_⟩ r h =>
    let e : Entry := ⟨v,ex.map (fun n => s.world.now + n * 1000)⟩
    match g.pending t with
    | none => if applied r h then { g with held := upd g.held k (some e) } else g
    | some _ => ⟨upd g.pending t none,
        if applied r h ∧ liveValue s.world.now (g.held k) = some v then upd g.held k (some e) else g.held⟩
  | .task _ ⟨.del k,_⟩ r h => if applied r h then { g with held := upd g.held k none } else g
  | _ => g

-- While a get of a key stands between its GET and its SET, nobody deletes the key or sets
-- another value, and it does not expire.
def Undisturbed (s : Store) (g : Ledger) : Step → Prop
  | .task t ⟨.set k v _,_⟩ r h =>
    applied r h = true → g.pending t = none → ∀ i v', g.pending i = some (k,v') → v' = v
  | .task _ ⟨.del k,_⟩ r h => applied r h = true → ∀ i v, g.pending i ≠ some (k,v)
  | .env (.tick ms) => ∀ i k v e, g.pending i = some (k,v) → s.world.redis k = some e → e.live (s.world.now + ms) = true
  | _ => True

def Refreshing.pending : Refreshing → Option (String × Value)
  | .refresh k v => some (k,.text v)
  | _ => none

structure Accounted (w : World) (g : Ledger) (ph : Nat → Refreshing) : Prop where
  same : w.redis = g.held
  posts : ∀ i, g.pending i = (ph i).pending
  live : ∀ i k v, g.pending i = some (k,v) → w.lookup k = some v

variable {b : RedisBackend} {rep : Nat → Nat} {t : Nat} {o : Op} {r : Except Exc o.Ans} {h : Hint} {w w' : World}
variable {ph : Nat → Refreshing} {p : Refreshing} {g : Ledger}

theorem act_set_applied {w w' : World} {k : String} {v : Value} {ex : Option Nat} {timed : Bool} {r : Except Exc Unit}
    (ha : act rep t ⟨.set k v ex,timed⟩ w r h = some w') : w' = if applied r h then w.store k v ex else w := by
  cases r with
  | ok u =>
    cases ha
    rfl
  | error e =>
    simp only [act] at ha
    split at ha <;> cases ha
    rfl

theorem act_del_applied {w w' : World} {k : String} {timed : Bool} {r : Except Exc Unit}
    (ha : act rep t ⟨.del k,timed⟩ w r h = some w') : w' = if applied r h then w.erase k else w := by
  cases r with
  | ok u =>
    cases ha
    rfl
  | error e =>
    simp only [act] at ha
    split at ha <;> cases ha
    rfl

theorem store_lookup {w : World} {k i : String} {v : Value} {ex : Option Nat} (hx : ∀ n, ex = some n → 0 < n) :
    (w.store k v ex).lookup i = if i = k then some v else w.lookup i := by
  by_cases hi : i = k
  · subst hi
    rw [if_pos rfl,lookup_entry (w := w.store i v ex) (upd_same _ _ _)]
    cases ex with
    | none => rfl
    | some n =>
      have := hx n rfl
      simp [Entry.live,World.store]
      omega
  · rw [if_neg hi]
    exact lookup_congr (store_other v ex hi) rfl

theorem erase_lookup {w : World} {k i : String} (hi : i ≠ k) : (w.erase k).lookup i = w.lookup i :=
  lookup_congr (erase_other hi) rfl

theorem lookup_live (w : World) (k : String) : w.lookup k = liveValue w.now (w.redis k) := by
  rw [World.lookup,liveValue]
  cases w.redis k <;> rfl

theorem Accounted.posted (hi : Accounted w g ph) {q : Option (String × Value)} (hq : q = p.pending) (i : Nat) :
    upd g.pending t q i = (upd ph t p i).pending := by
  by_cases hit : i = t
  · subst hit
    rw [upd_same,upd_same,hq]
  · rw [upd_other _ _ hit,upd_other _ _ hit,hi.posts]

theorem Accounted.unpended (hi : Accounted w g ph) (hq : (ph t).pending = none) : upd g.pending t none = g.pending := by
  funext i
  by_cases hit : i = t
  · subst hit
    rw [upd_same,hi.posts,hq]
  · rw [upd_other _ _ hit]

-- A step of a call that holds no value back, before it or after.
theorem Accounted.passes (hi : Accounted w g ph) (hq : (ph t).pending = none) (hp : p.pending = none) :
    Accounted w g (upd ph t p) :=
  ⟨hi.same,fun i => by rw [← hi.posted hp.symm i,hi.unpended hq],hi.live⟩

theorem Accounted.holds (hi : Accounted w g ph) {k : String} {v : Value} (hl : w.lookup k = some v)
    (hp : p.pending = some (k,v)) : Accounted w { g with pending := upd g.pending t (some (k,v)) } (upd ph t p) := by
  refine ⟨hi.same,hi.posted hp.symm,fun i k' v' hpend => ?_⟩
  change upd g.pending t (some (k,v)) i = some (k',v') at hpend
  by_cases hit : i = t
  · subst hit
    simp only [upd_same,Option.some.injEq,Prod.mk.injEq] at hpend
    obtain ⟨rfl,rfl⟩ := hpend
    exact hl
  · exact hi.live i k' v' (by rwa [upd_other _ _ hit] at hpend)

theorem Accounted.releases (hi : Accounted w g ph) (hp : p.pending = none) :
    Accounted w { g with pending := upd g.pending t none } (upd ph t p) := by
  refine ⟨hi.same,hi.posted hp.symm,fun i k v hpend => ?_⟩
  change upd g.pending t none i = some (k,v) at hpend
  by_cases hit : i = t
  · subst hit
    rw [upd_same] at hpend
    cases hpend
  · exact hi.live i k v (by rwa [upd_other _ _ hit] at hpend)

-- A write keeps what the pending calls have read when it writes the same value under their key.
theorem Accounted.stores (hi : Accounted w g ph) {k : String} {v : Value} {ex : Option Nat} (hx : ∀ n, ex = some n → 0 < n)
    (hsame : ∀ i v', g.pending i = some (k,v') → v' = v) :
    Accounted (w.store k v ex) { g with held := upd g.held k (some ⟨v,ex.map (fun n => w.now + n * 1000)⟩) } ph := by
  refine ⟨by simp only [World.store,hi.same],hi.posts,fun i k' v' hp => ?_⟩
  rw [store_lookup hx]
  split
  · rename_i hk
    subst hk
    rw [hsame i v' hp]
  · exact hi.live i k' v' hp

theorem Accounted.erases (hi : Accounted w g ph) {k : String} (hk : ∀ i v, g.pending i ≠ some (k,v)) :
    Accounted (w.erase k) { g with held := upd g.held k none } ph := by
  refine ⟨by simp only [World.erase,hi.same],hi.posts,fun i k' v' hp => ?_⟩
  rw [erase_lookup]
  · exact hi.live i k' v' hp
  · rintro rfl
    exact hk i v' hp

theorem Accounted.step {s : Store} (hi : Accounted s.world g ph) (httl : ∀ n, b.ttl = some n → 0 < n)
    (hm : RefreshMove b (ph t) o r p) (ha : act rep t o s.world r h = some w')
    (hadm : Undisturbed s g (.task t o r h)) : Accounted w' (settle s (.task t o r h) g) (upd ph t p) := by
  generalize hq : ph t = q at hm
  cases hm with
  | found k v x hx =>
    obtain ⟨hl,rfl⟩ := act_get ha
    simp only [settle,hx,Option.map_some]
    exact hi.holds (by rw [← hl,asText_some hx]) rfl
  | absent k v hx =>
    have hnone : (ph t).pending = none := by
      rw [hq]
      rfl
    obtain ⟨hl,rfl⟩ := act_get ha
    simp only [settle,hx,Option.map_none,hi.unpended hnone]
    exact hi.passes hnone rfl
  | failed k e =>
    simp only [act] at ha
    split at ha
    · cases ha
      exact hi.passes (by rw [hq]; rfl) rfl
    · cases ha
  | refreshed k v r =>
    have hpend : g.pending t = some (k,.text v) := by
      rw [hi.posts,hq]
      rfl
    have hl := hi.live t k _ hpend
    have hheld : liveValue s.world.now (g.held k) = some (.text v) := by
      rw [← hi.same,← lookup_live]
      exact hl
    simp only [settle,hpend,hheld,and_true]
    rw [act_set_applied ha]
    split
    · refine Accounted.releases (Accounted.stores hi httl (fun i v' hp => ?_)) rfl
      exact Option.some.inj ((hi.live i k v' hp).symm.trans hl)
    · exact hi.releases rfl
  | wrote k v r =>
    have hnone : (ph t).pending = none := by
      rw [hq]
      rfl
    have hpend : g.pending t = none := by
      rw [hi.posts,hnone]
    simp only [settle,hpend]
    rw [act_set_applied ha]
    split
    · rename_i happ
      exact Accounted.passes (hi.stores httl (hadm happ hpend)) hnone rfl
    · exact hi.passes hnone rfl
  | removed k r =>
    have hnone : (ph t).pending = none := by
      rw [hq]
      rfl
    simp only [settle]
    rw [act_del_applied ha]
    split
    · rename_i happ
      exact Accounted.passes (hi.erases (hadm happ)) hnone rfl
    · exact hi.passes hnone rfl

theorem accounted_run (httl : ∀ n, b.ttl = some n → 0 < n) {calls : Nat → CacheCall} {now : Nat} {s : Store}
    (hr : (machine rep).Run Undisturbed settle (startStore b calls now) ⟨fun _ => none,fun _ => none⟩ s g) :
    ∃ ph, Accounted s.world g ph ∧ ∀ t, Follows (RefreshMove b) (ph t) (s.pool t) (fun _ _ => True) := by
  refine hr.tracked (I := Accounted) (fun t => (calls t).phase b) (fun t => cache_follows b (calls t)) ?_ ?_ ?_
  · refine ⟨rfl,fun i => ?_,fun i k v hp => by cases hp⟩
    cases hc : calls i <;> rfl
  · intro s g ph t o r h w p hi _ hadm hm ha
    exact hi.step httl hm ha hadm
  · intro s g ph e w hi hadm he
    refine ⟨(env_redis he).trans hi.same,hi.posts,fun i k v hp => ?_⟩
    have hl := hi.live i k v hp
    obtain ⟨x,hx,rfl,hlive⟩ := lookup_some hl
    refine lookup_entry (by rw [env_redis he,hx]) ?_
    by_cases htick : ∃ ms, e = .tick ms
    · obtain ⟨ms,rfl⟩ := htick
      cases he
      exact hadm i k _ x hp hx
    · rw [env_still he (fun ms hms => htick ⟨ms,hms⟩)]
      exact hlive

-- A key reads as what was last set, deleted or expired under it, prolonged by the reads.
theorem refresh_prolongs (httl : ∀ n, b.ttl = some n → 0 < n) {calls : Nat → CacheCall} {now : Nat} {s : Store}
    (hr : (machine rep).Run Undisturbed settle (startStore b calls now) ⟨fun _ => none,fun _ => none⟩ s g) (k : String) :
    s.world.lookup k = liveValue s.world.now (g.held k) := by
  obtain ⟨ph,hi,_⟩ := accounted_run httl hr
  rw [← hi.same,lookup_live]

end Ledger

section Samples

instance : DecidableEq (Option (Except Exc (Option String))) := inferInstance

def sampleBackend : RedisBackend := ⟨some 60,"mcp"⟩

def sampleKey : String := sampleBackend.k (UserSessionCache.key sampleOid.text)

def rivals : Nat → CacheCall
  | 0 => .userSet sampleOid.text "v1"
  | 1 => .userGet sampleOid.text
  | _ => .userSet sampleOid.text "v2"

def reading : List Step := [answers 0 (.set sampleKey (.text "v1") (some 60)) (),answers 1 (.get sampleKey) (some (.text "v1"))]

def refreshing : List Step := [answers 1 (.set sampleKey (.text "v1") (some 60)) ()]

-- The value is replaced between the GET and the SET of a get: afterwards the key reads as the old one.
theorem refresh_resurrects : ∃ s : Store, ∃ g : Ledger,
    (machine id).Run (fun _ _ l => succeeds l = true) settle (startStore sampleBackend rivals 0) ⟨fun _ => none,fun _ => none⟩ s g ∧
    (s.pool 2).outcome = some (.ok none) ∧ (s.pool 1).outcome = some (.ok (some "v1")) ∧
    s.world.lookup sampleKey = some (.text "v1") ∧ liveValue s.world.now (g.held sampleKey) = some (.text "v2") := by
  obtain ⟨s,g,hr,hn⟩ : ∃ s g, (machine id).Run (fun _ _ l => succeeds l = true) settle
      (startStore sampleBackend rivals 0) ⟨fun _ => none,fun _ => none⟩ s g ∧
      (((s.pool 2).outcome,(s.pool 1).outcome),s.world.lookup sampleKey,liveValue s.world.now (g.held sampleKey)) =
        ((some (.ok none),some (.ok (some "v1"))),some (.text "v1"),some (.text "v2")) :=
    Machine.replay_reaches (fun _ _ l => succeeds l)
      (reading ++ [answers 2 (.set sampleKey (.text "v2") (some 60)) ()] ++ refreshing) (fun _ _ _ hl => hl) (by decide +kernel)
  simp only [Prod.mk.injEq] at hn
  exact ⟨s,g,hr,hn.1.1,hn.1.2,hn.2.1,hn.2.2⟩

def loneReader (_ : Store) (g : Ledger) : Step → Bool
  | .task t ⟨.get _,_⟩ _ _ => t = 1
  | .task t ⟨.set _ _ _,_⟩ _ _ => (g.pending 1).isNone || (g.pending t).isSome
  | .task _ ⟨.del _,_⟩ _ _ => (g.pending 1).isNone
  | .env (.tick _) => (g.pending 1).isNone
  | _ => true

theorem lone_settle {s : Store} {g : Ledger} {l : Step} (hi : ∀ i, i ≠ 1 → g.pending i = none) (hl : loneReader s g l = true) :
    ∀ i, i ≠ 1 → (settle s l g).pending i = none := by
  intro i h1
  have hn := hi i h1
  match l with
  | .env e => exact hn
  | .task t ⟨c,b⟩ r h =>
    cases c with
    | get k =>
      cases r with
      | error e => exact hn
      | ok v =>
        obtain rfl : t = 1 := by simpa [loneReader] using hl
        exact (upd_other _ _ h1).trans hn
    | set k v ex =>
      simp only [settle]
      split
      · split <;> exact hn
      · by_cases hit : i = t
        · subst hit
          exact upd_same _ _ _
        · exact (upd_other _ _ hit).trans hn
    | del k =>
      simp only [settle]
      split <;> exact hn
    | _ => exact hn

theorem lone_undisturbed {s : Store} {g : Ledger} {l : Step} (hi : ∀ i, i ≠ 1 → g.pending i = none)
    (hl : loneReader s g l = true) : Undisturbed s g l := by
  have hnone : (g.pending 1).isNone = true → ∀ i, g.pending i = none := by
    intro h1 i
    by_cases hi1 : i = 1
    · rw [hi1]
      exact Option.isNone_iff_eq_none.mp h1
    · exact hi i hi1
  match l with
  | .env (.tick ms) =>
    intro i k v e hp
    rw [hnone hl] at hp
    cases hp
  | .env (.built _) => trivial
  | .env (.vanish _) => trivial
  | .env (.imageState _ _) => trivial
  | .task t ⟨c,b⟩ r h =>
    cases c with
    | set k v ex =>
      intro _ ht i v' hp
      rw [hnone (by simpa [loneReader,ht] using hl)] at hp
      cases hp
    | del k =>
      intro _ i v hp
      rw [hnone hl] at hp
      cases hp
    | _ => trivial

-- The value is set, read after forty seconds and still there forty seconds later.
theorem refresh_prolongs_read : ∃ s : Store, ∃ g : Ledger,
    (machine id).Run Undisturbed settle (startStore sampleBackend rivals 0) ⟨fun _ => none,fun _ => none⟩ s g ∧
    (s.world.now,s.world.lookup sampleKey) = (80000,some (.text "v1")) ∧
    s.world.lookup sampleKey = liveValue s.world.now (g.held sampleKey) := by
  obtain ⟨s,g,hr,hn⟩ : ∃ s g, (machine id).Run (fun s g l => loneReader s g l = true) settle
      (startStore sampleBackend rivals 0) ⟨fun _ => none,fun _ => none⟩ s g ∧
      (s.world.now,s.world.lookup sampleKey) = (80000,some (.text "v1")) :=
    Machine.replay_reaches loneReader (reading.take 1 ++ [.env (.tick 40000)] ++ reading.drop 1 ++ refreshing ++ [.env (.tick 40000)])
      (fun _ _ _ hl => hl) (by decide +kernel)
  obtain ⟨hrun,_⟩ : (machine id).Run Undisturbed settle (startStore sampleBackend rivals 0)
      ⟨fun _ => none,fun _ => none⟩ s g ∧ ∀ i, i ≠ 1 → g.pending i = none := by
    clear hn
    induction hr with
    | start => exact ⟨.start,fun _ _ => rfl⟩
    | step _ hl hf ih => exact ⟨ih.1.step (lone_undisturbed ih.2 hl) hf,lone_settle ih.2 hl⟩
  exact ⟨s,g,hrun,hn,refresh_prolongs (fun n hn => by cases hn; decide) hrun sampleKey⟩

end Samples

end IdentityAwareMcp
