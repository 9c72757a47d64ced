import IdentityAwareMcp.Model.Membership
import IdentityAwareMcp.Control.Keys

namespace IdentityAwareMcp

open Coop

section Checks

structure Check where
  group : Group
  token : Option AccessToken

def Check.oid (c : Check) : Option String := c.token.bind AccessToken.oid

def Directory.groupId (d : Directory) : Group → String
  | .diagnose => d.diagnoseGroupId
  | .action => d.actionGroupId

def Check.task (d : Directory) (c : Check) : G Bool :=
  match c.group with
  | .diagnose => requireDiagnose d c.token
  | .action => requireAction d c.token

abbrev Gate := Coop.Sys GroupOp GroupOp.Ans Exc Nat Memory Bool

abbrev GateStep := Coop.Label GroupOp GroupOp.Ans Exc Nat Unit MemoryEnv

def startChecks (d : Directory) (checks : Nat → Check) (now : Nat) : Gate :=
  ⟨⟨now,fun _ => none⟩,fun t => (checks t).task d⟩

inductive Checking where
  | look
  | exchange
  | ask (bearer : String)
  | store (groups : List String)
  | ended (allowed : Bool)

variable (d : Directory) (c : Check)

inductive CheckMove : Checking → (o : GroupOp) → Except Exc o.Ans → Checking → Prop
  | cached (oid : String) (groups : List String) : c.oid = some oid →
      CheckMove .look (.cacheGet (GroupCache.key oid)) (.ok (some groups)) (.ended (groups.contains (d.groupId c.group)))
  | uncached (oid : String) : c.oid = some oid → CheckMove .look (.cacheGet (GroupCache.key oid)) (.ok none) .exchange
  | lookFailed (oid : String) (e : Exc) : c.oid = some oid →
      CheckMove .look (.cacheGet (GroupCache.key oid)) (.error e) (.ended false)
  | granted (tk : AccessToken) (bearer : String) : c.token = some tk →
      CheckMove .exchange (.acquireTokenOnBehalfOf tk.token) (.ok (some bearer)) (.ask bearer)
  | refused (tk : AccessToken) : c.token = some tk →
      CheckMove .exchange (.acquireTokenOnBehalfOf tk.token) (.ok none) (.ended false)
  | exchangeFailed (tk : AccessToken) (e : Exc) : c.token = some tk →
      CheckMove .exchange (.acquireTokenOnBehalfOf tk.token) (.error e) (.ended false)
  | answered (bearer : String) (r : Reply) (value : Option (List String)) (p : Checking) : r.isSuccess = true →
      r.body = .groups value →
      p = (if c.oid.isSome then .store (value.getD []).dedup
        else .ended ((value.getD []).dedup.contains (d.groupId c.group))) →
      CheckMove (.ask bearer) (.checkMemberGroups bearer d.knownGroups) (.ok r) p
  | rejected (bearer : String) (r : Reply) : r.isSuccess = false ∨ r.body = .malformed →
      CheckMove (.ask bearer) (.checkMemberGroups bearer d.knownGroups) (.ok r) (.ended false)
  | askFailed (bearer : String) (e : Exc) :
      CheckMove (.ask bearer) (.checkMemberGroups bearer d.knownGroups) (.error e) (.ended false)
  | stored (oid : String) (groups : List String) (u : Unit) : c.oid = some oid →
      CheckMove (.store groups) (.cacheSet (GroupCache.key oid) groups) (.ok u)
        (.ended (groups.contains (d.groupId c.group)))
  | storeFailed (oid : String) (groups : List String) (e : Exc) : c.oid = some oid →
      CheckMove (.store groups) (.cacheSet (GroupCache.key oid) groups) (.error e) (.ended false)

def Check.phase : Checking :=
  match c.token with
  | none => .ended false
  | some tk => if tk.oid.isSome then .look else .exchange

def Yields : Checking → Except Exc (List String) → Prop
  | p, .ok groups => p = .ended (groups.contains (d.groupId c.group))
  | p, .error _ => p = .ended false

theorem request_follows {α : Type} {mv : Checking → (o : GroupOp) → Except Exc o.Ans → Checking → Prop} {o : GroupOp}
    {p : Checking} {f : o.Ans → G α} {Q : Checking → Except Exc α → Prop}
    (hok : ∀ a, ∃ p', mv p o (.ok a) p' ∧ Follows mv p' (f a) Q)
    (herr : ∀ e, ∃ p', mv p o (.error e) p' ∧ Q p' (.error e)) : Follows mv p ((request o).bind f) Q := by
  intro r
  cases r with
  | ok a => exact hok a
  | error e => exact herr e

theorem check_oid {c : Check} {tk : AccessToken} (ht : c.token = some tk) : c.oid = tk.oid := by
  rw [Check.oid,ht]
  rfl

theorem resolveGroups_follows {tk : AccessToken} (ht : c.token = some tk) :
    Follows (CheckMove d c) .exchange (resolveGroups d tk) (Yields d c) := by
  have hoid : c.oid = tk.oid := check_oid ht
  refine request_follows (fun granted => ?_) (fun e => ⟨_,.exchangeFailed tk e ht,rfl⟩)
  cases granted with
  | none => exact ⟨_,.refused tk ht,rfl⟩
  | some bearer =>
    refine ⟨_,.granted tk bearer ht,request_follows (fun r => ?_) (fun e => ⟨_,.askFailed bearer e,rfl⟩)⟩
    cases hs : r.isSuccess with
    | false => exact ⟨_,.rejected bearer r (.inl hs),by simp [Follows,Yields]⟩
    | true =>
      cases hb : r.body with
      | malformed => exact ⟨_,.rejected bearer r (.inr hb),by simp [Follows,Yields]⟩
      | groups value =>
        refine ⟨_,.answered bearer r value _ hs hb rfl,?_⟩
        simp only [Bool.not_true,Bool.false_eq_true,if_false,hoid]
        cases ho : tk.oid with
        | none => rfl
        | some oid =>
          exact request_follows (fun u => ⟨_,.stored oid _ u (hoid.trans ho),rfl⟩)
            (fun e => ⟨_,.storeFailed oid _ e (hoid.trans ho),rfl⟩)

theorem userGroups_follows {tk : AccessToken} (ht : c.token = some tk) :
    Follows (CheckMove d c) (c.phase) (userGroups d tk) (Yields d c) := by
  have hoid : c.oid = tk.oid := check_oid ht
  simp only [Check.phase,ht,userGroups]
  cases ho : tk.oid with
  | none => exact resolveGroups_follows d c ht
  | some oid =>
    refine request_follows (fun found => ?_) (fun e => ⟨_,.lookFailed oid e (hoid.trans ho),rfl⟩)
    cases found with
    | none => exact ⟨_,.uncached oid (hoid.trans ho),resolveGroups_follows d c ht⟩
    | some groups => exact ⟨_,.cached oid groups (hoid.trans ho),rfl⟩

def Decides : Checking → Except Exc Bool → Prop
  | p, .ok b => p = .ended b
  | p, .error _ => p = .ended false

theorem check_follows : Follows (CheckMove d c) c.phase (c.task d) Decides := by
  have htask : c.task d = requireGroup d (d.groupId c.group) c.token := by
    rw [Check.task]
    cases c.group <;> rfl
  rw [htask]
  cases ht : c.token with
  | none =>
    simp only [Check.phase,ht]
    rfl
  | some tk =>
    refine (userGroups_follows d c ht).bind (fun p groups h => ?_) (fun p e h => h)
    cases h
    rfl

end Checks

section History

-- An exchange on behalf of a user: the user's token, and the bearer token given for it.
structure Grant where
  userAssertion : String
  bearer : String

-- A checkMemberGroups answer, with the user's token it was obtained with.
structure Answer where
  userAssertion : String
  groups : List String

-- When each check had its last answer, the exchange it made itself, the groups it then
-- received, when it stored them, and whether it failed on the way.
structure Book where
  last : Nat → Nat
  granted : Nat → Option Grant
  received : Nat → Option Answer
  stored : Nat → Option Nat
  failed : Nat → Bool

def Book.empty : Book := ⟨fun _ => 0,fun _ => none,fun _ => none,fun _ => none,fun _ => false⟩

def Book.fail (g : Book) (t : Nat) : Book := { g with failed := upd g.failed t true }

def note (s : Gate) (l : GateStep) (g : Book) : Book :=
  match l with
  | .task t o r _ =>
    let g := { g with last := upd g.last t s.world.now }
    match o, r with
    | .acquireTokenOnBehalfOf userAssertion, .ok (some bearer) =>
      { g with granted := upd g.granted t (some ⟨userAssertion,bearer⟩) }
    | .checkMemberGroups bearer _, .ok r =>
      match r.body, g.granted t with
      | .groups value, some grant =>
        if r.isSuccess = true ∧ grant.bearer = bearer then
          { g with received := upd g.received t (some ⟨grant.userAssertion,value.getD []⟩) }
        else g.fail t
      | _, _ => g.fail t
    | .cacheSet _ _, .ok _ => { g with stored := upd g.stored t (some s.world.now) }
    | .cacheGet _, .ok _ => g
    | _, _ => g.fail t
  | .env _ => g

variable (d : Directory) (checks : Nat → Check)

-- The answer that allows a check: its own, or one stored in the cache by a check of the same
-- user; in either case it was obtained with the token of the check that received it.
def Allowed (g : Book) (t : Nat) : Prop := ∃ i tk answer, g.received i = some answer ∧
  (checks i).token = some tk ∧ answer.userAssertion = tk.token ∧ tk.oid = (checks t).oid ∧
  d.groupId (checks t).group ∈ answer.groups ∧
  (i = t ∨ (checks t).oid ≠ none ∧ ∃ n, g.stored i = some n ∧ n ≤ g.last t ∧ g.last t < n + groupCacheTtl * 1000)

@[simp] def Checking.open : Checking → Bool
  | .look => true
  | .exchange => true
  | .ask _ => true
  | _ => false

structure Post (g : Book) (t : Nat) (p : Checking) : Prop where
  bearer : ∀ b, p = .ask b → ∃ tk, (checks t).token = some tk ∧ g.granted t = some ⟨tk.token,b⟩
  waiting : p.open = true → g.received t = none ∧ g.stored t = none
  failed : g.failed t = true → p = .ended false ∧ g.stored t = none
  storing : ∀ groups, p = .store groups → (checks t).oid ≠ none ∧ g.stored t = none ∧
    ∃ tk value, (checks t).token = some tk ∧ g.received t = some ⟨tk.token,value⟩ ∧ ∀ x, x ∈ groups → x ∈ value
  allowed : p = .ended true → Allowed d checks g t
  anonymous : (checks t).oid = none → p ≠ .look ∧ g.stored t = none

def Backed (g : Book) (key : String) (x : Cached) : Prop := ∃ i oid tk value, key = GroupCache.key oid ∧
  (checks i).token = some tk ∧ tk.oid = some oid ∧ g.received i = some ⟨tk.token,value⟩ ∧
  (∀ y, y ∈ x.value → y ∈ value) ∧ g.stored i = some x.stored

structure Justified (m : Memory) (g : Book) (ph : Nat → Checking) : Prop where
  posts : ∀ t, Post d checks g t (ph t)
  cached : ∀ key x, m.cache key = some x → x.stored ≤ m.now ∧ Backed checks g key x

-- What the history gains by a step of one check.
structure Book.Extends (g g' : Book) (t : Nat) : Prop where
  last : ∀ i, i ≠ t → g'.last i = g.last i
  granted : ∀ i, i ≠ t → g'.granted i = g.granted i
  failed : ∀ i, i ≠ t → g'.failed i = g.failed i
  received : ∀ i, i ≠ t → g'.received i = g.received i
  stored : ∀ i, i ≠ t → g'.stored i = g.stored i
  answer : ∀ v, g.received t = some v → g'.received t = some v
  time : ∀ n, g.stored t = some n → g'.stored t = some n

variable {d checks} {m m' : Memory} {g g' : Book} {ph : Nat → Checking} {t : Nat} {o : GroupOp} {r : Except Exc o.Ans}
variable {p : Checking}

theorem Book.Extends.received_some (hg : g.Extends g' t) {i : Nat} {v : Answer} (hi : g.received i = some v) :
    g'.received i = some v := by
  by_cases hit : i = t
  · subst hit
    exact hg.answer v hi
  · rw [hg.received i hit,hi]

theorem Book.Extends.stored_some (hg : g.Extends g' t) {i n : Nat} (hi : g.stored i = some n) : g'.stored i = some n := by
  by_cases hit : i = t
  · subst hit
    exact hg.time n hi
  · rw [hg.stored i hit,hi]

theorem Backed.extends (hg : g.Extends g' t) {key : String} {x : Cached} (hb : Backed checks g key x) :
    Backed checks g' key x := by
  obtain ⟨i,oid,tk,value,hk,ht,ho,hr,hv,hs⟩ := hb
  exact ⟨i,oid,tk,value,hk,ht,ho,hg.received_some hr,hv,hg.stored_some hs⟩

theorem Post.extends (hg : g.Extends g' t) {i : Nat} (hit : i ≠ t) (hp : Post d checks g i p) : Post d checks g' i p where
  bearer b hb := by
    rw [hg.granted i hit]
    exact hp.bearer b hb
  waiting ho := by
    rw [hg.received i hit,hg.stored i hit]
    exact hp.waiting ho
  failed hf := by
    rw [hg.failed i hit] at hf
    rw [hg.stored i hit]
    exact hp.failed hf
  storing groups hs := by
    rw [hg.received i hit,hg.stored i hit]
    exact hp.storing groups hs
  allowed ha := by
    obtain ⟨j,tk,answer,hr,ht,hu,ho,hm,hc⟩ := hp.allowed ha
    refine ⟨j,tk,answer,hg.received_some hr,ht,hu,ho,hm,hc.imp id ?_⟩
    rintro ⟨hn,n,hs,hle,hlt⟩
    rw [hg.last i hit]
    exact ⟨hn,n,hg.stored_some hs,hle,hlt⟩
  anonymous ha := by
    rw [hg.stored i hit]
    exact hp.anonymous ha

theorem Justified.move (hi : Justified d checks m g ph) (hg : g.Extends g' t) (hnow : m'.now = m.now) (hp : Post d checks g' t p)
    (hcache : ∀ key x, m'.cache key = some x → m.cache key = some x ∨ x.stored = m.now ∧ Backed checks g' key x) :
    Justified d checks m' g' (upd ph t p) where
  posts i := by
    by_cases hit : i = t
    · subst hit
      rw [upd_same]
      exact hp
    · rw [upd_other _ _ hit]
      exact (hi.posts i).extends hg hit
  cached key x hx := by
    rw [hnow]
    rcases hcache key x hx with hx | ⟨hs,hb⟩
    · exact ⟨(hi.cached key x hx).1,(hi.cached key x hx).2.extends hg⟩
    · exact ⟨Nat.le_of_eq hs,hb⟩

theorem failed_post (hs : g.stored t = none) : Post d checks g t (.ended false) :=
  ⟨fun _ h => (by cases h),fun h => (by cases h),fun _ => ⟨rfl,hs⟩,fun _ h => (by cases h),fun h => (by cases h),
    fun _ => ⟨by simp,hs⟩⟩

theorem get_cached {key : String} {groups : List String} (h : m.get key = some groups) :
    ∃ x, m.cache key = some x ∧ x.value = groups ∧ m.now < x.stored + groupCacheTtl * 1000 := by
  simp only [Memory.get] at h
  split at h
  · rename_i x hx
    split at h
    · cases h
      exact ⟨x,hx,rfl,‹_›⟩
    · cases h
  · cases h

theorem key_injective {oid oid' : String} (h : GroupCache.key oid = GroupCache.key oid') : oid = oid' :=
  append_injective "groups:" h

theorem open_unfailed (hp : Post d checks g t p) (ho : p ≠ .ended false) : g.failed t = false := by
  by_contra hf
  exact ho (hp.failed (by simpa using hf)).1

theorem extends_last {n : Nat} : g.Extends { g with last := upd g.last t n } t :=
  ⟨fun _ hi => upd_other _ _ hi,fun _ _ => rfl,fun _ _ => rfl,fun _ _ => rfl,fun _ _ => rfl,fun _ h => h,fun _ h => h⟩

theorem extends_fail {n : Nat} : g.Extends (Book.fail { g with last := upd g.last t n } t) t :=
  ⟨fun _ hi => upd_other _ _ hi,fun _ _ => rfl,fun _ hi => upd_other _ _ hi,fun _ _ => rfl,fun _ _ => rfl,fun _ h => h,
    fun _ h => h⟩

theorem Justified.fails (hi : Justified d checks m g ph) (hs : g.stored t = none) :
    Justified d checks m (Book.fail { g with last := upd g.last t m.now } t) (upd ph t (.ended false)) :=
  hi.move extends_fail rfl (failed_post hs) (fun _ _ hx => .inl hx)

theorem ended_post {b : Bool} (hf : g.failed t = false) (ha : b = true → Allowed d checks g t)
    (hn : (checks t).oid = none → g.stored t = none) : Post d checks g t (.ended b) :=
  ⟨fun _ h => (by cases h),fun h => (by cases h),fun h => absurd (hf.symm.trans h) (by simp),fun _ h => (by cases h),
    fun h => ha (Checking.ended.inj h),fun h => ⟨by simp,hn h⟩⟩

-- A check that finds its user's groups in the cache is allowed by the check that stored them.
theorem Justified.finds (hi : Justified d checks m g ph) (hf : g.failed t = false) {oid : String} {groups : List String}
    (ho : (checks t).oid = some oid) (hv : m.get (GroupCache.key oid) = some groups) :
    Justified d checks m { g with last := upd g.last t m.now }
      (upd ph t (.ended (groups.contains (d.groupId (checks t).group)))) := by
  obtain ⟨x,hx,rfl,hlt⟩ := get_cached hv
  obtain ⟨hle,i,oid',tk,value,hk,ht,hoi,hr,hv,hs⟩ := hi.cached _ x hx
  refine hi.move extends_last rfl (ended_post hf (fun h => ?_) (fun h => (by rw [ho] at h; cases h))) (fun _ _ hx => .inl hx)
  refine ⟨i,tk,_,hr,ht,rfl,?_,hv _ (by simpa using h),.inr ⟨by rw [ho]; simp,x.stored,hs,?_,?_⟩⟩
  · rw [hoi,ho,key_injective hk]
  · exact Nat.le_trans hle (Nat.le_of_eq (upd_same _ _ _).symm)
  · exact Nat.lt_of_le_of_lt (Nat.le_of_eq (upd_same _ _ _)) hlt

-- It receives the answer to its own request, and stores it or decides at once.
theorem Justified.receives (hi : Justified d checks m g ph) {bearer : String} (hq : ph t = .ask bearer) {tk : AccessToken}
    (ht : (checks t).token = some tk) (value : List String) :
    Justified d checks m { g with last := upd g.last t m.now, received := upd g.received t (some ⟨tk.token,value⟩) }
      (upd ph t (if (checks t).oid.isSome then .store value.dedup else .ended (value.dedup.contains (d.groupId (checks t).group)))) := by
  have hpost := hq ▸ hi.posts t
  have hf := open_unfailed hpost (by simp)
  obtain ⟨hrec,hsto⟩ := hpost.waiting rfl
  refine hi.move ⟨fun _ hi => upd_other _ _ hi,fun _ _ => rfl,fun _ _ => rfl,fun _ hi => upd_other _ _ hi,fun _ _ => rfl,
    fun v hv => (by rw [hrec] at hv; cases hv),fun _ h => h⟩ rfl ?_ (fun _ _ hx => .inl hx)
  split
  · rename_i ho
    refine ⟨fun b h => (by cases h),fun h => (by cases h),fun h => absurd (hf.symm.trans h) (by simp),?_,
      fun h => (by cases h),fun h => (by rw [h] at ho; cases ho)⟩
    rintro groups ⟨⟩
    exact ⟨fun h => (by rw [h] at ho; cases ho),hsto,tk,_,ht,upd_same _ _ _,fun x hx => List.mem_dedup.mp hx⟩
  · exact ended_post hf (fun h => ⟨t,tk,_,upd_same _ _ _,ht,rfl,(check_oid ht).symm,by simpa using h,.inl rfl⟩) (fun _ => hsto)

theorem Justified.stores (hi : Justified d checks m g ph) {oid : String} {groups : List String} (hq : ph t = .store groups)
    (ho : (checks t).oid = some oid) :
    Justified d checks { m with cache := upd m.cache (GroupCache.key oid) (some ⟨groups,m.now⟩) }
      { g with last := upd g.last t m.now, stored := upd g.stored t (some m.now) }
      (upd ph t (.ended (groups.contains (d.groupId (checks t).group)))) := by
  have hpost := hq ▸ hi.posts t
  have hf := open_unfailed hpost (by simp)
  obtain ⟨hn,hsto,tk,value,ht,hrec,hmem⟩ := hpost.storing groups rfl
  refine hi.move ⟨fun _ hi => upd_other _ _ hi,fun _ _ => rfl,fun _ _ => rfl,fun _ _ => rfl,fun _ hi => upd_other _ _ hi,
    fun _ h => h,fun n hn => (by rw [hsto] at hn; cases hn)⟩ rfl
    (ended_post hf (fun h => ?_) (fun h => absurd h hn)) ?_
  · exact ⟨t,tk,_,hrec,ht,rfl,(check_oid ht).symm,hmem _ (by simpa using h),.inl rfl⟩
  · intro key x hx
    by_cases hk : key = GroupCache.key oid
    · subst hk
      simp only [upd_same,Option.some.injEq] at hx
      subst hx
      exact .inr ⟨rfl,t,oid,tk,value,rfl,ht,(check_oid ht).symm.trans ho,hrec,hmem,upd_same _ _ _⟩
    · simp only [upd_other _ _ hk] at hx
      exact .inl hx

theorem Justified.step {s : Gate} (hi : Justified d checks s.world g ph) (hm : CheckMove d (checks t) (ph t) o r p)
    (ha : s.world.act o r = some m') : Justified d checks m' (note s (.task t o r ()) g) (upd ph t p) := by
  have hpost := hi.posts t
  generalize hq : ph t = q at hm hpost
  cases hm with
  | cached oid groups ho =>
    simp only [Memory.act] at ha
    split at ha
    · rename_i hv
      cases ha
      exact hi.finds (open_unfailed hpost (by simp)) ho hv.symm
    · cases ha
  | uncached oid ho =>
    simp only [Memory.act] at ha
    split at ha <;> cases ha
    exact hi.move extends_last rfl ⟨fun b h => (by cases h),fun _ => hpost.waiting rfl,
      fun h => absurd (hpost.failed h).1 (by simp),fun b h => (by cases h),fun h => (by cases h),
      fun h => (by rw [ho] at h; cases h)⟩ (fun _ _ hx => .inl hx)
  | lookFailed oid e ho => cases ha
  | granted tk bearer ht =>
    cases ha
    refine hi.move ⟨fun _ hi => upd_other _ _ hi,fun _ hi => upd_other _ _ hi,fun _ _ => rfl,fun _ _ => rfl,fun _ _ => rfl,
      fun _ h => h,fun _ h => h⟩ rfl ⟨?_,fun _ => hpost.waiting rfl,fun h => absurd (hpost.failed h).1 (by simp),
      fun b h => (by cases h),fun h => (by cases h),fun h => ⟨by simp,(hpost.anonymous h).2⟩⟩ (fun _ _ hx => .inl hx)
    rintro b ⟨⟩
    exact ⟨tk,ht,upd_same _ _ _⟩
  | refused tk ht =>
    cases ha
    exact hi.fails (hpost.waiting rfl).2
  | exchangeFailed tk e ht =>
    cases ha
    exact hi.fails (hpost.waiting rfl).2
  | answered bearer r value p hs hb hp =>
    cases ha
    obtain ⟨tk,ht,hgranted⟩ := hpost.bearer bearer rfl
    have hnote : note s (.task t (.checkMemberGroups bearer d.knownGroups) (.ok r) ()) g =
        { g with last := upd g.last t s.world.now, received := upd g.received t (some ⟨tk.token,value.getD []⟩) } := by
      simp only [note,hb,hs,hgranted,and_self,if_true]
    rw [hnote,hp]
    exact hi.receives hq ht _
  | rejected bearer r hr =>
    cases ha
    have hnote : note s (.task t (.checkMemberGroups bearer d.knownGroups) (.ok r) ()) g =
        Book.fail { g with last := upd g.last t s.world.now } t := by
      rcases hr with hr | hr
      · simp only [note,hr,Bool.false_eq_true,false_and,if_false]
        split <;> rfl
      · simp only [note,hr]
    rw [hnote]
    exact hi.fails (hpost.waiting rfl).2
  | askFailed bearer e =>
    cases ha
    exact hi.fails (hpost.waiting rfl).2
  | stored oid groups u ho =>
    cases ha
    exact hi.stores hq ho
  | storeFailed oid groups e ho => cases ha

theorem check_starts (c : Check) : c.phase = .ended false ∨ (c.phase = .look ∧ c.oid ≠ none) ∨ c.phase = .exchange := by
  rw [Check.phase,Check.oid]
  cases c.token with
  | none => exact .inl rfl
  | some tk =>
    cases ho : tk.oid with
    | none => exact .inr (.inr (by simp [ho]))
    | some oid => exact .inr (.inl (by simp [ho]))

theorem justified_run {now : Nat} {s : Gate}
    (hr : authMachine.Run (fun _ _ _ => True) note (startChecks d checks now) .empty s g) :
    ∃ ph, Justified d checks s.world g ph ∧ ∀ t, Follows (CheckMove d (checks t)) (ph t) (s.pool t) Decides := by
  refine hr.tracked (I := Justified d checks) (fun t => (checks t).phase) (fun t => check_follows d (checks t)) ?_ ?_ ?_
  · refine ⟨fun t => ⟨fun b h => ?_,fun _ => ⟨rfl,rfl⟩,fun h => (by cases h),fun b h => ?_,fun h => ?_,fun h => ⟨fun h' => ?_,rfl⟩⟩,
      fun key x hx => by cases hx⟩
    · rcases check_starts (checks t) with hp | ⟨hp,_⟩ | hp <;> rw [hp] at h <;> cases h
    · rcases check_starts (checks t) with hp | ⟨hp,_⟩ | hp <;> rw [hp] at h <;> cases h
    · rcases check_starts (checks t) with hp | ⟨hp,_⟩ | hp <;> rw [hp] at h <;> cases h
    · rcases check_starts (checks t) with hp | ⟨hp,ho⟩ | hp
      · rw [hp] at h'
        cases h'
      · exact ho h
      · rw [hp] at h'
        cases h'
  · intro s g ph t o r h w p hi _ _ hm ha
    exact hi.step hm ha
  · intro s g ph e w hi _ he
    cases e with
    | tick ms =>
      cases he
      exact ⟨hi.posts,fun key x hx => ⟨Nat.le_trans (hi.cached key x hx).1 (Nat.le_add_right _ _),(hi.cached key x hx).2⟩⟩
    | evict key =>
      cases he
      refine ⟨hi.posts,fun key' x hx => hi.cached key' x ?_⟩
      by_cases hk : key' = key
      · subst hk
        simp at hx
      · simpa [hk] using hx

-- Who is allowed, and what a failed check and a check of an anonymous token leave alone.
theorem authorization_fresh {now : Nat} {s : Gate}
    (hr : authMachine.Run (fun _ _ _ => True) note (startChecks d checks now) .empty s g) (t : Nat) :
    ((s.pool t).outcome = some (.ok true) → Allowed d checks g t) ∧
    (g.failed t = true → (s.pool t).next = none ∧ (s.pool t).outcome ≠ some (.ok true) ∧ g.stored t = none) ∧
    ((checks t).oid = none → g.stored t = none ∧ ∀ o, (s.pool t).next = some o →
      (∀ key, o ≠ .cacheGet key) ∧ ∀ key value, o ≠ .cacheSet key value) := by
  obtain ⟨ph,hi,hph⟩ := justified_run hr
  have hpost := hi.posts t
  refine ⟨fun ho => hpost.allowed ((hph t).outcome ho),fun hf => ?_,fun ha => ⟨(hpost.anonymous ha).2,fun o hn => ?_⟩⟩
  · obtain ⟨hover,hs⟩ := hpost.failed hf
    refine ⟨?_,fun ho => ?_,hs⟩
    · cases hn : (s.pool t).next with
      | none => rfl
      | some o =>
        obtain ⟨p,hm⟩ := (hph t).next hn (.error .other)
        rw [hover] at hm
        cases hm
    · have hd := (hph t).outcome ho
      rw [hover] at hd
      cases hd
  · obtain ⟨p,hm⟩ := (hph t).next hn (.error .other)
    generalize hq : ph t = q at hm hpost
    cases hm with
    | lookFailed oid e ho => exact absurd rfl (hpost.anonymous ha).1
    | storeFailed oid groups e ho => exact absurd ha (hpost.storing groups rfl).1
    | exchangeFailed tk e ht => exact ⟨by simp,by simp⟩
    | askFailed b e => exact ⟨by simp,by simp⟩

end History

section Schedules

def sampleDirectory : Directory := ⟨"sre-diagnose","sre-action"⟩

-- Two tokens of one user, one after the other.
def sampleChecks (t : Nat) : Check := ⟨.action,some ⟨if t = 0 then "jwt0" else "jwt1",some [("oid","u1")]⟩⟩

def reply (t : Nat) (o : GroupOp) (a : o.Ans) : GateStep := .task t o (.ok a) ()

def firstCheck : List GateStep :=
  [reply 0 (.cacheGet "groups:u1") none,reply 0 (.acquireTokenOnBehalfOf "jwt0") (some "graph0"),
    reply 0 (.checkMemberGroups "graph0" sampleDirectory.knownGroups) ⟨200,.groups (some ["sre-action"])⟩,
    reply 0 (.cacheSet "groups:u1" ["sre-action"]) ()]

-- The second check comes a millisecond before the entry of the first one expires.
theorem authorization_fresh_cached : ∃ s g,
    authMachine.Run (fun _ _ _ => True) note (startChecks sampleDirectory sampleChecks 0) .empty s g ∧
    (s.pool 1).outcome = some (.ok true) ∧ g.last 1 = 299999 ∧ Allowed sampleDirectory sampleChecks g 1 := by
  obtain ⟨s,g,hr,hn⟩ : ∃ s g,
      authMachine.Run (fun _ _ _ => True) note (startChecks sampleDirectory sampleChecks 0) .empty s g ∧
      ((s.pool 1).outcome,g.last 1) = (some (.ok true),299999) :=
    Machine.replay_reaches (fun _ _ _ => true)
      (firstCheck ++ [.env (.tick 299999),reply 1 (.cacheGet "groups:u1") (some ["sre-action"])])
      (fun _ _ _ _ => trivial) (by decide +kernel)
  obtain ⟨ho,hl⟩ := Prod.mk.inj hn
  exact ⟨s,g,hr,ho,hl,(authorization_fresh hr 1).1 ho⟩

end Schedules

end IdentityAwareMcp
