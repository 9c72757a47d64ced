import IdentityAwareMcp.Safety.Tended

namespace IdentityAwareMcp

open Coop SandboxManager

section Pass

variable {cfg : Config} {jobs : Nat → Job} {rep : Nat → Nat} {t : Nat} {o : Op} {r : Except Exc o.Ans} {h : Hint}
variable {s : System} {w' : World} {g : Nat → Stay} {ph : Nat → Phase} {st st' : Reaping} {q : M Out} {id : String}

theorem dropping_dooms {gs : List Group} (hd : Dropping gs st) : st.dooms = none := by
  rcases hd with rfl | rfl <;> rfl

theorem next_dooms (g : Group) (ids : List String) (gs : List Group) : (Reaping.next g ids gs).dooms = none := by
  cases ids <;> rfl

-- A pass turns against a sandbox when it reads another value, or none, under its routing key.
theorem reap_dooms (hrm : ReapMove cfg st o r st') (hd : st'.dooms = some id) : st.dooms = some id ∨
    ∃ gr key ids gs v, st = .peek gr id key ids gs ∧ o = ⟨.get key,false⟩ ∧ v.bind Value.asText ≠ some id ∧
      HEq r (.ok v : Except Exc (Option Value)) := by
  cases hrm with
  | orphan gr i key ids gs v hv =>
    cases hd
    exact .inr ⟨gr,key,ids,gs,v,rfl,rfl,hv,HEq.rfl⟩
  | killed gr i ids gs r he => exact .inl hd
  | claimed n r st' hs => rcases hs with rfl | rfl <;> cases hd
  | listFailed g gs e st' hs => rw [dropping_dooms hs] at hd; cases hd
  | bindingFailed g i ids gs r st' hs => rw [dropping_dooms hs] at hd; cases hd
  | peekFailed g i k ids gs e st' hs => rw [dropping_dooms hs] at hd; cases hd
  | killFailed g i ids gs e st' he hs => rw [dropping_dooms hs] at hd; cases hd
  | unindexFailed g i ids gs e st' hs => rw [dropping_dooms hs] at hd; cases hd
  | listed g gs ids => rw [next_dooms] at hd; cases hd
  | unmanaged g i ids gs => rw [next_dooms] at hd; cases hd
  | alive g i k ids gs v hv => rw [next_dooms] at hd; cases hd
  | unindexed g i ids gs u => rw [next_dooms] at hd; cases hd
  | _ => cases hd

theorem reap_forgets (hrm : ReapMove cfg st o r st') (ha : act rep t o s.world r h = some w')
    (hrec : Recorded cfg s.world id) : Recorded cfg w' id ∨ st.dooms = some id := by
  by_cases ht : Touches t s.world o.cmd (indexKey cfg id)
  · cases hrm with
    | unindexed g i ids gs u => exact .inr (congrArg some (indexKey_injective cfg ht))
    | unindexFailed g i ids gs e st' hs => exact .inr (congrArg some (indexKey_injective cfg ht))
    | _ =>
      first
        | exact ht.elim
        | exact absurd ht.1 (key_ne (by simp))
  · exact .inl (fun h0 => hrec ((act_untouched ha ht).symm.trans h0))

theorem reap_uses (hi : Tended cfg jobs s g ph) (hp : ph t = .reap st) (hnow : s.world.now ≤ w'.now) {i : Nat}
    (hu : InUse cfg ⟨w',upd s.pool t q⟩ g i id) : InUse cfg s g i id := by
  obtain ⟨hid,hn,hret⟩ := hu
  have hit : i ≠ t := by
    rintro rfl
    obtain ⟨x,hx,_⟩ := hi.used i id hid
    have hs := hi.serves i
    rw [hp] at hs
    cases hs.symm.trans hx
  simp only [upd_other _ _ hit] at hn
  exact ⟨hid,hn,fun d hd => Nat.lt_of_le_of_lt hnow (hret d hd)⟩

theorem Abandoned.reap (ha : Abandoned cfg s g id) (hi : Tended cfg jobs s g ph) (hp : ph t = .reap st)
    (hrm : ReapMove cfg st o r st') (hact : act rep t o s.world r h = some w') :
    Abandoned cfg ⟨w',upd s.pool t q⟩ g id where
  made := by
    obtain ⟨b,hb⟩ := Option.ne_none_iff_exists'.mp ha.made
    obtain ⟨b',hb',_⟩ := act_grows hact id b hb
    simp [hb']
  unused := fun i hu => ha.unused i (reap_uses hi hp (Nat.le_of_eq (act_now hact).symm) hu)
  unbound := by
    intro x hl
    rw [lookup_congr (reap_keys hrm hact x) (act_now hact)] at hl
    exact ha.unbound x hl

-- What a pass finds unbound nobody uses.
theorem abandoned_orphan (hi : Tended cfg jobs s g ph) (hp : ph t = .reap st) {gr : Group} {key : String}
    {ids : List String} {gs : List Group} (hst : st = .peek gr id key ids gs) (hl : s.world.lookup key ≠ some (.text id))
    (hopen : ∀ i id x d, (jobs i).ctx = some x → key = ctxKey cfg x → InUse cfg s g i id → Recorded cfg s.world id →
      s.world.lookup key ≠ some (.text id) → (g i).expiry = some d → s.world.now < d) : Abandoned cfg s g id := by
  subst hst
  obtain ⟨hr,hc,x,rfl,hm⟩ := hi.looked t gr id key ids gs hp
  rcases hr with hrec | hr
  · refine ⟨hm.exists,fun i hu => ?_,fun y hy => ?_⟩
    · obtain ⟨y,hy,hmy⟩ := hi.used i id hu.1
      have hk : ctxKey cfg x = ctxKey cfg y := ctxKey_congr (hm.unique hmy)
      obtain ⟨d,hd⟩ := Option.ne_none_iff_exists'.mp (hc i hu.1)
      have hlt := hopen i id y d hy hk hu hrec hl hd
      rcases hi.kept i y id d hy hu hd hrec with hle | ⟨e,he,hv⟩
      · omega
      · obtain ⟨d',hdl,hle⟩ := hi.covers i y id d e hy hu.1 hd he hv
        have hdead := dead_entry he hv hdl (hk ▸ hl)
        omega
    · obtain ⟨e,he,hv,_⟩ := lookup_some hy
      have hk := hm.unique (hi.isolated.bound y e id he hv)
      exact hl (ctxKey_congr hk ▸ hy)
  · exact hr

theorem Tended.reap (hi : Tended cfg jobs s g ph) (hp : ph t = .reap st) (hrm : ReapMove cfg st o r st')
    (ha : act rep t o s.world r h = some w') (hadm : Careful cfg jobs s g (.task t o r h)) :
    Tended cfg jobs ⟨w',upd s.pool t q⟩ g (upd ph t (.reap st')) := by
  have hnow := act_now ha
  have hkeys := reap_keys hrm ha
  have hctx : (jobs t).ctx = none := by
    have := hi.serves t
    rwa [hp] at this
  have huses : ∀ {i : Nat} {id : String}, InUse cfg ⟨w',upd s.pool t q⟩ g i id → InUse cfg s g i id :=
    reap_uses hi hp (Nat.le_of_eq hnow.symm)
  have hrecorded : ∀ {id : String}, Recorded cfg w' id → Recorded cfg s.world id := by
    intro id hr h0
    obtain ⟨e,he⟩ := Option.ne_none_iff_exists'.mp hr
    rw [reap_index hrm ha he] at h0
    cases h0
  have hjudged : ∀ {id : String}, Recorded cfg s.world id ∨ Abandoned cfg s g id →
      Recorded cfg w' id ∨ Abandoned cfg ⟨w',upd s.pool t q⟩ g id := by
    rintro id (hr | hr)
    · rcases reap_forgets hrm ha hr with hr | hd
      · exact .inl hr
      · exact .inr ((hi.doomed t st id hp hd).reap hi hp hrm ha)
    · exact .inr (hr.reap hi hp hrm ha)
  constructor
  case serves => exact forall_upd (serves_move (reap_move hp hrm) (hi.serves t)) hi.serves
  case isolated => exact hi.isolated.step (reap_move hp hrm) ha
  case suits => exact fun i x command st₀ hpi => hi.suits i x command st₀ (reap_call hpi)
  case used =>
    intro i id hid
    obtain ⟨x,hx,hm⟩ := hi.used i id hid
    exact ⟨x,hx,reap_made hp hrm ha hm⟩
  case lone => exact hi.lone
  case early =>
    intro i d hd
    simp only [hnow]
    exact hi.early i d hd
  case timed =>
    intro x e id he hv
    simp only [hnow]
    exact hi.timed x e id (hkeys x ▸ he) hv
  case covers => exact fun i x id d e hx hid hex he hv => hi.covers i x id d e hx hid hex (hkeys x ▸ he) hv
  case bound => exact fun x e id he hv => hi.bound x e id (hkeys x ▸ he) hv
  case kept =>
    intro i x id d hx hu hex hrec
    simp only [hnow,hkeys]
    exact hi.kept i x id d hx (huses hu) hex (hrecorded hrec)
  case index =>
    intro id oid sid gr dl he
    obtain ⟨hc,x,hx,hm⟩ := hi.index id oid sid gr dl (reap_index hrm ha he)
    exact ⟨hc,x,hx,reap_made hp hrm ha hm⟩
  case looked =>
    intro i gr id key ids gs hpi
    rcases reap_step hpi with ⟨_,rfl⟩ | ⟨_,hpi⟩
    · rcases reap_judges hrm ha rfl with ⟨_,_,_,_,oid,sid,gr',dl,h,he⟩ | ⟨_,_,_,_,_,_,h,_⟩
      · cases h
        obtain ⟨hc,x,hx,hm⟩ := hi.index id oid sid gr' dl he
        exact ⟨hjudged (.inl (fun h0 => by cases he.symm.trans h0)),hc,x,hx,reap_made hp hrm ha hm⟩
      · cases h
    · obtain ⟨hr,hc,x,hx,hm⟩ := hi.looked i gr id key ids gs hpi
      exact ⟨hjudged hr,hc,x,hx,reap_made hp hrm ha hm⟩
  case doomed =>
    intro i st₀ id hpi hd
    rcases reap_step hpi with ⟨_,rfl⟩ | ⟨_,hpi⟩
    · rcases reap_dooms hrm hd with hd | ⟨gr,key,ids,gs,v,hst,rfl,hv,hr⟩
      · exact (hi.doomed t st id hp hd).reap hi hp hrm ha
      · cases hr
        have hl : s.world.lookup key ≠ some (.text id) := by
          rw [← (act_get ha).1]
          rintro rfl
          exact hv rfl
        exact (abandoned_orphan hi hp hst hl (fun i id x d hx hk => hadm hctx i id x d hx hk)).reap hi hp hrm ha
    · exact (hi.doomed i st₀ id hpi hd).reap hi hp hrm ha

theorem Tended.env {e : Env} (hi : Tended cfg jobs s g ph) (he : env e s.world = some w') :
    Tended cfg jobs ⟨w',s.pool⟩ g ph := by
  have hnow := env_now he
  have hredis := env_redis he
  have hm : ∀ {key id : String}, Made cfg s.world ph key id → Made cfg w' ph key id :=
    fun hm => hm.mono (env_grows he) (fun _ _ _ st h => ⟨st,h⟩)
  have huses : ∀ {i : Nat} {id : String}, InUse cfg ⟨w',s.pool⟩ g i id → InUse cfg s g i id :=
    fun hu => ⟨hu.1,hu.2.1,fun d hd => Nat.lt_of_le_of_lt hnow (hu.2.2 d hd)⟩
  have hrecorded : ∀ {id : String}, Recorded cfg w' id ↔ Recorded cfg s.world id := by
    intro id
    simp only [Recorded,hredis]
  have habandoned : ∀ {id : String}, Abandoned cfg s g id → Abandoned cfg ⟨w',s.pool⟩ g id := by
    intro id ha
    refine ⟨?_,fun i hu => ha.unused i (huses hu),fun x hl => ha.unbound x (env_lookup he hl)⟩
    obtain ⟨b,hb⟩ := Option.ne_none_iff_exists'.mp ha.made
    obtain ⟨b',hb',_⟩ := env_grows he id b hb
    simp [hb']
  constructor
  case serves => exact hi.serves
  case isolated => exact hi.isolated.env he
  case suits => exact hi.suits
  case used =>
    intro i id hid
    obtain ⟨x,hx,h⟩ := hi.used i id hid
    exact ⟨x,hx,hm h⟩
  case lone => exact hi.lone
  case early => exact fun i d hd => Nat.le_trans (hi.early i d hd) (Nat.add_le_add_right hnow _)
  case timed =>
    intro x y id hy hv
    obtain ⟨d,hd,hle⟩ := hi.timed x y id (hredis ▸ hy) hv
    exact ⟨d,hd,Nat.le_trans hle (Nat.add_le_add_right hnow _)⟩
  case covers => exact fun i x id d y hx hid hex hy hv => hi.covers i x id d y hx hid hex (hredis ▸ hy) hv
  case bound => exact fun x y id hy hv => hi.bound x y id (hredis ▸ hy) hv
  case kept =>
    intro i x id d hx hu hex hrec
    simp only [hredis]
    rcases hi.kept i x id d hx (huses hu) hex (hrecorded.mp hrec) with hle | h
    · exact .inl (Nat.le_trans hle hnow)
    · exact .inr h
  case index =>
    intro id oid sid gr dl hy
    obtain ⟨hc,x,hx,h⟩ := hi.index id oid sid gr dl (hredis ▸ hy)
    exact ⟨hc,x,hx,hm h⟩
  case looked =>
    intro i gr id key ids gs hpi
    obtain ⟨hr,hc,x,hx,h⟩ := hi.looked i gr id key ids gs hpi
    exact ⟨hr.imp hrecorded.mpr habandoned,hc,x,hx,hm h⟩
  case doomed => exact fun i st₀ id hpi hd => habandoned (hi.doomed i st₀ id hpi hd)

end Pass

section Runs

variable {cfg : Config} {jobs : Nat → Job} {rep : Nat → Nat} {now : Nat}

theorem job_dooms {j : Job} {st : Reaping} (hp : j.phase cfg = .reap st) : st.dooms = none := by
  cases j with
  | reaperRound =>
    simp only [Job.phase,reapPhase] at hp
    split at hp <;> cases hp <;> rfl
  | _ => cases hp

theorem tended_start (hj : ∀ t oid sid, jobs t ≠ .endSession oid sid) :
    Tended cfg jobs (start cfg jobs now) (fun _ => .idle) (fun t => (jobs t).phase cfg) := by
  constructor
  case serves => exact fun t => serves_phase (hj t)
  case isolated => exact isolated_start (fun _ _ _ _ => start_call)
  case suits =>
    intro i x command st hp
    cases start_call hp
    exact ⟨by simp,rfl⟩
  case used => exact fun i id hid => by cases hid
  case lone => exact fun i j id hid => by cases hid
  case early => exact fun i d hd => by cases hd
  case timed => exact fun x e id he => by cases he
  case covers => exact fun i x id d e hx hid => by cases hid
  case bound => exact fun x e id he => by cases he
  case kept => exact fun i x id d hx hu => by cases hu.1
  case index => exact fun id oid sid gr dl he => by cases he
  case looked => exact fun i gr id key ids gs hp => by cases job_judges hp
  case doomed =>
    intro i st id hp hd
    rw [job_dooms hp] at hd
    cases hd

theorem tended_run (hj : ∀ t oid sid, jobs t ≠ .endSession oid sid) {s : System} {g : Nat → Stay}
    (hr : (machine rep).Run (Careful cfg jobs) (attend cfg jobs) (start cfg jobs now) (fun _ => .idle) s g) :
    ∃ ph, Tended cfg jobs s g ph ∧ ∀ t, Follows (PhaseMove cfg) (ph t) (s.pool t) Finished := by
  refine hr.followed (I := fun (s : System) g ph => Tended cfg jobs s g ph) (fun t => (jobs t).phase cfg)
    (fun t => job_follows cfg (jobs t)) (tended_start hj) ?_ ?_
  · intro s g ph t o k r h w p hi _ hadm hcall hm _ ha
    have hs := hi.serves t
    generalize hp : ph t = q at hm hs
    cases hm with
    | call ctx command st st' o r hcm =>
      have hctx : (jobs t).ctx = some ctx := hs
      simp only [attend,hctx]
      exact hi.call hp (by simp [hcall,Task.next]) hcm ha hadm
    | reap st st' o r hrm =>
      have hctx : (jobs t).ctx = none := hs
      simp only [attend,hctx]
      exact hi.reap hp hrm ha hadm
    | _ => exact hs.elim
  · intro s g ph e w hi _ he
    exact hi.env he

-- Whoever still runs in a sandbox that a pass is about to delete was given it a session TTL ago.
theorem partial_failures_spare (hj : ∀ t oid sid, jobs t ≠ .endSession oid sid) {s : System} {g : Nat → Stay}
    (hr : (machine rep).Run (Careful cfg jobs) (attend cfg jobs) (start cfg jobs now) (fun _ => .idle) s g)
    (t : Nat) (c : Client) (timed : Bool) (hn : (s.pool t).next = some ⟨.beginDelete c,timed⟩) (i : Nat) (command : String)
    (timed' : Bool) (hi : (s.pool i).next = some ⟨.exec c command,timed'⟩) :
    ∃ d, (g i).ret = some d ∧ d + cfg.sessionTtl * 1000 ≤ s.world.now := by
  obtain ⟨ph,ht,hph⟩ := tended_run hj hr
  obtain ⟨p,hm⟩ := (hph t).next hn (.error .other)
  obtain ⟨gr,ids,gs,hp⟩ := serving_deletes (ht.serves t) hm rfl
  have hspent := ht.doomed t _ c.sandboxId hp rfl
  obtain ⟨p',hm'⟩ := (hph i).next hi (.error .other)
  obtain ⟨x,command',st,hpi,hst⟩ := move_runs hm' rfl
  have hid := suits_client (ht.suits i x command' st hpi) hst
  by_contra hno
  exact hspent.unused i ⟨hid,by simp [hi],fun d hd => Nat.lt_of_not_le (fun hle => hno ⟨d,hd,hle⟩)⟩

end Runs

section Schedules

-- Two calls of one session; every other task is a reaper pass.
def pairParty : Nat → Job := fun t => if t < 2 then .exec (sampleCtx "s1" .action) sampleCommand else .reaperRound

-- Redis fails the calls, and only them; nothing else fails.
def faltering (_ : System) (_ : Nat → Stay) : Step → Bool
  | .task t _ (.error e) _ => decide (e = .redis) && (pairParty t).ctx.isSome
  | .env (.tick _) => true
  | .env _ => false
  | _ => true

def lost (t : Nat) (c : Cmd) : Step := .task t ⟨c,false⟩ (.error .redis) ⟨false,""⟩

def entry (cfg : Config) (t : Nat) (ctx : SessionCtx) (v : Option Value) : List Step :=
  [answers t (.acquire (routingKey ctx)) (),answers t (.get (ctxKey cfg ctx)) v]

def inspection (cfg : Config) (t : Nat) (ctx : SessionCtx) (ids : List String) (id : String) (v : Option Value) :
    List Step := (judging cfg t ctx ids id v).drop 2

-- The session key is not written, the reverse index is.
def unpublished (cfg : Config) (ctx : SessionCtx) : List Step :=
  entry cfg 0 ctx none ++ creation cfg 0 ctx "b1" ++ [lost 0 (.set (ctxKey cfg ctx) (.text "b1") cfg.sessions.ttl)] ++
    (publication cfg 0 ctx "b1").drop 1 ++ [answers 0 (.release (routingKey ctx)) ()] ++
    inspection cfg 2 ctx ["b1"] "b1" none

-- The refresh of the second call fails after a successful read, and it makes another sandbox.
def unrefreshed (cfg : Config) (ctx : SessionCtx) : List Step :=
  coldCall cfg 0 ctx "b1" ++ entry cfg 1 ctx (some (.text "b1")) ++
    [lost 1 (.set (ctxKey cfg ctx) (.text "b1") cfg.sessions.ttl)] ++ creation cfg 1 ctx "b2" ++
    publication cfg 1 ctx "b2" ++ [answers 1 (.release (routingKey ctx)) ()] ++
    inspection cfg 2 ctx ["b1","b2"] "b1" (some (.text "b2"))

-- Nothing fails, but the bootstrap takes a minute of the session key's life.
def belated (cfg : Config) (ctx : SessionCtx) : List Step :=
  entry cfg 0 ctx none ++ creation cfg 0 ctx "b1" ++ (publication cfg 0 ctx "b1").take 3 ++ [.env (.tick 60000)] ++
    (publication cfg 0 ctx "b1").drop 3 ++ [answers 0 (.release (routingKey ctx)) (),.env (.tick 1740001)] ++
    inspection cfg 2 ctx ["b1"] "b1" none

def untroubled (s : System) (g : Nat → Stay) (l : Step) : Bool := faltering s g l && smooth s g l

def plainRoute : String := ctxKey sampleConfig (sampleCtx "s1" .action)

-- On one replica a pass is about to delete the sandbox in which a call runs, less than a
-- session TTL after it was returned; v is what the session key holds.
def Orphans (adm : System → (Nat → Stay) → Step → Bool) (v : Option Value) : Prop := ∃ s g,
  (machine (fun _ => 0)).Run (fun s g l => adm s g l = true) (attend sampleConfig pairParty)
    (start sampleConfig pairParty 0) (fun _ => .idle) s g ∧ s.world.lookup plainRoute = v ∧
  (s.pool 0).next = some ⟨.exec ⟨"sg-action","b1"⟩ sampleCommand,false⟩ ∧
  (s.pool 2).next = some ⟨.beginDelete ⟨"sg-action","b1"⟩,false⟩ ∧
  ∃ d, (g 0).ret = some d ∧ s.world.now < d + sampleConfig.sessionTtl * 1000

theorem orphans {adm : System → (Nat → Stay) → Step → Bool} {v : Option Value} (ls : List Step) (d now : Nat)
    (hp : ((machine (fun _ => 0)).replay adm (attend sampleConfig pairParty) ls (start sampleConfig pairParty 0)
      (fun _ => .idle)).map (fun x => (x.1.world.lookup plainRoute,(x.1.pool 0).next,(x.1.pool 2).next,(x.2 0).ret,
        x.1.world.now)) = some (v,some ⟨.exec ⟨"sg-action","b1"⟩ sampleCommand,false⟩,
          some ⟨.beginDelete ⟨"sg-action","b1"⟩,false⟩,some d,now))
    (hlate : now < d + sampleConfig.sessionTtl * 1000) : Orphans adm v := by
  obtain ⟨s,g,hr,hx⟩ : ∃ s g, (machine (fun _ => 0)).Run (fun s g l => adm s g l = true)
      (attend sampleConfig pairParty) (start sampleConfig pairParty 0) (fun _ => .idle) s g ∧
      (s.world.lookup plainRoute,(s.pool 0).next,(s.pool 2).next,(g 0).ret,s.world.now) =
        (v,some ⟨.exec ⟨"sg-action","b1"⟩ sampleCommand,false⟩,some ⟨.beginDelete ⟨"sg-action","b1"⟩,false⟩,some d,now) :=
    Machine.replay_reaches adm ls (fun _ _ _ hl => hl) hp
  simp only [Prod.mk.injEq] at hx
  obtain ⟨hl,hexec,hdelete,hret,rfl⟩ := hx
  exact ⟨s,g,hr,hl,hexec,hdelete,d,hret,hlate⟩

theorem partial_failures_orphan :
    Orphans faltering none ∧ Orphans faltering (some (.text "b2")) ∧ Orphans untroubled none :=
  ⟨orphans (unpublished sampleConfig (sampleCtx "s1" .action)) 0 0 (by decide +kernel) (by decide),
    orphans (unrefreshed sampleConfig (sampleCtx "s1" .action)) 0 0 (by decide +kernel) (by decide),
    orphans (belated sampleConfig (sampleCtx "s1" .action)) 60000 1800001 (by decide +kernel) (by decide)⟩

def soloParty : Nat → Job := fun t => if t = 0 then .exec (sampleCtx "s1" .action) sampleCommand else .reaperRound

theorem solo_ctx {t : Nat} {ctx : SessionCtx} (h : (soloParty t).ctx = some ctx) : t = 0 ∧ ctx = sampleCtx "s1" .action := by
  simp only [soloParty] at h
  split at h
  · cases h
    exact ⟨‹_›,rfl⟩
  · cases h

-- The reads of the session key and of the flag and the marking fail; the writes between them do not.
def patchy (cfg : Config) (ctx : SessionCtx) : List Step :=
  [answers 0 (.acquire (routingKey ctx)) (),lost 0 (.get (ctxKey cfg ctx))] ++ creation cfg 0 ctx "b1" ++
    (publication cfg 0 ctx "b1").take 2 ++ [lost 0 (.get (flagKey cfg "b1")),
      answers 0 (.exec ⟨cfg.groupNames ctx.group,"b1"⟩ bootstrapCommand) ⟨0,some [],none⟩,
      lost 0 (.set (flagKey cfg "b1") (.flag true) cfg.sessions.ttl),answers 0 (.release (routingKey ctx)) (),
      .env (.tick 1800000)] ++ inspection cfg 2 ctx ["b1"] "b1" none

def careful (s : System) (g : Nat → Stay) : Step → Bool
  | .task _ ⟨.set k _ _,_⟩ _ _ => decide (store k ≠ "mcp:sb".toList) || match s.world.lookup plainRoute with
    | some (.text id) => decide (k = indexKey sampleConfig id)
    | _ => false
  | .task t ⟨.get _,_⟩ _ _ => decide (t = 0) || match (g 0).ret with
    | some d => decide (d + sampleConfig.sessionTtl * 1000 ≤ s.world.now)
    | none => false
  | _ => true

theorem attend_idle {rep : Nat → Nat} {adm : System → (Nat → Stay) → Step → Prop} {cfg : Config} {jobs : Nat → Job}
    {now : Nat} {s : System} {g : Nat → Stay}
    (hr : (machine rep).Run adm (attend cfg jobs) (start cfg jobs now) (fun _ => .idle) s g) {i : Nat}
    (hi : (jobs i).ctx = none) : g i = .idle := by
  induction hr with
  | start => rfl
  | @step s s' g l _ _ _ ih =>
    cases l with
    | env e => exact ih
    | task t o r h =>
      cases hx : (jobs t).ctx with
      | none => simpa only [attend,hx] using ih
      | some ctx =>
        have hit : i ≠ t := by
          rintro rfl
          rw [hi] at hx
          cases hx
        simpa only [attend,hx,upd_other _ _ hit] using ih

theorem careful_sound {s : System} {g : Nat → Stay} {l : Step} (hg : ∀ i, i ≠ 0 → g i = .idle)
    (hl : careful s g l = true) : Careful sampleConfig soloParty s g l := by
  have huse : ∀ {i id}, InUse sampleConfig s g i id → i = 0 := by
    intro i id hu
    by_contra hi
    have hid := hu.1
    rw [hg i hi] at hid
    cases hid
  have hno : ∀ {t k v}, t = 0 → ¬ Strands sampleConfig s g t k v := by
    rintro t k v rfl ⟨i,id,hi,hu,_⟩
    exact hi (huse hu)
  cases l with
  | env e => trivial
  | task t o r h =>
    obtain ⟨c,timed⟩ := o
    cases c with
    | set k v ex =>
      intro ctx hctx _
      obtain ⟨ht,rfl⟩ := solo_ctx hctx
      refine ⟨fun id hk => ?_,hno ht⟩
      subst hk
      simp only [careful,store_indexKey,ne_eq,not_true_eq_false,decide_false,Bool.false_or] at hl
      split at hl
      · rename_i id' hl'
        cases indexKey_injective _ (of_decide_eq_true hl)
        exact hl'
      · cases hl
    | del k =>
      intro hctx _
      obtain ⟨ctx,hctx⟩ := Option.ne_none_iff_exists'.mp hctx
      exact hno (solo_ctx hctx).1
    | get k =>
      intro hctx i id x d hx hk hu
      cases huse hu
      have ht : t ≠ 0 := by
        rintro rfl
        cases hctx
      simp only [careful,ht,decide_false,Bool.false_or] at hl
      split at hl
      · rename_i d' hd'
        have hlt := hu.2.2 d' hd'
        have hle := of_decide_eq_true hl
        omega
      · cases hl
    | _ => trivial

-- Half an hour after the call has returned the pass does delete the sandbox it still runs in.
theorem partial_failures_spare_patchy : ∃ s g, (machine (fun _ => 0)).Run (Careful sampleConfig soloParty)
      (attend sampleConfig soloParty) (start sampleConfig soloParty 0) (fun _ => .idle) s g ∧
    (s.pool 2).next = some ⟨.beginDelete ⟨"sg-action","b1"⟩,false⟩ ∧
    (s.pool 0).next = some ⟨.exec ⟨"sg-action","b1"⟩ sampleCommand,false⟩ ∧
    ∃ d, (g 0).ret = some d ∧ d + sampleConfig.sessionTtl * 1000 ≤ s.world.now := by
  obtain ⟨s,g,hr,hn⟩ : ∃ s g, (machine (fun _ => 0)).Run (fun s g l => careful s g l = true)
      (attend sampleConfig soloParty) (start sampleConfig soloParty 0) (fun _ => .idle) s g ∧
      ((s.pool 2).next,(s.pool 0).next) = (some ⟨.beginDelete ⟨"sg-action","b1"⟩,false⟩,
        some ⟨.exec ⟨"sg-action","b1"⟩ sampleCommand,false⟩) :=
    Machine.replay_reaches careful (patchy sampleConfig (sampleCtx "s1" .action)) (fun _ _ _ hl => hl) (by decide +kernel)
  have hrun : (machine (fun _ => 0)).Run (Careful sampleConfig soloParty) (attend sampleConfig soloParty)
      (start sampleConfig soloParty 0) (fun _ => .idle) s g := hr.strengthen (fun s g l hr hl =>
    careful_sound (fun i hi => attend_idle hr (by simp [soloParty,hi,Job.ctx])) hl)
  obtain ⟨hdelete,hexec⟩ := Prod.mk.inj hn
  refine ⟨s,g,hrun,hdelete,hexec,partial_failures_spare ?_ hrun 2 _ _ hdelete 0 _ _ hexec⟩
  intro t oid sid
  simp only [soloParty]
  split <;> simp

end Schedules

end IdentityAwareMcp
