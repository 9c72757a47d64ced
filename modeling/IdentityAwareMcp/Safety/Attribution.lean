import IdentityAwareMcp.Safety.Audit

namespace IdentityAwareMcp

open Coop

section Rooms

-- What the concurrent tool calls of one MCP session share.
structure Room where
  state : (key : StateKey) → key.Val
  minted : List String
  sink : Option AuditSink

def Room.empty : Room := ⟨fun key => match key with
  | .userOid => none
  | .sessionId => none
  | .conversationId => none
  | .userUpn => none
  | .clientIp => none
  | .correlationId => none,[],none⟩

def Room.put (m : Room) (key : StateKey) (v : key.Val) : Room := { m with state := Function.update m.state key v }

-- `reached`: a write that failed or was cancelled has taken effect all the same.
def Room.act (o : ToolOp) (m : Room) (r : Except Exc o.Ans) (reached : Bool) : Option Room :=
  match o, r with
  | .setState key v, .ok _ => some (m.put key v)
  | .setState key v, .error _ => some (if reached then m.put key v else m)
  | .getState key, .ok v => if v = m.state key then some m else none
  | .newCorrelationId, .ok c => if c ∈ m.minted then none else some { m with minted := c :: m.minted }
  | .newCorrelationId, .error _ => none
  | .currentSink, .ok v => if v = m.sink then some m else none
  | .currentSink, .error _ => none
  | .openSink endpoint ruleId stream, .ok sink => if sink = .logAnalytics endpoint ruleId stream then some m else none
  | .keepSink sink, .ok _ => some { m with sink := some sink }
  | .keepSink _, .error _ => none
  | _, _ => some m

def roomMachine : Machine ToolOp ToolOp.Ans Exc Nat Bool Room Unit := ⟨fun _ o m r h => m.act o r h,fun _ m => some m⟩

abbrev Office := Sys ToolOp ToolOp.Ans Exc Nat Room ExecResult

abbrev OfficeStep := Label ToolOp ToolOp.Ans Exc Nat Bool Unit

def startTools (srv : Server) (calls : Nat → ToolCall) : Office := ⟨.empty,fun t => callTool srv (calls t)⟩

end Rooms

section Moves

abbrev Ids := Option String × Option String

def ToolCall.value (c : ToolCall) (ids : Ids) (cid : Option String) : (key : StateKey) → key.Val
  | .userOid => c.oid
  | .sessionId => ids.1
  | .conversationId => ids.2
  | .userUpn => c.upn
  | .clientIp => Audit.clientIp c.xForwardedFor
  | .correlationId => cid

abbrev Got := (key : StateKey) → key.Val

def Got.ctx (got : Got) (group : Group) : SessionCtx :=
  ⟨got .userOid,got .sessionId,got .conversationId,group,got .correlationId⟩

def Got.event (got : Got) (c : ToolCall) (exitCode : Option Int) : AuditEvent :=
  ⟨got .correlationId,c.group.name ++ "_bash",c.group,got .userOid,got .userUpn,got .clientIp,got .sessionId,
    got .conversationId,c.command,c.explanation,exitCode⟩

-- The awaits of a tool call: the ids are derived, the keys set one after the other, the id
-- minted and set, the groups checked, the keys read back, and the command run and recorded.
inductive Calling where
  | deriving
  | setting (todo : List StateKey) (ids : Ids)
  | naming (ids : Ids) (cid : String)
  | checking (ids : Ids) (cid : String)
  | reading (todo : List StateKey) (ids : Ids) (cid : String) (got : Got)
  | closing (todo : List StateKey) (ids : Ids) (cid : String) (got : Got) (exitCode : Option Int)
  | ended

def setOrder : List StateKey := [.userOid,.sessionId,.conversationId,.userUpn,.clientIp]

def readOrder : List StateKey := [.correlationId,.userOid,.sessionId,.conversationId]

def lateOrder : List StateKey := [.userUpn,.clientIp]

inductive ToolMove (c : ToolCall) : Calling → (o : ToolOp) → Except Exc o.Ans → Calling → Prop
  | derived (o : Op) (r : Except Exc o.Ans) : ToolMove c .deriving (.session o) r .deriving
  | first (ids : Ids) (u : Unit) : ToolMove c .deriving (.setState .userOid c.oid) (.ok u) (.setting setOrder.tail ids)
  | set (key : StateKey) (todo : List StateKey) (ids : Ids) (u : Unit) : ToolMove c (.setting (key :: todo) ids)
      (.setState key (c.value ids none key)) (.ok u) (.setting todo ids)
  | minted (ids : Ids) (cid : String) : ToolMove c (.setting [] ids) .newCorrelationId (.ok cid) (.naming ids cid)
  | named (ids : Ids) (cid : String) (u : Unit) : ToolMove c (.naming ids cid)
      (.setState .correlationId (some cid)) (.ok u) (.checking ids cid)
  | checked (ids : Ids) (cid : String) (o : GroupOp) (r : Except Exc o.Ans) : ToolMove c (.checking ids cid) (.graph o) r
      (.checking ids cid)
  | admitted (ids : Ids) (cid : String) (got : Got) (v : Option String) : ToolMove c (.checking ids cid)
      (.getState .correlationId) (.ok v) (.reading readOrder.tail ids cid (Function.update got .correlationId v))
  | read (key : StateKey) (todo : List StateKey) (ids : Ids) (cid : String) (got : Got) (v : key.Val) :
      key ∉ todo ++ lateOrder → ToolMove c (.reading (key :: todo) ids cid got) (.getState key) (.ok v)
        (.reading todo ids cid (Function.update got key v))
  | ran (ids : Ids) (cid : String) (got : Got) (result : ExecResult) : ToolMove c (.reading [] ids cid got)
      (.exec (got.ctx c.group) c.command) (.ok result) (.closing lateOrder ids cid got result.exitCode)
  | opened (todo : List StateKey) (ids : Ids) (cid : String) (got : Got) (exitCode : Option Int) (o : ToolOp)
      (r : Except Exc o.Ans) : o.opensSink = true → ToolMove c (.closing todo ids cid got exitCode) o r
        (.closing todo ids cid got exitCode)
  | reread (key : StateKey) (todo : List StateKey) (ids : Ids) (cid : String) (got : Got) (exitCode : Option Int) (v : key.Val) :
      key ∉ todo → ToolMove c (.closing (key :: todo) ids cid got exitCode) (.getState key) (.ok v)
        (.closing todo ids cid (Function.update got key v) exitCode)
  | logged (ids : Ids) (cid : String) (got : Got) (exitCode : Option Int) (r : Except Exc Unit) :
      ToolMove c (.closing [] ids cid got exitCode) (.logInfo (got.event c exitCode)) r .ended
  | uploaded (ids : Ids) (cid : String) (got : Got) (exitCode : Option Int) (r : Except Exc Unit) :
      ToolMove c (.closing [] ids cid got exitCode) (.upload (got.event c exitCode)) r .ended
  | failed (p : Calling) (o : ToolOp) (e : Exc) : ToolMove c p o (.error e) .ended

variable (c : ToolCall)

theorem invoke_follows {α : Type} {o : ToolOp} {p : Calling} {f : o.Ans → T α}
    (hok : ∀ a, ∃ p', ToolMove c p o (.ok a) p' ∧ Follows (ToolMove c) p' (f a) (fun _ _ => True)) :
    Follows (ToolMove c) p ((invoke o).bind f) (fun _ _ => True) := by
  intro r
  cases r with
  | ok a => exact hok a
  | error e => exact ⟨.ended,.failed p o e,trivial⟩

def Lingers {α : Type} (p : Calling) : Calling → Except Exc α → Prop
  | p', .ok _ => p' = p
  | _, .error _ => True

theorem liftSession_follows {α : Type} (q : M α) : Follows (ToolMove c) .deriving (liftSession q) (fun p _ => p = .deriving) := by
  induction q with
  | ret a => rfl
  | raise e => rfl
  | call o k ih => exact fun r => ⟨_,.derived o r,ih r⟩

theorem liftGraph_follows {α : Type} (ids : Ids) (cid : String) (q : G α) :
    Follows (ToolMove c) (.checking ids cid) (liftGraph q) (fun p _ => p = .checking ids cid) := by
  induction q with
  | ret a => rfl
  | raise e => rfl
  | call o k ih => exact fun r => ⟨_,.checked ids cid o r,ih r⟩

theorem deriveIds_follows (srv : Server) (oid : Option Guid) (fctx : FastmcpContext) :
    Follows (ToolMove c) .deriving (deriveIds srv oid fctx) (fun p _ => p = .deriving) := by
  unfold deriveIds
  split
  · refine Follows.handle (liftSession_follows c _) (fun p ids h => h) (fun p e h => ?_)
    split <;> exact h
  · rfl

theorem getAuditSink_follows (cfg : Audit.Settings) (ids : Ids) (cid : String) (got : Got) (exitCode : Option Int) :
    Follows (ToolMove c) (.closing lateOrder ids cid got exitCode) (Audit.getAuditSink cfg)
      (Lingers (.closing lateOrder ids cid got exitCode)) := by
  have hop : ∀ {o : ToolOp} {f : o.Ans → T AuditSink}, o.opensSink = true →
      (∀ a, Follows (ToolMove c) (.closing lateOrder ids cid got exitCode) (f a)
        (Lingers (.closing lateOrder ids cid got exitCode))) →
      Follows (ToolMove c) (.closing lateOrder ids cid got exitCode) ((invoke o).bind f)
        (Lingers (.closing lateOrder ids cid got exitCode)) := by
    intro o f ho hf r
    cases r with
    | ok a => exact ⟨_,.opened _ ids cid got exitCode o _ ho,hf a⟩
    | error e => exact ⟨_,.opened _ ids cid got exitCode o _ ho,trivial⟩
  refine hop rfl (fun found => ?_)
  cases found with
  | some sink => rfl
  | none =>
    dsimp only
    split
    · exact hop rfl (fun sink => hop rfl (fun _ => rfl))
    · exact hop rfl (fun _ => rfl)

theorem swallow_follows {p : Calling} {q : T Unit} (h : Follows (ToolMove c) p q (fun _ _ => True)) :
    Follows (ToolMove c) p (swallow q) (fun _ _ => True) := by
  refine h.handle (fun _ _ _ => trivial) (fun _ e _ => ?_)
  split <;> trivial

theorem recording_follows (sink : AuditSink) (ids : Ids) (cid : String) (got : Got) (exitCode : Option Int) :
    Follows (ToolMove c) (.closing [] ids cid got exitCode) (Audit.record sink (got.event c exitCode))
      (fun _ _ => True) := by
  cases sink with
  | stdout => exact swallow_follows c (Follows.perform (fun r => ⟨.ended,.logged ids cid got exitCode r,trivial⟩))
  | logAnalytics endpoint ruleId stream =>
    exact swallow_follows c (Follows.perform (fun r => ⟨.ended,.uploaded ids cid got exitCode r,trivial⟩))

theorem redactFor_exitCode (srv : Server) (group : Group) (result : ExecResult) :
    (redactFor srv group result).exitCode = result.exitCode := by
  cases group with
  | diagnose => rfl
  | action =>
    simp only [redactFor,Redact.redactResult]
    split <;> rfl

theorem execTool_follows (srv : Server) (ids : Ids) (cid : String) :
    Follows (ToolMove c) (.checking ids cid) (execTool srv c.group c.command c.explanation) (fun _ _ => True) := by
  refine invoke_follows c (fun v => ⟨_,.admitted ids cid Room.empty.state v,?_⟩)
  refine invoke_follows c (fun v => ⟨_,.read .userOid _ ids cid _ v (by decide),?_⟩)
  refine invoke_follows c (fun v => ⟨_,.read .sessionId _ ids cid _ v (by decide),?_⟩)
  refine invoke_follows c (fun v => ⟨_,.read .conversationId _ ids cid _ v (by decide),?_⟩)
  refine invoke_follows c (fun result => ⟨_,.ran ids cid _ result,?_⟩)
  refine (getAuditSink_follows c srv.audit ids cid _ _).bind (fun p sink h => ?_) (fun _ _ _ => trivial)
  cases h
  refine invoke_follows c (fun v => ⟨_,.reread .userUpn _ ids cid _ _ v (by decide),?_⟩)
  refine invoke_follows c (fun v => ⟨_,.reread .clientIp _ ids cid _ _ v (by decide),?_⟩)
  have hr := recording_follows c sink ids cid
  rw [← redactFor_exitCode srv c.group result]
  exact (hr _ _).bind (fun _ _ _ => trivial) (fun _ _ _ => trivial)

theorem callTool_follows (srv : Server) : Follows (ToolMove c) .deriving (callTool srv c) (fun _ _ => True) := by
  refine (deriveIds_follows c srv c.oid c.fctx).bind (fun p ids h => ?_) (fun _ _ _ => trivial)
  cases h
  refine invoke_follows c (fun u => ⟨_,.first ids u,?_⟩)
  refine invoke_follows c (fun u => ⟨_,.set .sessionId _ ids u,?_⟩)
  refine invoke_follows c (fun u => ⟨_,.set .conversationId _ ids u,?_⟩)
  refine invoke_follows c (fun u => ⟨_,.set .userUpn _ ids u,?_⟩)
  refine invoke_follows c (fun u => ⟨_,.set .clientIp _ ids u,?_⟩)
  refine invoke_follows c (fun cid => ⟨_,.minted ids cid,?_⟩)
  refine invoke_follows c (fun u => ⟨_,.named ids cid u,?_⟩)
  refine (liftGraph_follows c ids cid _).bind (fun p allowed h => ?_) (fun _ _ _ => trivial)
  cases h
  split
  · exact execTool_follows c srv ids cid
  · trivial

end Moves

section History

-- What the middleware of each call has stored, and which of it the call has not read back yet.
structure Desk where
  computed : Nat → (key : StateKey) → Option key.Val
  pending : Nat → (key : StateKey) → Option key.Val

def Desk.empty : Desk := ⟨fun _ _ => none,fun _ _ => none⟩

def track (_ : Office) (l : OfficeStep) (g : Desk) : Desk :=
  match l with
  | .task t (.setState key v) (.ok _) _ => ⟨upd g.computed t (Function.update (g.computed t) key (some v)),
      upd g.pending t (Function.update (g.pending t) key (some v))⟩
  | .task t (.getState key) (.ok _) _ => { g with pending := upd g.pending t (Function.update (g.pending t) key none) }
  | _ => g

def Office.going (s : Office) (t : Nat) : Prop := (s.pool t).next.isSome = true

-- No call overwrites a key of another one that has yet to read it back.
def Spared (s : Office) (g : Desk) : OfficeStep → Prop
  | .task _ (.setState key v) r reached =>
    r.isOk = true ∨ reached = true → ∀ i v', s.going i → g.pending i key = some v' → v' = v
  | _ => True

variable (c : ToolCall)

def Calling.made : Calling → (key : StateKey) → Option key.Val
  | .setting todo ids, key => if key ∈ setOrder ∧ key ∉ todo then some (c.value ids none key) else none
  | .naming ids _, key => if key ∈ setOrder then some (c.value ids none key) else none
  | .checking ids cid, key => some (c.value ids (some cid) key)
  | .reading _ ids cid _, key => some (c.value ids (some cid) key)
  | .closing _ ids cid _ _, key => some (c.value ids (some cid) key)
  | _, _ => none

def Calling.owed : Calling → (key : StateKey) → Option key.Val
  | .reading todo ids cid _, key => if key ∈ todo ++ lateOrder then some (c.value ids (some cid) key) else none
  | .closing todo ids cid _ _, key => if key ∈ todo then some (c.value ids (some cid) key) else none
  | p, key => p.made c key

def Calling.Right : Calling → Prop
  | .reading todo ids cid got => ∀ key, key ∈ readOrder → key ∉ todo → got key = c.value ids (some cid) key
  | .closing todo ids cid got _ => ∀ key, key ∉ todo → got key = c.value ids (some cid) key
  | _ => True

def Calling.name : Calling → Option String
  | .naming _ cid => some cid
  | _ => none

def Names (g : Desk) (ph : Nat → Calling) (t : Nat) (cid : String) : Prop :=
  (ph t).name = some cid ∨ g.computed t .correlationId = some (some cid)

structure Attributing (calls : Nat → ToolCall) (m : Room) (going : Nat → Prop) (g : Desk) (ph : Nat → Calling) : Prop where
  made : ∀ t key v, (ph t).made (calls t) key = some v → g.computed t key = some v
  owed : ∀ t key v, (ph t).owed (calls t) key = some v → g.pending t key = some v
  state : ∀ t key v, going t → g.pending t key = some v → m.state key = v
  right : ∀ t, (ph t).Right (calls t)
  minted : ∀ t cid, Names g ph t cid → cid ∈ m.minted
  distinct : ∀ t i cid, Names g ph t cid → Names g ph i cid → t = i

variable {c} {calls : Nat → ToolCall} {m m' : Room} {g : Desk} {ph : Nat → Calling} {t : Nat} {o : ToolOp}
variable {r : Except Exc o.Ans} {p : Calling} {h : Bool} {going : Nat → Prop}

theorem Attributing.makes (hi : Attributing calls m going g ph)
    (hmade : ∀ key v, p.made (calls t) key = some v → (ph t).made (calls t) key = some v) :
    ∀ i key v, (upd ph t p i).made (calls i) key = some v → g.computed i key = some v :=
  forall_upd (P := fun i (q : Calling) => ∀ key v, q.made (calls i) key = some v → g.computed i key = some v)
    (fun key v hv => hi.made t key v (hmade key v hv)) hi.made

theorem Attributing.owes (hi : Attributing calls m going g ph)
    (howed : ∀ key v, p.owed (calls t) key = some v → (ph t).owed (calls t) key = some v) :
    ∀ i key v, (upd ph t p i).owed (calls i) key = some v → g.pending i key = some v :=
  forall_upd (P := fun i (q : Calling) => ∀ key v, q.owed (calls i) key = some v → g.pending i key = some v)
    (fun key v hv => hi.owed t key v (howed key v hv)) hi.owed

theorem Attributing.rights (hi : Attributing calls m going g ph) (hright : p.Right (calls t)) (i : Nat) :
    (upd ph t p i).Right (calls i) :=
  forall_upd (P := fun i (q : Calling) => q.Right (calls i)) hright hi.right i

-- A step that leaves the history and the state alone and asks for nothing new.
theorem Attributing.frame (hi : Attributing calls m going g ph) (hs : m'.state = m.state) (hm : ∀ cid, cid ∈ m.minted → cid ∈ m'.minted)
    (hmade : ∀ key v, p.made (calls t) key = some v → (ph t).made (calls t) key = some v)
    (howed : ∀ key v, p.owed (calls t) key = some v → (ph t).owed (calls t) key = some v)
    (hright : p.Right (calls t)) (hname : ∀ cid, p.name = some cid → (ph t).name = some cid) :
    Attributing calls m' going g (upd ph t p) := by
  have hnames : ∀ {i cid}, Names g (upd ph t p) i cid → Names g ph i cid := by
    rintro i cid (hn | hc)
    · by_cases hit : i = t
      · subst hit
        rw [upd_same] at hn
        exact .inl (hname cid hn)
      · rw [upd_other _ _ hit] at hn
        exact .inl hn
    · exact .inr hc
  refine ⟨hi.makes hmade,hi.owes howed,fun i key v hl hv => ?_,hi.rights hright,
    fun i cid hn => hm cid (hi.minted i cid (hnames hn)),fun i j cid hn hn' => hi.distinct i j cid (hnames hn) (hnames hn')⟩
  rw [hs]
  exact hi.state i key v hl hv

-- A task that has ended, or is about to, asks for nothing.
theorem Attributing.rests (hi : Attributing calls m going g ph) (hs : m'.state = m.state) (hm : m'.minted = m.minted) :
    Attributing calls m' going g (upd ph t .ended) :=
  hi.frame hs (fun _ hc => hm ▸ hc) (fun _ _ hv => (by cases hv)) (fun _ _ hv => (by cases hv)) trivial
    (fun _ hn => (by cases hn))

theorem put_state {key : StateKey} {v : key.Val} (hi : Attributing calls m going g ph)
    (hadm : ∀ i v', going i → g.pending i key = some v' → v' = v) {i : Nat} {k : StateKey} {x : k.Val} (hl : going i)
    (hx : g.pending i k = some x) : (m.put key v).state k = x := by
  by_cases hk : k = key
  · subst hk
    rw [hadm i x hl hx]
    exact Function.update_self _ _ _
  · exact (Function.update_of_ne hk _ _).trans (hi.state i k x hl hx)

theorem Attributing.fails {s : Office} {e : Exc} (hi : Attributing calls s.world s.going g ph)
    (ha : s.world.act o (.error e) h = some m') (hadm : Spared s g (.task t o (.error e) h)) :
    Attributing calls m' s.going g (upd ph t .ended) := by
  cases o with
  | setState key v =>
    cases h with
    | false =>
      cases ha
      exact hi.rests rfl rfl
    | true =>
      cases ha
      have hstay : Attributing calls s.world s.going g (upd ph t .ended) := hi.rests rfl rfl
      exact ⟨hstay.made,hstay.owed,fun i k x hl hx => put_state hi (hadm (.inr rfl)) hl hx,hstay.right,hstay.minted,hstay.distinct⟩
  | newCorrelationId => cases ha
  | currentSink => cases ha
  | keepSink sink => cases ha
  | _ =>
    cases ha
    exact hi.rests rfl rfl

theorem Attributing.sets {s : Office} {key : StateKey} {v : key.Val} {u : Unit} (hi : Attributing calls s.world s.going g ph)
    (hadm : Spared s g (.task t (.setState key v) (.ok u) h))
    (hmade : ∀ k x, p.made (calls t) k = some x → Function.update (fun k => (ph t).made (calls t) k) key (some v) k = some x)
    (howed : ∀ k x, p.owed (calls t) k = some x → Function.update (fun k => (ph t).owed (calls t) k) key (some v) k = some x)
    (hright : p.Right (calls t)) (hname : p.name = none)
    (hcid : ∀ cid, Function.update (g.computed t) key (some v) .correlationId = some (some cid) → Names g ph t cid) :
    Attributing calls (s.world.put key v) s.going (track s (.task t (.setState key v) (.ok u) h) g) (upd ph t p) := by
  have hnames : ∀ {i cid}, Names (track s (.task t (.setState key v) (.ok u) h) g) (upd ph t p) i cid → Names g ph i cid := by
    rintro i cid hn
    by_cases hit : i = t
    · subst hit
      rcases hn with hn | hn
      · rw [upd_same,hname] at hn
        cases hn
      · simp only [track,upd_same] at hn
        exact hcid cid hn
    · simpa only [Names,track,upd_other _ _ hit] using hn
  have hput : ∀ {f : (k : StateKey) → Option k.Val} {f' : (k : StateKey) → Option k.Val} {k : StateKey} {x : k.Val},
      (∀ k x, f k = some x → f' k = some x) → Function.update f key (some v) k = some x →
      Function.update f' key (some v) k = some x := by
    intro f f' k x hf hx
    by_cases hk : k = key
    · subst hk
      rwa [Function.update_self] at hx ⊢
    · rw [Function.update_of_ne hk] at hx ⊢
      exact hf k x hx
  refine ⟨fun i k x hx => ?_,fun i k x hx => ?_,fun i k x hl hx => ?_,hi.rights hright,
    fun i cid hn => hi.minted i cid (hnames hn),fun i j cid hn hn' => hi.distinct i j cid (hnames hn) (hnames hn')⟩
  · by_cases hit : i = t
    · subst hit
      rw [upd_same] at hx
      simp only [track,upd_same]
      exact hput (hi.made i) (hmade k x hx)
    · simp only [track,upd_other _ _ hit] at hx ⊢
      exact hi.made i k x hx
  · by_cases hit : i = t
    · subst hit
      rw [upd_same] at hx
      simp only [track,upd_same]
      exact hput (hi.owed i) (howed k x hx)
    · simp only [track,upd_other _ _ hit] at hx ⊢
      exact hi.owed i k x hx
  · by_cases hit : i = t
    · subst hit
      simp only [track,upd_same] at hx
      by_cases hk : k = key
      · subst hk
        rw [Function.update_self] at hx
        cases hx
        exact Function.update_self _ _ _
      · rw [Function.update_of_ne hk] at hx
        exact put_state hi (hadm (.inl rfl)) hl hx
    · simp only [track,upd_other _ _ hit] at hx
      exact put_state hi (hadm (.inl rfl)) hl hx

theorem Attributing.reads {s : Office} {key : StateKey} {v : key.Val} (hi : Attributing calls s.world s.going g ph)
    (hmade : ∀ k x, p.made (calls t) k = some x → (ph t).made (calls t) k = some x)
    (howed : ∀ k x, p.owed (calls t) k = some x → k ≠ key ∧ (ph t).owed (calls t) k = some x)
    (hright : p.Right (calls t)) (hname : p.name = none) :
    Attributing calls s.world s.going (track s (.task t (.getState key) (.ok v) h) g) (upd ph t p) := by
  have hback : ∀ {i k x}, (track s (.task t (.getState key) (.ok v) h) g).pending i k = some x → g.pending i k = some x := by
    intro i k x hx
    by_cases hit : i = t
    · subst hit
      simp only [track,upd_same] at hx
      by_cases hk : k = key
      · subst hk
        rw [Function.update_self] at hx
        cases hx
      · rwa [Function.update_of_ne hk] at hx
    · simpa only [track,upd_other _ _ hit] using hx
  have hstay : Attributing calls s.world s.going g (upd ph t p) := hi.frame rfl (fun _ hc => hc) hmade (fun k x hx => (howed k x hx).2) hright
    (fun _ hn => (by rw [hname] at hn; cases hn))
  refine ⟨hstay.made,fun i k x hx => ?_,fun i k x hl hx => hi.state i k x hl (hback hx),hstay.right,hstay.minted,hstay.distinct⟩
  have hold := hstay.owed i k x hx
  by_cases hit : i = t
  · subst hit
    rw [upd_same] at hx
    simp only [track,upd_same]
    rwa [Function.update_of_ne (howed k x hx).1]
  · simpa only [track,upd_other _ _ hit] using hold

theorem Attributing.mints {s : Office} {ids : Ids} {cid : String} (hi : Attributing calls s.world s.going g ph) (hp : ph t = .setting [] ids)
    (hfresh : cid ∉ s.world.minted) :
    Attributing calls { s.world with minted := cid :: s.world.minted } s.going g (upd ph t (.naming ids cid)) := by
  have hnames : ∀ {i x}, Names g (upd ph t (.naming ids cid)) i x → i = t ∧ x = cid ∨ Names g ph i x := by
    intro i x hn
    by_cases hit : i = t
    · subst hit
      rcases hn with hn | hn
      · rw [upd_same] at hn
        cases hn
        exact .inl ⟨rfl,rfl⟩
      · exact .inr (.inr hn)
    · rw [Names,upd_other _ _ hit] at hn
      exact .inr hn
  refine ⟨hi.makes (fun k x hx => ?_),hi.owes (fun k x hx => ?_),hi.state,
    hi.rights trivial,fun i x hn => ?_,fun i j x hn hn' => ?_⟩
  · rw [hp]
    simpa [Calling.made] using hx
  · rw [hp]
    simpa [Calling.owed,Calling.made] using hx
  · rcases hnames hn with ⟨_,rfl⟩ | hn
    · exact List.mem_cons_self
    · exact List.mem_cons_of_mem _ (hi.minted i x hn)
  · rcases hnames hn with ⟨hit,hx⟩ | hold
    · rcases hnames hn' with ⟨hjt,_⟩ | hold'
      · rw [hit,hjt]
      · rw [hx] at hold'
        exact absurd (hi.minted j cid hold') hfresh
    · rcases hnames hn' with ⟨_,hx⟩ | hold'
      · rw [hx] at hold
        exact absurd (hi.minted i cid hold) hfresh
      · exact hi.distinct i j x hold hold'

theorem made_first {ids : Ids} {k : StateKey} {x : k.Val} (hx : (Calling.setting setOrder.tail ids).made c k = some x) :
    Function.update (fun k => Calling.deriving.made c k) .userOid (some c.oid) k = some x := by
  cases k <;> exact hx

theorem made_set {ids : Ids} {key k : StateKey} {todo : List StateKey} {x : k.Val}
    (hx : (Calling.setting todo ids).made c k = some x) :
    Function.update (fun k => (Calling.setting (key :: todo) ids).made c k) key (some (c.value ids none key)) k = some x := by
  simp only [Calling.made] at hx
  split at hx
  · rename_i hk
    cases hx
    by_cases he : k = key
    · subst he
      exact Function.update_self _ _ _
    · rw [Function.update_of_ne he]
      simp only [Calling.made,List.mem_cons,he,hk.2,or_self,not_false_iff,and_true,hk.1,if_true]
  · cases hx

theorem made_named {ids : Ids} {cid : String} {k : StateKey} {x : k.Val}
    (hx : (Calling.checking ids cid).made c k = some x) :
    Function.update (fun k => (Calling.naming ids cid).made c k) .correlationId (some (some cid)) k = some x := by
  cases k <;> exact hx

theorem right_read {ids : Ids} {cid : String} {got : Got} {key : StateKey} {todo : List StateKey}
    (hright : ∀ k, k ∈ readOrder → k ∉ key :: todo → got k = c.value ids (some cid) k) {v : key.Val}
    (hv : v = c.value ids (some cid) key) (k : StateKey) (hk : k ∈ readOrder) (hn : k ∉ todo) :
    Function.update got key v k = c.value ids (some cid) k := by
  by_cases he : k = key
  · subst he
    rw [Function.update_self,hv]
  · rw [Function.update_of_ne he]
    exact hright k hk (by simp [he,hn])

theorem mem_readOrder {k : StateKey} (hk : k ∉ lateOrder) : k ∈ readOrder := by
  revert hk
  cases k <;> decide

-- What is still to be read comes after what is read now.
theorem owes_later {todo : List StateKey} {key k : StateKey} {v x : k.Val} (hk : key ∉ todo)
    (hx : (if k ∈ todo then some v else none) = some x) : k ≠ key ∧ (if k ∈ key :: todo then some v else none) = some x := by
  split at hx
  · rename_i hmem
    refine ⟨fun he => hk (he ▸ hmem),?_⟩
    rw [if_pos (List.mem_cons_of_mem _ hmem),hx]
  · cases hx

theorem act_getState {key : StateKey} {v : key.Val} (ha : m.act (.getState key) (.ok v) h = some m') :
    v = m.state key ∧ m' = m := by
  simp only [Room.act] at ha
  split at ha <;> cases ha
  rename_i hv
  exact ⟨hv,rfl⟩

theorem act_sink {s : Office} (ho : o.opensSink = true) (ha : s.world.act o r h = some m') :
    m'.state = s.world.state ∧ m'.minted = s.world.minted ∧ track s (.task t o r h) g = g := by
  cases o with
  | currentSink =>
    cases r with
    | ok v =>
      simp only [Room.act] at ha
      split at ha <;> cases ha
      exact ⟨rfl,rfl,rfl⟩
    | error e =>
      cases ha
  | openSink endpoint ruleId stream =>
    cases r with
    | ok v =>
      simp only [Room.act] at ha
      split at ha <;> cases ha
      exact ⟨rfl,rfl,rfl⟩
    | error e =>
      cases ha
      exact ⟨rfl,rfl,rfl⟩
  | keepSink sink =>
    cases r with
    | ok u =>
      cases ha
      exact ⟨rfl,rfl,rfl⟩
    | error e =>
      cases ha
  | _ => cases ho

theorem Attributing.step {s : Office} (hi : Attributing calls s.world s.going g ph) (hm : ToolMove (calls t) (ph t) o r p)
    (ha : s.world.act o r h = some m') (hadm : Spared s g (.task t o r h)) (hgo : s.going t) :
    Attributing calls m' s.going (track s (.task t o r h) g) (upd ph t p) := by
  have hright := hi.right t
  have hstate : ∀ key v, (ph t).owed (calls t) key = some v → s.world.state key = v :=
    fun key v hv => hi.state t key v hgo (hi.owed t key v hv)
  generalize hq : ph t = q at hm hright hstate
  cases hm with
  | failed p o e =>
    have htrack : track s (.task t o (.error e) h) g = g := by
      cases o <;> rfl
    rw [htrack]
    exact hi.fails ha hadm
  | derived o r =>
    cases ha
    exact hi.frame rfl (fun _ hc => hc) (fun _ _ hv => hq ▸ hv) (fun _ _ hv => hq ▸ hv) trivial (fun _ hn => hq ▸ hn)
  | first ids u =>
    cases ha
    exact hi.sets hadm (fun k x hx => (by rw [hq]; exact made_first hx)) (fun k x hx => (by rw [hq]; exact made_first hx))
      trivial rfl (fun cid hc => .inr hc)
  | set key todo ids u =>
    cases ha
    refine hi.sets hadm (fun k x hx => (by rw [hq]; exact made_set hx)) (fun k x hx => (by rw [hq]; exact made_set hx))
      trivial rfl (fun cid hc => ?_)
    by_cases hk : key = .correlationId
    · subst hk
      rw [Function.update_self] at hc
      cases hc
    · rw [Function.update_of_ne (Ne.symm hk)] at hc
      exact .inr hc
  | minted ids cid =>
    simp only [Room.act] at ha
    split at ha
    · cases ha
    · rename_i hfresh
      cases ha
      exact hi.mints hq hfresh
  | named ids cid u =>
    cases ha
    refine hi.sets hadm (fun k x hx => (by rw [hq]; exact made_named hx)) (fun k x hx => (by rw [hq]; exact made_named hx))
      trivial rfl (fun cid' hc => ?_)
    rw [Function.update_self] at hc
    cases hc
    exact .inl (by rw [hq]; rfl)
  | checked ids cid o r =>
    cases ha
    exact hi.frame rfl (fun _ hc => hc) (fun _ _ hv => hq ▸ hv) (fun _ _ hv => hq ▸ hv) trivial (fun _ hn => hq ▸ hn)
  | admitted ids cid got v =>
    obtain ⟨hv,rfl⟩ := act_getState ha
    refine hi.reads (fun k x hx => hq ▸ hx) (fun k x hx => ?_) ?_ rfl
    · rw [hq]
      cases k <;> first | exact ⟨by simp,hx⟩ | cases hx
    · refine right_read (fun k hk hn => absurd hk (by simpa [readOrder] using hn)) ?_
      rw [hv,hstate .correlationId _ rfl]
  | read key todo ids cid got v hk =>
    obtain ⟨hv,rfl⟩ := act_getState ha
    refine hi.reads (fun k x hx => hq ▸ hx) (fun k x hx => hq ▸ owes_later hk hx) (right_read hright ?_) rfl
    rw [hv,hstate key ((calls t).value ids (some cid) key) (by simp [Calling.owed])]
  | ran ids cid got result =>
    cases ha
    refine hi.frame rfl (fun _ hc => hc) (fun _ _ hv => hq ▸ hv) (fun k v hv => ?_) (fun k hk => ?_) (fun _ hn => (by cases hn))
    · rw [hq]
      exact hv
    · exact hright k (mem_readOrder hk) (by simp)
  | opened todo ids cid got exitCode o r ho =>
    obtain ⟨hs,hmint,htrack⟩ := act_sink (s := s) (t := t) (g := g) ho ha
    rw [htrack]
    exact hi.frame hs (fun _ hc => hmint ▸ hc) (fun _ _ hv => hq ▸ hv) (fun _ _ hv => hq ▸ hv) hright (fun _ hn => (by cases hn))
  | reread key todo ids cid got exitCode v hk =>
    obtain ⟨hv,rfl⟩ := act_getState ha
    have hs := hstate key ((calls t).value ids (some cid) key) (by simp [Calling.owed])
    refine hi.reads (fun k x hx => hq ▸ hx) (fun k x hx => hq ▸ owes_later hk hx) (fun k hn => ?_) rfl
    by_cases he : k = key
    · subst he
      rw [Function.update_self,hv,hs]
    · rw [Function.update_of_ne he]
      exact hright k (by simp [he,hn])
  | logged ids cid got exitCode r =>
    cases ha
    exact hi.rests rfl rfl
  | uploaded ids cid got exitCode r =>
    cases ha
    exact hi.rests rfl rfl

theorem Attributing.fewer {going' : Nat → Prop} (hi : Attributing calls m going g ph) (hgo : ∀ i, going' i → going i) :
    Attributing calls m going' g ph :=
  ⟨hi.made,hi.owed,fun i key v hl hv => hi.state i key v (hgo i hl) hv,hi.right,hi.minted,hi.distinct⟩

theorem attributing_run {srv : Server} {s : Office} (hr : roomMachine.Run Spared track (startTools srv calls) .empty s g) :
    ∃ ph, Attributing calls s.world s.going g ph ∧ ∀ t, Follows (ToolMove (calls t)) (ph t) (s.pool t) (fun _ _ => True) := by
  refine hr.followed (I := fun (s : Office) g ph => Attributing calls s.world s.going g ph) (fun _ => .deriving)
    (fun t => callTool_follows (calls t) srv) ?_ ?_ ?_
  · refine ⟨?_,?_,?_,?_,?_,?_⟩
    · rintro t key v ⟨⟩
    · rintro t key v ⟨⟩
    · rintro t key v _ ⟨⟩
    · exact fun _ => trivial
    · rintro t cid (⟨⟨⟩⟩ | ⟨⟨⟩⟩)
    · rintro t i cid (⟨⟨⟩⟩ | ⟨⟨⟩⟩)
  · intro s g ph t o k r h w p hi _ hadm hp hm _ ha
    have hgo : Office.going s t := by simp [Office.going,hp,Task.next]
    refine (hi.step hm ha hadm hgo).fewer (fun i hl => ?_)
    by_cases hit : i = t
    · rwa [hit]
    · simpa only [Office.going,upd_other _ _ hit] using hl
  · rintro s g ph e w hi _ ⟨⟩
    exact hi

structure Identified (c : ToolCall) (computed : (key : StateKey) → Option key.Val) (group : Group) (command : String)
    (userOid : Option Guid) (sessionId conversationId correlationId : Option String) : Prop where
  group : group = c.group
  command : command = c.command
  oid : userOid = c.oid ∧ computed .userOid = some userOid
  session : computed .sessionId = some sessionId
  conversation : computed .conversationId = some conversationId
  correlation : computed .correlationId = some correlationId

-- What a call hands to the executor and to the audit sink is its own.
structure Credited (c : ToolCall) (computed : (key : StateKey) → Option key.Val) (next : Option ToolOp) : Prop where
  exec : ∀ ctx command, next = some (.exec ctx command) → Identified c computed ctx.group command ctx.userOid ctx.sessionId
    ctx.conversationId ctx.correlationId
  row : ∀ event, next = some (.logInfo event) ∨ next = some (.upload event) → Identified c computed event.group event.command
      event.userOid event.sessionId event.conversationId event.correlationId ∧
    (event.userUpn = c.upn ∧ computed .userUpn = some event.userUpn) ∧
    event.clientIp = Audit.clientIp c.xForwardedFor ∧ computed .clientIp = some event.clientIp

theorem exec_identified {ids : Ids} {cid : String} {got : Got} {computed : (key : StateKey) → Option key.Val}
    (hmade : ∀ key, computed key = some (c.value ids (some cid) key))
    (hgot : ∀ key, key ∈ readOrder → got key = c.value ids (some cid) key) :
    Identified c computed c.group c.command (got .userOid) (got .sessionId) (got .conversationId) (got .correlationId) := by
  have hboth : ∀ key, key ∈ readOrder → computed key = some (got key) := fun key hk => (by rw [hmade,hgot key hk])
  exact ⟨rfl,rfl,⟨hgot .userOid (by decide),hboth .userOid (by decide)⟩,hboth .sessionId (by decide),
    hboth .conversationId (by decide),hboth .correlationId (by decide)⟩

theorem Attributing.row {ids : Ids} {cid : String} {got : Got} {exitCode : Option Int} (hi : Attributing calls m going g ph)
    (hp : ph t = .closing [] ids cid got exitCode) : Identified (calls t) (g.computed t) (calls t).group (calls t).command
      (got .userOid) (got .sessionId) (got .conversationId) (got .correlationId) ∧
    (got .userUpn = (calls t).upn ∧ g.computed t .userUpn = some (got .userUpn)) ∧
    got .clientIp = Audit.clientIp (calls t).xForwardedFor ∧ g.computed t .clientIp = some (got .clientIp) := by
  have hmade : ∀ key, g.computed t key = some ((calls t).value ids (some cid) key) :=
    fun key => hi.made t key _ (by rw [hp]; rfl)
  have hright := hi.right t
  rw [hp] at hright
  have hgot : ∀ key, got key = (calls t).value ids (some cid) key := fun key => hright key (by simp)
  refine ⟨exec_identified hmade (fun key _ => hgot key),⟨hgot .userUpn,?_⟩,hgot .clientIp,?_⟩
  · rw [hmade,hgot]
  · rw [hmade,hgot]

theorem Attributing.credited {α : Type} {q : T α} (hi : Attributing calls m going g ph)
    (hq : Follows (ToolMove (calls t)) (ph t) q (fun _ _ => True)) : Credited (calls t) (g.computed t) q.next := by
  refine ⟨fun ctx command hn => ?_,fun event hn => ?_⟩
  · obtain ⟨p,hm⟩ := hq.next hn (.ok ⟨none,[],[],false⟩)
    generalize hp : ph t = ph' at hm
    cases hm with
    | ran ids cid got =>
      have hright := hi.right t
      rw [hp] at hright
      refine exec_identified (fun key => hi.made t key _ (by rw [hp]; rfl)) (fun key hk => hright key hk (by simp))
    | opened _ _ _ _ _ _ _ ho => cases ho
  · rcases hn with hn | hn
    · obtain ⟨p,hm⟩ := hq.next hn (.ok ())
      generalize hp : ph t = ph' at hm
      cases hm with
      | logged ids cid got exitCode => exact hi.row hp
      | opened _ _ _ _ _ _ _ ho => cases ho
    · obtain ⟨p,hm⟩ := hq.next hn (.ok ())
      generalize hp : ph t = ph' at hm
      cases hm with
      | uploaded ids cid got exitCode => exact hi.row hp
      | opened _ _ _ _ _ _ _ ho => cases ho

theorem calls_attributed {srv : Server} {s : Office} (hr : roomMachine.Run Spared track (startTools srv calls) .empty s g) :
    (∀ t, Credited (calls t) (g.computed t) (s.pool t).next) ∧
    ∀ t i cid, g.computed t .correlationId = some (some cid) → g.computed i .correlationId = some (some cid) → t = i := by
  obtain ⟨ph,hi,hph⟩ := attributing_run hr
  exact ⟨fun t => hi.credited (hph t),fun t i cid ht hi' => hi.distinct t i cid (.inr ht) (.inr hi')⟩

end History

section Schedules

def localServer : Server := ⟨none,⟨"sre-diagnose","sre-action"⟩,⟨none,none,"Custom-MCPAudit_CL"⟩,Redact.Unicode.basic⟩

def annOid : Guid := ⟨"00000000-0000-0000-0000-00000000000a",by decide,List.all_iff_forall_prop.mp (by decide)⟩

def annToken : AccessToken := ⟨"jwt",some [("oid",annOid.text),("preferred_username","ann@x")]⟩

-- Two calls that a client sends at once on one connection.
def pair (t : Nat) : ToolCall :=
  ⟨annToken,annOid,rfl,some "10.0.0.1",⟨some "m1",some (if t = 0 then "r0" else "r1")⟩,.action,
    if t = 0 then "az group delete -n rg0" else "az group delete -n rg1",none⟩

def done (t : Nat) (o : ToolOp) (a : o.Ans) : OfficeStep := .task t o (.ok a) false

def storing (t : Nat) (request cid : String) : List OfficeStep :=
  [done t (.setState .userOid (some annOid)) (),done t (.setState .sessionId (some "m1")) (),
    done t (.setState .conversationId (some request)) (),done t (.setState .userUpn (some "ann@x")) (),
    done t (.setState .clientIp (some "10.0.0.1")) (),done t .newCorrelationId cid,
    done t (.setState .correlationId (some cid)) (),done t (.graph (.cacheGet ("groups:" ++ annOid.text))) (some ["sre-action"])]

def readingBack (t : Nat) (request cid : String) : List OfficeStep :=
  [done t (.getState .correlationId) (some cid),done t (.getState .userOid) (some annOid),
    done t (.getState .sessionId) (some "m1"),done t (.getState .conversationId) (some request)]

def pairCtx (request cid : String) : SessionCtx := ⟨some annOid,some "m1",some request,.action,some cid⟩

-- The second call stores its ids between the writes and the reads of the first one.
theorem ids_overwritten : ∃ s g, roomMachine.Run (fun _ _ _ => True) track (startTools localServer pair) .empty s g ∧
    (s.pool 0).next = some (.exec (pairCtx "r1" "c1") (pair 0).command) ∧
    (s.pool 1).next = some (.exec (pairCtx "r1" "c1") (pair 1).command) ∧
    g.computed 0 .correlationId = some (some "c0") ∧ g.computed 0 .conversationId = some (some "r0") := by
  obtain ⟨s,g,hr,hn⟩ : ∃ s g, roomMachine.Run (fun _ _ _ => True) track (startTools localServer pair) .empty s g ∧
      (((s.pool 0).next,(s.pool 1).next),g.computed 0 .correlationId,g.computed 0 .conversationId) =
        ((some (.exec (pairCtx "r1" "c1") (pair 0).command),some (.exec (pairCtx "r1" "c1") (pair 1).command)),
          some (some "c0"),some (some "r0")) :=
    Machine.replay_reaches (fun _ _ _ => true)
      (storing 0 "r0" "c0" ++ storing 1 "r1" "c1" ++ readingBack 0 "r1" "c1" ++ readingBack 1 "r1" "c1")
      (fun _ _ _ _ => trivial) (by decide +kernel)
  simp only [Prod.mk.injEq] at hn
  exact ⟨s,g,hr,hn.1.1,hn.1.2,hn.2.1,hn.2.2⟩

def sparing (_ : Office) (g : Desk) : OfficeStep → Bool
  | .task t (.setState key v) _ _ => decide (t < 2) && [0,1].all (fun i => (g.pending i key).all (fun v' => v' = v))
  | _ => true

theorem sparing_track {s : Office} {l : OfficeStep} {g : Desk} (hi : ∀ i key, 2 ≤ i → g.pending i key = none)
    (hl : sparing s g l = true) (i : Nat) (key : StateKey) (h2 : 2 ≤ i) : (track s l g).pending i key = none := by
  match l with
  | .env e => exact hi i key h2
  | .task t o r h =>
    cases o with
    | setState k v =>
      cases r with
      | error e => exact hi i key h2
      | ok u =>
        have ht : i ≠ t := by
          simp only [sparing,Bool.and_eq_true,decide_eq_true_eq] at hl
          omega
        simp only [track,upd_other _ _ ht]
        exact hi i key h2
    | getState k =>
      cases r with
      | error e => exact hi i key h2
      | ok v =>
        by_cases hit : i = t
        · subst hit
          simp only [track,upd_same]
          by_cases hk : key = k
          · subst hk
            exact Function.update_self _ _ _
          · rw [Function.update_of_ne hk]
            exact hi i key h2
        · simp only [track,upd_other _ _ hit]
          exact hi i key h2
    | _ => exact hi i key h2

theorem sparing_spared {s : Office} {l : OfficeStep} {g : Desk} (hi : ∀ i key, 2 ≤ i → g.pending i key = none)
    (hl : sparing s g l = true) : Spared s g l := by
  match l with
  | .env e => trivial
  | .task t o r h =>
    cases o with
    | setState key v =>
      intro _ i v' _ hv
      simp only [sparing,List.all_cons,List.all_nil,Bool.and_true,Bool.and_eq_true] at hl
      by_cases h2 : 2 ≤ i
      · rw [hi i key h2] at hv
        cases hv
      · have hboth : (g.pending i key).all (fun v' => v' = v) = true := by
          obtain rfl | rfl : i = 0 ∨ i = 1 := by omega
          · exact hl.2.1
          · exact hl.2.2
        simpa [hv] using hboth
    | _ => trivial

-- The second call stores its ids once the first one has read its own back.
theorem calls_attributed_pair : ∃ s g, roomMachine.Run Spared track (startTools localServer pair) .empty s g ∧
    (s.pool 0).next = some (.exec (pairCtx "r0" "c0") (pair 0).command) ∧
    (s.pool 1).next = some (.exec (pairCtx "r1" "c1") (pair 1).command) ∧
    ∀ t, Credited (pair t) (g.computed t) (s.pool t).next := by
  obtain ⟨s,g,hr,hn⟩ : ∃ s g, roomMachine.Run (fun s g l => sparing s g l = true) track (startTools localServer pair) .empty s g ∧
      ((s.pool 0).next,(s.pool 1).next) =
        (some (.exec (pairCtx "r0" "c0") (pair 0).command),some (.exec (pairCtx "r1" "c1") (pair 1).command)) :=
    Machine.replay_reaches sparing
      (storing 0 "r0" "c0" ++ readingBack 0 "r0" "c0" ++ storing 1 "r1" "c1" ++ readingBack 1 "r1" "c1")
      (fun _ _ _ hl => hl) (by decide +kernel)
  obtain ⟨hrun,_⟩ : roomMachine.Run Spared track (startTools localServer pair) .empty s g ∧
      ∀ i key, 2 ≤ i → g.pending i key = none := by
    clear hn
    induction hr with
    | start => exact ⟨.start,fun _ _ _ => rfl⟩
    | step _ hl hf ih => exact ⟨ih.1.step (sparing_spared ih.2 hl) hf,sparing_track ih.2 hl⟩
  simp only [Prod.mk.injEq] at hn
  exact ⟨s,g,hrun,hn.1,hn.2,(calls_attributed hrun).1⟩

end Schedules

end IdentityAwareMcp
