import IdentityAwareMcp.Model.ToolCall
import IdentityAwareMcp.Secrecy.Detectors

namespace IdentityAwareMcp

open Coop

section Trace

abbrev ToolTrace := Task.Played ToolOp ToolOp.Ans Exc

-- What was handed to the audit sink.
def handed (tr : ToolTrace) : List AuditEvent := tr.filterMap (fun x => match x.1 with
  | .logInfo event => some event
  | .upload event => some event
  | _ => none)

def executorOutcome : ToolTrace → Option (Except Exc ExecResult)
  | [] => none
  | ⟨.exec _ _,r⟩ :: _ => some r
  | _ :: tr => executorOutcome tr

def ToolOp.opensSink : ToolOp → Bool
  | .currentSink => true
  | .openSink _ _ _ => true
  | .keepSink _ => true
  | _ => false

def ToolOp.reads : ToolOp → Bool
  | .getState _ => true
  | _ => false

def ToolOp.hands : ToolOp → Bool
  | .logInfo _ => true
  | .upload _ => true
  | _ => false

def Failed (p : ToolOp → Bool) (tr : ToolTrace) (e : Exc) : Prop := ∃ x ∈ tr, p x.1 = true ∧ ∃ o, x = ⟨o,.error e⟩

-- No read of the session's state fails or is cut off.
def StateAnswers (tr : ToolTrace) : Prop := ∀ e, ¬ Failed ToolOp.reads tr e

def SinkOpens (tr : ToolTrace) : Prop := ∀ e, ¬ Failed ToolOp.opensSink tr e

-- The call is not cancelled while it waits for the sink.
def RecordUncut (tr : ToolTrace) : Prop := ∀ e, Failed ToolOp.hands tr e → e.isException = true

variable {α β : Type} {tr : ToolTrace}

theorem plays_invoke {o : ToolOp} {f : o.Ans → T β} {res : Except Exc β}
    (hp : Task.Plays ((invoke o).bind f) tr res) : (∃ a tr', tr = ⟨o,.ok a⟩ :: tr' ∧ Task.Plays (f a) tr' res) ∨
      ∃ e, tr = [⟨o,.error e⟩] ∧ res = .error e := by
  cases hp with
  | call _ _ r tr _ hk =>
    cases r with
    | ok a => exact .inl ⟨a,tr,rfl,hk⟩
    | error e =>
      cases hk
      exact .inr ⟨e,rfl,rfl⟩

theorem failed_nil {p : ToolOp → Bool} {e : Exc} : ¬ Failed p [] e := by
  rintro ⟨x,hx,_⟩
  cases hx

theorem failed_ok {p : ToolOp → Bool} {o : ToolOp} {a : o.Ans} {e : Exc} :
    Failed p (⟨o,.ok a⟩ :: tr) e ↔ Failed p tr e := by
  constructor
  · rintro ⟨x,hx,hp,o',rfl⟩
    rcases List.mem_cons.mp hx with hx | hx
    · cases hx
    · exact ⟨_,hx,hp,o',rfl⟩
  · rintro ⟨x,hx,hp⟩
    exact ⟨x,List.mem_cons_of_mem _ hx,hp⟩

theorem failed_error {p : ToolOp → Bool} {o : ToolOp} {e e' : Exc} :
    Failed p (⟨o,.error e'⟩ :: tr) e ↔ (p o = true ∧ e = e') ∨ Failed p tr e := by
  constructor
  · rintro ⟨x,hx,hp,o',rfl⟩
    rcases List.mem_cons.mp hx with hx | hx
    · cases hx
      exact .inl ⟨hp,rfl⟩
    · exact .inr ⟨_,hx,hp,o',rfl⟩
  · rintro (⟨hp,rfl⟩ | ⟨x,hx,hp⟩)
    · exact ⟨_,List.mem_cons_self,hp,o,rfl⟩
    · exact ⟨x,List.mem_cons_of_mem _ hx,hp⟩

theorem failed_append {p : ToolOp → Bool} {tr tr' : ToolTrace} {e : Exc} :
    Failed p (tr ++ tr') e ↔ Failed p tr e ∨ Failed p tr' e := by
  simp only [Failed,List.mem_append,or_and_right,exists_or]

theorem failed_none {p : ToolOp → Bool} {e : Exc} (h : ∀ x ∈ tr, p x.1 = false) : ¬ Failed p tr e := by
  rintro ⟨x,hx,hp,_⟩
  rw [h x hx] at hp
  cases hp

theorem sinkOpens_ok {o : ToolOp} {a : o.Ans} : SinkOpens (⟨o,.ok a⟩ :: tr) ↔ SinkOpens tr :=
  forall_congr' (fun _ => not_congr failed_ok)

theorem recordUncut_ok {o : ToolOp} {a : o.Ans} : RecordUncut (⟨o,.ok a⟩ :: tr) ↔ RecordUncut tr :=
  forall_congr' (fun _ => imp_congr failed_ok Iff.rfl)

theorem sinkOpens_append {tr tr' : ToolTrace} : SinkOpens (tr ++ tr') ↔ SinkOpens tr ∧ SinkOpens tr' := by
  simp only [SinkOpens,failed_append,not_or,forall_and]

theorem recordUncut_append {tr tr' : ToolTrace} : RecordUncut (tr ++ tr') ↔ RecordUncut tr ∧ RecordUncut tr' := by
  simp only [RecordUncut,failed_append,or_imp,forall_and]

theorem stateAnswers_ok {o : ToolOp} {a : o.Ans} : StateAnswers (⟨o,.ok a⟩ :: tr) ↔ StateAnswers tr :=
  forall_congr' (fun _ => not_congr failed_ok)

theorem stateAnswers_append {tr tr' : ToolTrace} : StateAnswers (tr ++ tr') ↔ StateAnswers tr ∧ StateAnswers tr' := by
  simp only [StateAnswers,failed_append,not_or,forall_and]

theorem plays_read {key : StateKey} {f : key.Val → T β} {res : Except Exc β}
    (hp : Task.Plays ((invoke (.getState key)).bind f) tr res) :
    (∃ (v : (ToolOp.getState key).Ans) (tr' : ToolTrace), tr = ⟨.getState key,.ok v⟩ :: tr' ∧ Task.Plays (f v) tr' res) ∨
      ¬ StateAnswers tr ∧ handed tr = [] ∧ executorOutcome tr = none ∧ ∃ e, res = .error e := by
  rcases plays_invoke hp with ⟨v,tr',rfl,hk⟩ | ⟨e,rfl,hres⟩
  · exact .inl ⟨v,tr',rfl,hk⟩
  · exact .inr ⟨fun h => h e (failed_error.mpr (.inl ⟨rfl,rfl⟩)),rfl,rfl,e,hres⟩

theorem kept_plays {sink : AuditSink} {res : Except Exc AuditSink}
    (hp : Task.Plays ((invoke (.keepSink sink)).bind (fun _ => .ret sink)) tr res) :
    (∀ x ∈ tr, x.1.opensSink = true) ∧ (SinkOpens tr ↔ ∃ sink, res = .ok sink) := by
  rcases plays_invoke hp with ⟨u,tr,rfl,hk⟩ | ⟨e,rfl,rfl⟩
  · cases hk
    exact ⟨by simp [ToolOp.opensSink],iff_of_true (fun e he => failed_nil (failed_ok.mp he)) ⟨_,rfl⟩⟩
  · refine ⟨by simp [ToolOp.opensSink],iff_of_false (fun h => h e (failed_error.mpr (.inl ⟨rfl,rfl⟩))) ?_⟩
    rintro ⟨_,h⟩
    cases h

theorem sink_plays {cfg : Audit.Settings} {res : Except Exc AuditSink} (hp : Task.Plays (Audit.getAuditSink cfg) tr res) :
    (∀ x ∈ tr, x.1.opensSink = true) ∧ (SinkOpens tr ↔ ∃ sink, res = .ok sink) := by
  have hok : ∀ {o : ToolOp} {a : o.Ans} {tr : ToolTrace}, o.opensSink = true →
      (∀ x ∈ tr, x.1.opensSink = true) ∧ (SinkOpens tr ↔ ∃ sink, res = .ok sink) →
      (∀ x ∈ (⟨o,.ok a⟩ :: tr : ToolTrace), x.1.opensSink = true) ∧
        (SinkOpens (⟨o,.ok a⟩ :: tr) ↔ ∃ sink, res = .ok sink) := by
    rintro o a tr ho ⟨hall,hiff⟩
    refine ⟨?_,?_⟩
    · intro x hx
      rcases List.mem_cons.mp hx with rfl | hx
      · exact ho
      · exact hall x hx
    · simp only [SinkOpens,failed_ok]
      exact hiff
  have herr : ∀ {o : ToolOp} {e : Exc}, o.opensSink = true → res = .error e →
      (∀ x ∈ ([⟨o,.error e⟩] : ToolTrace), x.1.opensSink = true) ∧
        (SinkOpens [⟨o,.error e⟩] ↔ ∃ sink, res = .ok sink) := by
    rintro o e ho rfl
    refine ⟨by simpa using ho,iff_of_false (fun h => h e (failed_error.mpr (.inl ⟨ho,rfl⟩))) ?_⟩
    rintro ⟨_,h⟩
    cases h
  rcases plays_invoke hp with ⟨found,tr,rfl,hk⟩ | ⟨e,rfl,hres⟩
  · refine hok rfl ?_
    cases found with
    | some sink =>
      cases hk
      exact ⟨by simp,iff_of_true (fun _ => failed_nil) ⟨_,rfl⟩⟩
    | none =>
      simp only at hk
      split at hk
      · rcases plays_invoke hk with ⟨sink,tr,rfl,hk'⟩ | ⟨e,rfl,hres⟩
        · exact hok rfl (kept_plays hk')
        · exact herr rfl hres
      · exact kept_plays hk
  · exact herr rfl hres

-- A sink swallows whatever is an Exception.
theorem swallow_plays {o : ToolOp} {k : Except Exc o.Ans → T Unit} {res : Except Exc Unit} (ho : o.hands = true)
    (hok : ∀ a, k (.ok a) = .ret ()) (herr : ∀ e, k (.error e) = .raise e)
    (hp : Task.Plays (swallow (.call o k)) tr res) : ∃ r, tr = [⟨o,r⟩] ∧ (RecordUncut tr ↔ res = .ok ()) := by
  cases hp with
  | call _ _ r tr _ hk =>
    cases r with
    | ok a =>
      simp only [hok,Task.handle] at hk
      cases hk
      exact ⟨.ok a,rfl,iff_of_true (fun e he => absurd (failed_ok.mp he) failed_nil) rfl⟩
    | error e =>
      simp only [herr,Task.handle] at hk
      refine ⟨.error e,?_⟩
      split at hk
      · rename_i he
        cases hk
        refine ⟨rfl,iff_of_true (fun e' he' => ?_) rfl⟩
        rcases failed_error.mp he' with ⟨_,rfl⟩ | he'
        · exact he
        · exact absurd he' failed_nil
      · rename_i he
        cases hk
        refine ⟨rfl,iff_of_false (fun h => he (h e (failed_error.mpr (.inl ⟨ho,rfl⟩)))) ?_⟩
        intro h
        cases h

theorem record_plays {sink : AuditSink} {event : AuditEvent} {res : Except Exc Unit}
    (hp : Task.Plays (Audit.record sink event) tr res) :
    handed tr = [event] ∧ (∀ x ∈ tr, x.1.hands = true) ∧ (RecordUncut tr ↔ res = .ok ()) := by
  cases sink with
  | stdout =>
    obtain ⟨r,rfl,hu⟩ := swallow_plays rfl (fun _ => rfl) (fun _ => rfl) hp
    exact ⟨rfl,by simp [ToolOp.hands],hu⟩
  | logAnalytics endpoint ruleId stream =>
    obtain ⟨r,rfl,hu⟩ := swallow_plays rfl (fun _ => rfl) (fun _ => rfl) hp
    exact ⟨rfl,by simp [ToolOp.hands],hu⟩

theorem handed_append {tr tr' : ToolTrace} : handed (tr ++ tr') = handed tr ++ handed tr' := List.filterMap_append

theorem handed_sink (h : ∀ x ∈ tr, x.1.opensSink = true) : handed tr = [] := by
  refine List.filterMap_eq_nil_iff.mpr (fun x hx => ?_)
  have ho := h x hx
  obtain ⟨o,r⟩ := x
  cases o <;> first | rfl | cases ho

theorem kinds_apart {p q : ToolOp → Bool} (hpq : ∀ o, p o = true → q o = false) (h : ∀ x ∈ tr, p x.1 = true) :
    ∀ x ∈ tr, q x.1 = false :=
  fun x hx => hpq x.1 (h x hx)

theorem sink_apart {o : ToolOp} (ho : o.opensSink = true) : o.hands = false ∧ o.reads = false := by
  cases o <;> first | exact ⟨rfl,rfl⟩ | cases ho

theorem hands_apart {o : ToolOp} (ho : o.hands = true) : o.opensSink = false ∧ o.reads = false := by
  cases o <;> first | exact ⟨rfl,rfl⟩ | cases ho

end Trace

section Exec

variable (srv : Server) {group : Group} {command : String} {explanation : Option String} {tr : ToolTrace}
variable {res : Except Exc ExecResult}

-- One event of this call reached the sink, and the caller got what the executor gave.
structure Audited (group : Group) (command : String) (tr : ToolTrace) (res : Except Exc ExecResult) : Prop where
  once : ∃ event : AuditEvent, handed tr = [event] ∧ event.command = command ∧
    (⟨.getState .correlationId,.ok event.correlationId⟩ : Σ o, Except Exc (ToolOp.Ans o)) ∈ tr ∧
    (⟨.getState .userOid,.ok event.userOid⟩ : Σ o, Except Exc (ToolOp.Ans o)) ∈ tr
  same : ∃ r, executorOutcome tr = some r ∧ res = r.map (redactFor srv group)

-- The sink is opened, two keys are read and the record is made.
theorem around_record {tr tr' : ToolTrace} {k k' : StateKey} (v : (ToolOp.getState k).Ans)
    (v' : (ToolOp.getState k').Ans) (hopen : ∀ x ∈ tr, x.1.opensSink = true) (hhands : ∀ x ∈ tr', x.1.hands = true) :
    handed (tr ++ ⟨.getState k,.ok v⟩ :: ⟨.getState k',.ok v'⟩ :: tr') = handed tr' ∧
    (SinkOpens (tr ++ ⟨.getState k,.ok v⟩ :: ⟨.getState k',.ok v'⟩ :: tr') ↔ SinkOpens tr) ∧
    StateAnswers (tr ++ ⟨.getState k,.ok v⟩ :: ⟨.getState k',.ok v'⟩ :: tr') ∧
    (RecordUncut (tr ++ ⟨.getState k,.ok v⟩ :: ⟨.getState k',.ok v'⟩ :: tr') ↔ RecordUncut tr') := by
  refine ⟨?_,?_,?_,?_⟩
  · rw [handed_append,handed_sink hopen]
    rfl
  · refine sinkOpens_append.trans (and_iff_left ?_)
    exact sinkOpens_ok.mpr (sinkOpens_ok.mpr (fun e => failed_none (kinds_apart (fun _ ho => (hands_apart ho).1) hhands)))
  · refine stateAnswers_append.mpr ⟨fun e => failed_none (kinds_apart (fun _ ho => (sink_apart ho).2) hopen),?_⟩
    exact stateAnswers_ok.mpr (stateAnswers_ok.mpr (fun e => failed_none (kinds_apart (fun _ ho => (hands_apart ho).2) hhands)))
  · refine recordUncut_append.trans ((and_iff_right ?_).trans (recordUncut_ok.trans recordUncut_ok))
    exact fun e he => absurd he (failed_none (kinds_apart (fun _ ho => (sink_apart ho).1) hopen))

-- What execTool still does when the executor has returned.
def audited (sctx : SessionCtx) (command : String) (explanation : Option String) (result : ExecResult) : T ExecResult := do
  let sink ← Audit.getAuditSink srv.audit
  let userUpn ← invoke (.getState .userUpn)
  let clientIp ← invoke (.getState .clientIp)
  Audit.record sink ⟨sctx.correlationId,sctx.group.name ++ "_bash",sctx.group,sctx.userOid,userUpn,clientIp,
    sctx.sessionId,sctx.conversationId,command,explanation,result.exitCode⟩
  return result

theorem audited_plays {sctx : SessionCtx} {result : ExecResult}
    (hp : Task.Plays (audited srv sctx command explanation result) tr res) :
    (handed tr = [] ∧ ¬ (SinkOpens tr ∧ StateAnswers tr)) ∨
    (SinkOpens tr ∧ StateAnswers tr) ∧ (∃ event : AuditEvent, handed tr = [event] ∧ event.command = command ∧
      event.correlationId = sctx.correlationId ∧ event.userOid = sctx.userOid) ∧
      (RecordUncut tr ∧ res = .ok result ∨ ¬ RecordUncut tr ∧ ∃ e, res = .error e) := by
  rcases Task.plays_bind hp with ⟨tr₁,tr₂,sink,rfl,hsink,hp₁⟩ | ⟨e,hsink,rfl⟩
  · obtain ⟨hall,hopens⟩ := sink_plays hsink
    have hunread : ∀ {tr₂}, handed tr₂ = [] → ¬ StateAnswers tr₂ →
        handed (tr₁ ++ tr₂) = [] ∧ ¬ (SinkOpens (tr₁ ++ tr₂) ∧ StateAnswers (tr₁ ++ tr₂)) := by
      refine fun hh hn => ⟨?_,fun h => hn (stateAnswers_append.mp h.2).2⟩
      rw [handed_append,handed_sink hall,hh,List.append_nil]
    rcases plays_read hp₁ with ⟨upn,tr₃,rfl,hp₂⟩ | ⟨hn,hh,_⟩
    · rcases plays_read hp₂ with ⟨ip,tr₄,rfl,hp₃⟩ | ⟨hn,hh,_⟩
      · refine .inr ?_
        have hstart : SinkOpens tr₁ := hopens.mpr ⟨sink,rfl⟩
        rcases Task.plays_bind hp₃ with ⟨tr₅,tr₆,u,rfl,hrec,hret⟩ | ⟨e,hrec,rfl⟩
        · obtain ⟨hh,hhands,huncut⟩ := record_plays hrec
          obtain ⟨hsum,hsink',hreads,hcut⟩ := around_record upn ip hall hhands
          cases hret
          rw [List.append_nil,hsum,hsink',hcut]
          exact ⟨⟨hstart,hreads⟩,⟨_,hh,rfl,rfl,rfl⟩,.inl ⟨huncut.mpr rfl,rfl⟩⟩
        · obtain ⟨hh,hhands,huncut⟩ := record_plays hrec
          obtain ⟨hsum,hsink',hreads,hcut⟩ := around_record upn ip hall hhands
          rw [hsum,hsink',hcut]
          refine ⟨⟨hstart,hreads⟩,⟨_,hh,rfl,rfl,rfl⟩,.inr ⟨fun h => ?_,e,rfl⟩⟩
          cases huncut.mp h
      · exact .inl (hunread hh (fun h => hn (stateAnswers_ok.mp h)))
    · exact .inl (hunread hh hn)
  · obtain ⟨hall,hopens⟩ := sink_plays hsink
    refine .inl ⟨handed_sink hall,fun h => ?_⟩
    obtain ⟨_,h⟩ := hopens.mp h.1
    cases h

-- Nothing is recorded of a call whose executor was never asked.
theorem unasked_audited (hh : handed tr = []) (hx : executorOutcome tr = none) : Audited srv group command tr res ↔
    (∃ result, executorOutcome tr = some (.ok result)) ∧ SinkOpens tr ∧ StateAnswers tr ∧ RecordUncut tr := by
  refine iff_of_false ?_ ?_
  · rintro ⟨⟨event,h,_⟩,_⟩
    rw [hh] at h
    cases h
  · rintro ⟨⟨result,h⟩,_⟩
    rw [hx] at h
    cases h

theorem exec_audited (hp : Task.Plays (execTool srv group command explanation) tr res) :
    Audited srv group command tr res ↔
      (∃ result, executorOutcome tr = some (.ok result)) ∧ SinkOpens tr ∧ StateAnswers tr ∧ RecordUncut tr := by
  rcases plays_read hp with ⟨cid,tr₁,rfl,hp₁⟩ | ⟨_,hh,hx,_⟩
  swap
  · exact unasked_audited srv hh hx
  rcases plays_read hp₁ with ⟨oid,tr₂,rfl,hp₂⟩ | ⟨_,hh,hx,_⟩
  swap
  · exact unasked_audited srv hh hx
  rcases plays_read hp₂ with ⟨sid,tr₃,rfl,hp₃⟩ | ⟨_,hh,hx,_⟩
  swap
  · exact unasked_audited srv hh hx
  rcases plays_read hp₃ with ⟨conv,tr₄,rfl,hp₄⟩ | ⟨_,hh,hx,_⟩
  swap
  · exact unasked_audited srv hh hx
  rcases plays_invoke hp₄ with ⟨result,tr₅,rfl,hp₅⟩ | ⟨e,rfl,rfl⟩
  · rw [sinkOpens_ok.trans (sinkOpens_ok.trans (sinkOpens_ok.trans (sinkOpens_ok.trans sinkOpens_ok))),
      stateAnswers_ok.trans (stateAnswers_ok.trans (stateAnswers_ok.trans (stateAnswers_ok.trans stateAnswers_ok))),
      recordUncut_ok.trans (recordUncut_ok.trans (recordUncut_ok.trans (recordUncut_ok.trans recordUncut_ok)))]
    have hp₆ : Task.Plays (audited srv ⟨oid,sid,conv,group,cid⟩ command explanation (redactFor srv group result)) tr₅ res := hp₅
    rcases audited_plays srv hp₆ with ⟨hh,hn⟩ | ⟨hopen,⟨event,hh,hc,hcid,hoid⟩,hrest⟩
    · refine iff_of_false ?_ (fun h => hn ⟨h.2.1,h.2.2.1⟩)
      rintro ⟨⟨event,h,_⟩,_⟩
      exact absurd (hh.symm.trans h) (by simp)
    · rcases hrest with ⟨huncut,rfl⟩ | ⟨huncut,e,rfl⟩
      · refine iff_of_true ⟨⟨event,hh,hc,?_,?_⟩,.ok result,rfl,rfl⟩ ⟨⟨result,rfl⟩,hopen.1,hopen.2,huncut⟩
        · rw [hcid]
          exact List.mem_cons_self
        · rw [hoid]
          exact List.mem_cons_of_mem _ List.mem_cons_self
      · refine iff_of_false ?_ (fun h => huncut h.2.2.2)
        rintro ⟨_,r,hr,hres⟩
        cases hr
        cases hres
  · refine iff_of_false ?_ ?_
    · rintro ⟨⟨event,h,_⟩,_⟩
      cases h
    · rintro ⟨⟨result,h⟩,_⟩
      cases h

end Exec

section Schedules

def sampleServer : Server := ⟨none,⟨"sre-diagnose","sre-action"⟩,⟨some "https://dce",some "dcr-1","Custom-MCPAudit_CL"⟩,
  Redact.Unicode.basic⟩

def gives (o : ToolOp) (a : o.Ans) : Σ o : ToolOp, Except Exc o.Ans := ⟨o,.ok a⟩

def throws (o : ToolOp) (e : Exc) : Σ o : ToolOp, Except Exc o.Ans := ⟨o,.error e⟩

def sampleReads : ToolTrace :=
  [gives (.getState .correlationId) (some "c1"),gives (.getState .userOid) none,gives (.getState .sessionId) (some "s1"),
    gives (.getState .conversationId) (some "v1")]

def auditCtx : SessionCtx := ⟨none,some "s1",some "v1",.action,some "c1"⟩

def sampleDelete : String := "az group delete -n rg1"

def sampleResult : ExecResult := ⟨some 0,['o','k'],[],false⟩

def sampleEvent : AuditEvent :=
  ⟨some "c1","action_bash",.action,none,some "ann@x",some "10.0.0.1",some "s1",some "v1",sampleDelete,some "why",some 0⟩

instance : DecidableEq (Option (Except Exc ExecResult)) := inferInstance

def readTimeout : ToolTrace := sampleReads ++ [throws (.exec auditCtx sampleDelete) .timeout]

def noSink : ToolTrace := sampleReads ++ [gives (.exec auditCtx sampleDelete) sampleResult,gives .currentSink none,
  throws (.openSink "https://dce" "dcr-1" "Custom-MCPAudit_CL") .other]

def slowUpload : ToolTrace := sampleReads ++ [gives (.exec auditCtx sampleDelete) sampleResult,
  gives .currentSink (some (.logAnalytics "https://dce" "dcr-1" "Custom-MCPAudit_CL")),
  gives (.getState .userUpn) (some "ann@x"),gives (.getState .clientIp) (some "10.0.0.1"),throws (.upload sampleEvent) .timeout]

-- The call is cancelled while the user's name is read for the record.
def cutRead : ToolTrace := sampleReads ++ [gives (.exec auditCtx sampleDelete) sampleResult,
  gives .currentSink (some (.logAnalytics "https://dce" "dcr-1" "Custom-MCPAudit_CL")),throws (.getState .userUpn) .cancelled]

theorem stateAnswers_of {tr : ToolTrace} (h : ∀ x ∈ tr, x.1.reads = true → x.2.isOk = true) : StateAnswers tr := by
  rintro e ⟨_,hx,hp,o,rfl⟩
  cases h _ hx hp

-- The executor times out after it has sent the command; or the command has run and then the sink
-- cannot be built, or a read for the record is cut off.
theorem exec_unaudited :
    (Task.Plays (execTool sampleServer .action sampleDelete (some "why")) readTimeout (.error .timeout) ∧
      StateAnswers readTimeout ∧ executorOutcome readTimeout = some (.error .timeout) ∧ handed readTimeout = []) ∧
    (Task.Plays (execTool sampleServer .action sampleDelete (some "why")) noSink (.error .other) ∧
      StateAnswers noSink ∧ executorOutcome noSink = some (.ok sampleResult) ∧ handed noSink = []) ∧
    Task.Plays (execTool sampleServer .action sampleDelete (some "why")) cutRead (.error .cancelled) ∧
      executorOutcome cutRead = some (.ok sampleResult) ∧ handed cutRead = [] :=
  ⟨⟨Task.plays_of_play (by decide +kernel),stateAnswers_of (by decide +kernel),rfl,rfl⟩,
    ⟨Task.plays_of_play (by decide +kernel),stateAnswers_of (by decide +kernel),rfl,rfl⟩,
    Task.plays_of_play (by decide +kernel),rfl,rfl⟩

def swallows {α : Type} : Except Exc α → Bool
  | .ok _ => true
  | .error e => e.isException

theorem exec_audited_slow : ∃ res, Task.Plays (execTool sampleServer .action sampleDelete (some "why")) slowUpload res ∧
    Audited sampleServer .action sampleDelete slowUpload res := by
  have hp : Task.Plays (execTool sampleServer .action sampleDelete (some "why")) slowUpload
      (.ok (redactFor sampleServer .action sampleResult)) := Task.plays_of_play (by decide +kernel)
  refine ⟨_,hp,(exec_audited sampleServer hp).mpr ⟨⟨sampleResult,rfl⟩,?_,stateAnswers_of (by decide +kernel),?_⟩⟩
  · rintro e ⟨_,hx,ho,o,rfl⟩
    have hall : ∀ x ∈ slowUpload, x.1.opensSink = true → x.2.isOk = true := by decide +kernel
    cases hall _ hx ho
  · rintro e ⟨_,hx,ho,o,rfl⟩
    have hall : ∀ x ∈ slowUpload, x.1.hands = true → swallows x.2 = true := by decide +kernel
    exact hall _ hx ho

end Schedules

end IdentityAwareMcp
