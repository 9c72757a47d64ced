import Mathlib.Data.Set.Card
import IdentityAwareMcp.Safety.Critical

namespace IdentityAwareMcp

open Coop SandboxManager

section Courses

-- The stages of a call that is past its request for a sandbox of its own.
@[simp] def Stage.past : Stage → Bool
  | .start => false
  | .wait => false
  | .look => false
  | .refresh _ => false
  | .wake _ => false
  | .unbind => false
  | .prep => false
  | _ => true

variable {cfg : Config} {rep : Nat → Nat} {t : Nat} {o : Op} {r : Except Exc o.Ans} {h : Hint} {w w' : World}
variable {x : SessionCtx} {command : Option String} {st st' : Stage}

theorem leaving_past {res : Option Client} (hl : Leaving res st) : st.past = true := by
  rcases hl with rfl | rfl <;> rfl

theorem call_past (hcm : CallMove cfg x command st o r st') (hp : st.past = true) :
    st'.past = true ∧ ∀ c, st'.client = some c → st.client = some c := by
  cases hcm with
  | published c r st hr hst =>
    rw [hst]
    split <;> exact ⟨rfl,fun _ hc => hc⟩
  | flagged c st hl => exact ⟨leaving_past hl,fun _ hc => (leaving_client hl).symm.trans hc⟩
  | marked c r st hr hl => exact ⟨leaving_past hl,fun _ hc => (leaving_client hl).symm.trans hc⟩
  | _ =>
    first
      | (cases hp; done)
      | exact ⟨rfl,fun _ hc => hc⟩
      | exact ⟨rfl,by simp⟩
      | (rename_i hl; exact ⟨leaving_past hl,fun _ hc => by rw [leaving_client hl] at hc; cases hc⟩)

-- Where a call makes a sandbox, that is its only client from then on.
theorem call_creates {id : String} {b : Box} (hcm : CallMove cfg x command st o r st')
    (ha : act rep t o w r h = some w') (hn : w.boxes id = none) (hb : w'.boxes id = some b) :
    b.creator = t ∧ st.past = false ∧ st'.past = true ∧ ∀ c, st'.client = some c → c.sandboxId = id := by
  obtain ⟨g,spec,ho,rfl⟩ := act_fresh ha hn hb
  cases hcm with
  | began spec' c hsp =>
    obtain ⟨_,_,rfl⟩ := act_beginCreate ha
    refine ⟨rfl,rfl,rfl,?_⟩
    rintro _ ⟨⟩
    rw [create_boxes] at hb
    split at hb
    · rename_i hid
      exact hid.symm
    · rw [hn] at hb
      cases hb
  | beginFailed spec' e st hsp hl =>
    refine ⟨rfl,rfl,leaving_past hl,fun c hc => ?_⟩
    rw [leaving_client hl] at hc
    cases hc
  | prepared c r hp => cases ho; exact hp.elim
  | prepFailed c r st hp hl => cases ho; exact hp.elim
  | _ => cases ho

-- The sandbox that a call has set up stays its choice until its set-up fails.
theorem call_retains {c : Client} (hcm : CallMove cfg x none st o r st') (ha : act rep t o w r h = some w')
    (hun : Unbroken (.task t o r h)) (hp : st.past = true) (hs : st.settled = some c) :
    st' = .rollback ∨ st'.settled = some c := by
  have hcut : ∀ {e : Exc}, r = .error e → e.isException = false → o.timed = false → False := by
    intro e hr he ho
    rw [unbroken_cut ha hun hr ho] at he
    cases he
  cases hcm with
  | flagged c st hl => rcases hl with rfl | rfl <;> exact .inr hs
  | bootRefused c res h0 => exact .inl rfl
  | bootFailed c e he => exact .inl rfl
  | marked c r st hr hl => rcases hl with rfl | rfl <;> exact .inr hs
  | releaseFailed res e => cases ha
  | ran c cmd res hc => cases hc
  | runFailed c cmd e hc => cases hc
  | _ =>
    first
      | (cases hp; done)
      | (cases hs; done)
      | exact .inr hs
      | exact (hcut rfl (by assumption) rfl).elim

end Courses

section Invariant

variable (cfg : Config) (ctx : SessionCtx)

def Tied (w : World) (id : String) : Prop := ∃ e, w.redis (ctxKey cfg ctx) = some e ∧ e.val = .text id

structure Single (w : World) (ph : Nat → Phase) : Prop where
  isolated : Isolated cfg w ph
  fresh : Fresh w ph
  typed : ∀ e, w.redis (ctxKey cfg ctx) = some e → ∃ id, e.val = .text id
  cold : ∀ i x st, ph i = .call x none st → st.clear = true → w.redis (ctxKey cfg ctx) = none
  settled : ∀ i x st c, ph i = .call x none st → st.settled = some c → Tied cfg ctx w c.sandboxId
  sole : ∀ i j x y st st' c, ph i = .call x none st → st.sole = true → ph j = .call y none st' →
    st'.settled = some c → j = i
  building : ∀ i x st c, ph i = .call x none st → st.building = some c →
    ∃ b, w.boxes c.sandboxId = some b ∧ b.deleting = false ∧ (st.built = some c → b.gone = false)
  sound : ∀ id, Tied cfg ctx w id → ∃ b, w.boxes id = some b ∧ b.deleting = false ∧ b.gone = false
  past : ∀ id b x st, w.boxes id = some b → ph b.creator = .call x none st →
    st.past = true ∧ ∀ c, st.client = some c → c.sandboxId = id
  once : ∀ id id' b b', w.boxes id = some b → w.boxes id' = some b' → b.creator = b'.creator → id = id'
  author : ∀ id b, Tied cfg ctx w id → w.boxes id = some b → ∃ x st, ph b.creator = .call x none st ∧
    st.past = true ∧ (st = .rollback ∨ ∃ c, st.settled = some c ∧ c.sandboxId = id)
  listed : w.made.Nodup ∧ ∀ id, id ∈ w.made ↔ w.boxes id ≠ none

end Invariant

section Step

variable {cfg : Config} {jobs : Nat → Job} {rep : Nat → Nat} {t : Nat} {o : Op} {r : Except Exc o.Ans} {h : Hint}
variable {s : System} {w' : World} {g : Nat → Spell} {ph : Nat → Phase} {ctx x : SessionCtx} {st st' : Stage}

theorem Tied.unique {w : World} {id id' : String} (hb : Tied cfg ctx w id) (hb' : Tied cfg ctx w id') : id = id' := by
  obtain ⟨e,he,hv⟩ := hb
  obtain ⟨e',he',hv'⟩ := hb'
  rw [he] at he'
  cases he'
  exact Value.text.inj (hv.symm.trans hv')

theorem tied_congr {w : World} (hr : w'.redis (ctxKey cfg ctx) = w.redis (ctxKey cfg ctx)) (id : String) :
    Tied cfg ctx w' id ↔ Tied cfg ctx w id := by
  simp only [Tied,hr]

-- What one step of a call does to what its routing key is bound to.
inductive Binds (cfg : Config) (ctx : SessionCtx) (w w' : World) : Stage → Prop
  | keeps (st : Stage) : (∀ id, Tied cfg ctx w' id ↔ Tied cfg ctx w id) →
      (w.redis (ctxKey cfg ctx) = none → w'.redis (ctxKey cfg ctx) = none) → Binds cfg ctx w w' st
  | binds (c : Client) : w.redis (ctxKey cfg ctx) = none → Tied cfg ctx w' c.sandboxId → Binds cfg ctx w w' (.publish c)
  | drops : w'.redis (ctxKey cfg ctx) = none → Binds cfg ctx w w' .rollback

theorem call_binds (hi : Single cfg ctx s.world ph) (hp : ph t = .call x none st)
    (he : CallEffect cfg t x s.world st o r w' st') : Binds cfg ctx s.world w' st := by
  rcases effect_keys he ctx with hr | ⟨_,_,⟨c,rfl | rfl,_,hr⟩ | ⟨rfl | rfl,hr⟩⟩
  · exact .keeps _ (tied_congr hr) (fun hn => hr.trans hn)
  · have hb : Tied cfg ctx w' c.sandboxId := ⟨_,hr,rfl⟩
    have hb' := hi.settled t x _ c hp rfl
    refine .keeps _ (fun id => ⟨fun h => ?_,fun h => ?_⟩) (fun hn => ?_)
    · rwa [← hb.unique h]
    · rwa [← hb'.unique h]
    · obtain ⟨e,he,_⟩ := hb'
      rw [hn] at he
      cases he
  · exact .binds c (hi.cold t x _ hp rfl) ⟨_,hr,rfl⟩
  · have hn := hi.cold t x _ hp rfl
    exact .keeps _ (tied_congr (hr.trans hn.symm)) (fun _ => hr)
  · exact .drops hr

section Facts

variable (hi : Single cfg ctx s.world ph) (hl : Locked cfg jobs rep ctx s g ph)
variable (hd : Locking cfg ∨ ∀ i j, rep i = rep j) (hp : ph t = .call x none st)
variable (hk : routingKey x = routingKey ctx) (hcm : CallMove cfg x none st o r st')
variable (ha : act rep t o s.world r h = some w') (hfav : Favourable cfg ctx s g (.task t o r h))

include ha hfav hcm in
theorem call_does : CallEffect cfg t x s.world st o r w' st' :=
  call_answered hcm ha (unbroken_redis ha hfav.unbroken)

include hl hd hp in
-- While one call is between its session lookup and its unlock, the others are not.
theorem only_call {i : Nat} {y : SessionCtx} {st₁ : Stage} (hpi : ph i = .call y none st₁) (hin : st₁.within = true)
    (hst : st.within = true) : i = t :=
  hl.alone hd hpi hp (.inl hin) (.inl hst)

include hi hcm ha hfav in
theorem single_typed {e : Entry} (he : w'.redis (ctxKey cfg ctx) = some e) : ∃ id, e.val = .text id := by
  rcases effect_keys (call_does hcm ha hfav) ctx with hr | ⟨_,_,⟨c,_,_,hr⟩ | ⟨_,hn⟩⟩
  · exact hi.typed e (hr ▸ he)
  · rw [he] at hr
    cases hr
    exact ⟨_,rfl⟩
  · rw [he] at hn
    cases hn

include hi hp in
theorem single_present {c : Client} (hst : st = .wake c) :
    ¬ ∀ b, s.world.boxes c.sandboxId = some b → b.groupName = c.groupName → b.deleting = false → b.gone = true := by
  subst hst
  intro hs
  obtain ⟨b,hb,hdel,hgone⟩ := hi.sound _ (hi.settled t x _ c hp rfl)
  obtain ⟨hgn,b',y,_,_,hb',_,hky,hg',_⟩ := hi.isolated.held t x none _ c hp rfl
  rw [hb] at hb'
  cases hb'
  rw [hs b hb (by rw [hg',hgn,(routingKey_parts hky).2.2]) hdel] at hgone
  cases hgone

include hi hp hk hcm ha hfav in
theorem call_colder (hst : st'.clear = true) : w'.redis (ctxKey cfg ctx) = none := by
  rw [← ctxKey_congr hk]
  have hcold : st.clear = true → s.world.redis (ctxKey cfg x) = none := by
    intro hc
    rw [ctxKey_congr hk]
    exact hi.cold t x st hp hc
  cases call_does hcm ha hfav with
  | miss v hlook hv =>
    rw [ctxKey_congr hk] at hlook ⊢
    cases he : s.world.redis (ctxKey cfg ctx) with
    | none => rfl
    | some e =>
      obtain ⟨id,hid⟩ := hi.typed e he
      rw [hlook,live_text he hid (hfav.lasting e he)] at hv
      cases hv
  | unbound u => exact upd_same _ _ _
  | stale c hs => exact absurd hs (single_present hi hp rfl)
  | began spec c hn => exact hcold rfl
  | built c u hpres => simpa using hcold rfl
  | calm st st' o r w' hcalm hsd hc hb => exact (hcalm.keys x).trans (hcold (hsd.clear hst))
  | failed c e w' st' hl hw => rcases hl with rfl | rfl <;> cases hst
  | rolledBack u st' hl => rcases hl with rfl | rfl <;> cases hst
  | published c u => split at hst <;> cases hst
  | _ => cases hst

include hi hl hd hp hk hcm ha hfav in
theorem single_cold {i : Nat} {y : SessionCtx} {st₁ : Stage} (hpi : upd ph t (.call x none st') i = .call y none st₁)
    (hst : st₁.clear = true) : w'.redis (ctxKey cfg ctx) = none := by
  rcases upd_eq hpi with ⟨rfl,⟨⟩⟩ | ⟨hit,hpi⟩
  · exact call_colder hi hp hk hcm ha hfav hst
  · have hin : st₁.within = true := by cases st₁ <;> first | rfl | cases hst
    cases call_binds hi hp (call_does hcm ha hfav) with
    | keeps st hall hnone => exact hnone (hi.cold i y st₁ hpi hst)
    | binds c hn hb => exact absurd (only_call hl hd hp hpi hin rfl) hit
    | drops hr => exact hr

include hk in
theorem call_settles (he : CallEffect cfg t x s.world st o r w' st') {c : Client} (hst : st'.settled = some c) :
    st.settled = some c ∨ st.within = true ∧ Tied cfg ctx w' c.sandboxId := by
  rw [Tied,← ctxKey_congr hk]
  cases he with
  | hit id e he hv hlive =>
    cases hst
    exact .inr ⟨rfl,e,he,hv⟩
  | refreshed c' u =>
    cases hst
    exact .inl rfl
  | published c' u =>
    have hc : c'.sandboxId = c.sandboxId := by split at hst <;> cases hst <;> rfl
    exact .inr ⟨rfl,_,upd_same _ _ _,by rw [hc]⟩
  | recorded c' u => exact .inl hst
  | calm st st' o r w' hcalm hsd hc hb => exact .inl (hsd.settled c hst)
  | failed c e w' st' hl hw => rcases hl with rfl | rfl <;> cases hst
  | rolledBack u st' hl => rcases hl with rfl | rfl <;> cases hst
  | _ => cases hst

include hi hp hk hcm ha hfav in
theorem single_settled {i : Nat} {y : SessionCtx} {st₁ : Stage} {c : Client}
    (hpi : upd ph t (.call x none st') i = .call y none st₁) (hst : st₁.settled = some c) :
    Tied cfg ctx w' c.sandboxId := by
  have hold : ∀ {j z st₂}, ph j = .call z none st₂ → st₂.settled = some c → (j = t → st₂ ≠ .rollback) →
      Tied cfg ctx w' c.sandboxId := by
    intro j z st₂ hpj hst₂ hroll
    have htied := hi.settled j z st₂ c hpj hst₂
    cases call_binds hi hp (call_does hcm ha hfav) with
    | keeps st hall hnone => exact (hall _).mpr htied
    | binds c' hn hb =>
      obtain ⟨e,he,_⟩ := htied
      rw [hn] at he
      cases he
    | drops hr =>
      have hjt := hi.sole t j x z _ st₂ c hp rfl hpj hst₂
      rw [hjt] at hpj
      cases hp.symm.trans hpj
      exact absurd rfl (hroll hjt)
  rcases upd_eq hpi with ⟨rfl,⟨⟩⟩ | ⟨hit,hpi⟩
  · rcases call_settles hk (call_does hcm ha hfav) hst with hs | ⟨_,htied⟩
    · refine hold hp hs ?_
      rintro - rfl
      cases hs
    · exact htied
  · exact hold hpi hst (fun h => absurd h hit)

theorem call_soles (he : CallEffect cfg t x s.world st o r w' st') (hst : st'.sole = true) :
    st.sole = true ∨ st.clear = true := by
  cases he with
  | began spec c hn => exact .inr rfl
  | built c u hpres => exact .inl rfl
  | published c u => exact .inl rfl
  | recorded c u => exact .inl rfl
  | calm st st' o r w' hcalm hsd hc hb => exact .inl (hsd.sole hst)
  | failed c e w' st' hl hw => rcases hl with rfl | rfl <;> cases hst
  | rolledBack u st' hl => rcases hl with rfl | rfl <;> cases hst
  | _ => cases hst

include hi hl hd hp hk hcm ha hfav in
theorem single_sole {i j : Nat} {y z : SessionCtx} {st₁ st₂ : Stage} {c : Client}
    (hpi : upd ph t (.call x none st') i = .call y none st₁) (hsole : st₁.sole = true)
    (hpj : upd ph t (.call x none st') j = .call z none st₂) (hst : st₂.settled = some c) : j = i := by
  have he := call_does hcm ha hfav
  rcases upd_eq hpj with ⟨rfl,⟨⟩⟩ | ⟨_,hj⟩
  · by_contra hij
    rw [upd_other _ _ (Ne.symm hij)] at hpi
    rcases call_settles hk he hst with hs | ⟨hin,_⟩
    · exact hij (hi.sole i j y x st₁ st c hpi hsole hp hs)
    · have hin' : st₁.within = true := by cases st₁ <;> first | rfl | cases hsole
      exact hij (only_call hl hd hp hpi hin' hin).symm
  · rcases upd_eq hpi with ⟨rfl,⟨⟩⟩ | ⟨_,hpi⟩
    · rcases call_soles he hsole with hs | hc
      · exact hi.sole i j x z st st₂ c hp hs hj hst
      · obtain ⟨e,hx,_⟩ := hi.settled j z st₂ c hj hst
        rw [hi.cold i x st hp hc] at hx
        cases hx
    · exact hi.sole i j y z st₁ st₂ c hpi hsole hj hst

include hi hl hd hp hcm ha hfav in
theorem single_building {i : Nat} {y : SessionCtx} {st₁ : Stage} {c : Client}
    (hpi : upd ph t (.call x none st') i = .call y none st₁) (hst : st₁.building = some c) :
    ∃ b, w'.boxes c.sandboxId = some b ∧ b.deleting = false ∧ (st₁.built = some c → b.gone = false) := by
  have he := call_does hcm ha hfav
  rcases upd_eq hpi with ⟨rfl,⟨⟩⟩ | ⟨hit,hpi⟩
  · exact effect_building he hst (hi.building i x st c hp)
  · obtain ⟨b,hb,hdel,hgone⟩ := hi.building i y st₁ c hpi hst
    obtain ⟨b',hb',hdel',hgone' | ⟨c',rfl,_,_⟩⟩ := effect_boxes he ha hb
    · exact ⟨b',hb',hdel'.trans hdel,fun hs => hgone'.trans (hgone hs)⟩
    · have hin : st₁.within = true := by cases st₁ <;> first | rfl | cases hst
      exact absurd (only_call hl hd hp hpi hin rfl) hit

include hi hp hcm ha hfav in
theorem single_sound {id : String} (hb : Tied cfg ctx w' id) :
    ∃ b, w'.boxes id = some b ∧ b.deleting = false ∧ b.gone = false := by
  have he := call_does hcm ha hfav
  have hkeep : ∀ {b : Box}, s.world.boxes id = some b → b.deleting = false → b.gone = false → (∀ c, st ≠ .poll c) →
      ∃ b, w'.boxes id = some b ∧ b.deleting = false ∧ b.gone = false := by
    intro b hb hdel hgone hpoll
    obtain ⟨b',hb',hdel',hgone' | ⟨c,hst,_,_⟩⟩ := effect_boxes he ha hb
    · exact ⟨b',hb',hdel'.trans hdel,hgone'.trans hgone⟩
    · exact absurd hst (hpoll c)
  cases call_binds hi hp he with
  | keeps st hall hnone =>
    have htied := (hall id).mp hb
    obtain ⟨b,hb,hdel,hgone⟩ := hi.sound id htied
    refine hkeep hb hdel hgone ?_
    rintro c rfl
    obtain ⟨e,he,_⟩ := htied
    rw [hi.cold t x _ hp rfl] at he
    cases he
  | binds c hn hb' =>
    cases hb.unique hb'
    obtain ⟨b,hb,hdel,hgone⟩ := hi.building t x _ c hp rfl
    exact hkeep hb hdel (hgone rfl) (by simp)
  | drops hr =>
    obtain ⟨e,he,_⟩ := hb
    rw [hr] at he
    cases he

theorem box_back {w : World} {id : String} {b b' : Box} (hg : w.Grows w') (hb : w.boxes id = some b)
    (hb' : w'.boxes id = some b') : b'.creator = b.creator := by
  obtain ⟨_,hb'',hbb⟩ := hg id b hb
  rw [hb'] at hb''
  cases hb''
  exact hbb.creator

include hi hp hcm ha in
theorem single_past {id : String} {b : Box} {y : SessionCtx} {st₁ : Stage} (hb : w'.boxes id = some b)
    (hpi : upd ph t (.call x none st') b.creator = .call y none st₁) :
    st₁.past = true ∧ ∀ c, st₁.client = some c → c.sandboxId = id := by
  cases hold : s.world.boxes id with
  | none =>
    obtain ⟨hct,_,hpast,hid⟩ := call_creates hcm ha hold hb
    rw [hct,upd_same] at hpi
    cases hpi
    exact ⟨hpast,hid⟩
  | some b₀ =>
    rw [box_back (act_grows ha) hold hb] at hpi
    by_cases hct : b₀.creator = t
    · rw [hct,upd_same] at hpi
      cases hpi
      obtain ⟨hpast,hid⟩ := hi.past id b₀ x st hold (hct ▸ hp)
      obtain ⟨hpast',hsame⟩ := call_past hcm hpast
      exact ⟨hpast',fun c hc => hid c (hsame c hc)⟩
    · rw [upd_other _ _ hct] at hpi
      exact hi.past id b₀ y st₁ hold hpi

include hi hp hcm ha in
-- A call that makes a sandbox has not made one before.
theorem single_new {id id' : String} {b b' : Box} (hn : s.world.boxes id = none) (hb : w'.boxes id = some b)
    (hb' : w'.boxes id' = some b') (hct : b'.creator = t) : id' = id := by
  obtain ⟨_,hpast,_,_⟩ := call_creates hcm ha hn hb
  cases hold : s.world.boxes id' with
  | none =>
    rcases act_made ha with ⟨_,hnone⟩ | ⟨i,gr,spec,_,rfl⟩
    · rw [(hnone id).mpr hn] at hb
      cases hb
    · rw [create_boxes] at hb hb'
      grind
  | some b₀ =>
    have hct' := (box_back (act_grows ha) hold hb').symm.trans hct
    rw [(hi.past id' b₀ x st hold (hct' ▸ hp)).1] at hpast
    cases hpast

include hi hp hcm ha in
theorem single_once {id id' : String} {b b' : Box} (hb : w'.boxes id = some b) (hb' : w'.boxes id' = some b')
    (hc : b.creator = b'.creator) : id = id' := by
  cases hold : s.world.boxes id with
  | none => exact (single_new hi hp hcm ha hold hb hb' (hc ▸ (call_creates hcm ha hold hb).1)).symm
  | some b₀ =>
    cases hold' : s.world.boxes id' with
    | none => exact single_new hi hp hcm ha hold' hb' hb (hc ▸ (call_creates hcm ha hold' hb').1)
    | some b₁ =>
      refine hi.once id id' b₀ b₁ hold hold' ?_
      rw [← box_back (act_grows ha) hold hb,hc,box_back (act_grows ha) hold' hb']

include hcm ha hfav in
theorem call_publishes {c : Client} (hst : st = .publish c) : st'.past = true ∧ st'.settled = some c := by
  subst hst
  cases hcm with
  | published c r st hr hst =>
    rw [hst]
    split <;> exact ⟨rfl,rfl⟩
  | publishCut c e st he hl =>
    rw [unbroken_cut ha hfav.unbroken rfl rfl] at he
    cases he

include hk hcm ha hfav in
theorem call_rolls (hst : st = .rollback) : w'.redis (ctxKey cfg ctx) = none := by
  subst hst
  rw [← ctxKey_congr hk]
  cases hcm with
  | rolledBack r st hl =>
    cases r with
    | ok u =>
      rw [act_del ha]
      exact upd_same _ _ _
    | error e =>
      obtain ⟨_,hu⟩ := redis_refuses ha (unbroken_redis ha hfav.unbroken) rfl rfl rfl
      cases hu

include hi hp hk hcm ha hfav in
theorem single_author {id : String} {b : Box} (htied : Tied cfg ctx w' id) (hb : w'.boxes id = some b) :
    ∃ y st₁, upd ph t (.call x none st') b.creator = .call y none st₁ ∧ st₁.past = true ∧
      (st₁ = .rollback ∨ ∃ c, st₁.settled = some c ∧ c.sandboxId = id) := by
  have hlost : w'.redis (ctxKey cfg ctx) ≠ none := by
    obtain ⟨e,he,_⟩ := htied
    simp [he]
  cases call_binds hi hp (call_does hcm ha hfav) with
  | keeps st hall hnone =>
    have htied' := (hall id).mp htied
    obtain ⟨b₀,hb₀,_,_⟩ := hi.sound id htied'
    rw [box_back (act_grows ha) hb₀ hb]
    obtain ⟨y,st₁,hpi,hpast,hst₁⟩ := hi.author id b₀ htied' hb₀
    by_cases hct : b₀.creator = t
    · rw [hct] at hpi ⊢
      cases hp.symm.trans hpi
      rw [upd_same]
      refine ⟨x,st',rfl,(call_past hcm hpast).1,?_⟩
      rcases hst₁ with hst | ⟨c,hc,hid⟩
      · exact absurd (call_rolls hk hcm ha hfav hst) hlost
      · exact (call_retains hcm ha hfav.unbroken hpast hc).imp_right (fun hc' => ⟨c,hc',hid⟩)
    · rw [upd_other _ _ hct]
      exact ⟨y,st₁,hpi,hpast,hst₁⟩
  | binds c hn hb' =>
    cases htied.unique hb'
    obtain ⟨b₀,hb₀,hct⟩ := hi.fresh t x none _ c hp rfl
    obtain ⟨hpast,hset⟩ := call_publishes hcm ha hfav rfl
    rw [box_back (act_grows ha) hb₀ hb,hct,upd_same]
    exact ⟨x,st',rfl,hpast,.inr ⟨c,hset,rfl⟩⟩
  | drops hr => exact absurd hr hlost

theorem listed_act {w : World} (ha : act rep t o w r h = some w')
    (hi : w.made.Nodup ∧ ∀ id, id ∈ w.made ↔ w.boxes id ≠ none) :
    w'.made.Nodup ∧ ∀ id, id ∈ w'.made ↔ w'.boxes id ≠ none := by
  obtain ⟨hnd,hall⟩ := hi
  rcases act_made ha with ⟨hm,hnone⟩ | ⟨i,gr,spec,hn,rfl⟩
  · rw [hm]
    exact ⟨hnd,fun id => (hall id).trans (not_congr (hnone id)).symm⟩
  · have hi : i ∉ w.made := fun hmem => (hall i).mp hmem hn
    refine ⟨List.nodup_append.mpr ⟨hnd,by simp,by simpa using fun a ha (h : a = i) => hi (h ▸ ha)⟩,
      fun id => ?_⟩
    rw [create_boxes]
    change id ∈ w.made ++ [i] ↔ _
    by_cases hid : id = i
    · simp [hid]
    · simp [hid,hall]

include hi hl hd hp hk hcm ha hfav in
theorem Single.call : Single cfg ctx w' (upd ph t (.call x none st')) where
  isolated := hi.isolated.step (call_move hp hcm) ha
  fresh := hi.fresh.step (call_move hp hcm) ha
  typed := fun _ he => single_typed hi hcm ha hfav he
  cold := fun _ _ _ hpi hst => single_cold hi hl hd hp hk hcm ha hfav hpi hst
  settled := fun _ _ _ _ hpi hst => single_settled hi hp hk hcm ha hfav hpi hst
  sole := fun _ _ _ _ _ _ _ hpi hsole hpj hst => single_sole hi hl hd hp hk hcm ha hfav hpi hsole hpj hst
  building := fun _ _ _ _ hpi hst => single_building hi hl hd hp hcm ha hfav hpi hst
  sound := fun _ hb => single_sound hi hp hcm ha hfav hb
  past := fun _ _ _ _ hb hpi => single_past hi hp hcm ha hb hpi
  once := fun _ _ _ _ hb hb' hc => single_once hi hp hcm ha hb hb' hc
  author := fun _ _ htied hb => single_author hi hp hk hcm ha hfav htied hb
  listed := listed_act ha hi.listed

end Facts

theorem unbroken_spares {e : Env} {w : World} (hun : Unbroken (.env e)) : e.spares w := by
  cases e with
  | vanish id => exact hun.elim
  | _ => trivial

theorem Single.env {e : Env} {w : World} (hi : Single cfg ctx w ph) (he : env e w = some w')
    (hun : Unbroken (.env e)) : Single cfg ctx w' ph := by
  have hr := env_redis he
  have hs := unbroken_spares (w := w) hun
  have htied : ∀ {id}, Tied cfg ctx w' id ↔ Tied cfg ctx w id := tied_congr (congrFun hr _) _
  have hnone : ∀ id, w'.boxes id = none ↔ w.boxes id = none := by
    refine fun id => ⟨fun hn => ?_,env_fresh he⟩
    cases hb : w.boxes id with
    | none => rfl
    | some b =>
      obtain ⟨b',hb',_⟩ := env_grows he id b hb
      rw [hn] at hb'
      cases hb'
  have hback : ∀ {id b'}, w'.boxes id = some b' → ∃ b, w.boxes id = some b ∧ b'.creator = b.creator := by
    intro id b' hb'
    cases hb : w.boxes id with
    | none =>
      rw [env_fresh he hb] at hb'
      cases hb'
    | some b => exact ⟨b,rfl,box_back (env_grows he) hb hb'⟩
  constructor
  case isolated => exact hi.isolated.env he
  case fresh => exact fun i y command st c hp hc => (hi.fresh i y command st c hp hc).mono (env_grows he)
  case typed =>
    rw [hr]
    exact hi.typed
  case cold =>
    rw [hr]
    exact hi.cold
  case settled => exact fun i y st c hp hc => htied.mpr (hi.settled i y st c hp hc)
  case sole => exact hi.sole
  case building =>
    intro i y st c hp hc
    obtain ⟨b,hb,hdel,hgone⟩ := hi.building i y st c hp hc
    obtain ⟨b',hb',hdel',hgone'⟩ := env_boxes he hs hb hdel
    exact ⟨b',hb',hdel',fun h => hgone'.trans (hgone h)⟩
  case sound =>
    intro id hb
    obtain ⟨b,hb,hdel,hgone⟩ := hi.sound id (htied.mp hb)
    obtain ⟨b',hb',hdel',hgone'⟩ := env_boxes he hs hb hdel
    exact ⟨b',hb',hdel',hgone'.trans hgone⟩
  case past =>
    intro id b' y st hb' hp
    obtain ⟨b,hb,hc⟩ := hback hb'
    exact hi.past id b y st hb (hc ▸ hp)
  case once =>
    intro id id' b₁ b₂ hb₁ hb₂ hc
    obtain ⟨b,hb,hbc⟩ := hback hb₁
    obtain ⟨b',hb',hbc'⟩ := hback hb₂
    exact hi.once id id' b b' hb hb' (by rw [← hbc,hc,hbc'])
  case author =>
    intro id b' ht hb'
    obtain ⟨b,hb,hc⟩ := hback hb'
    rw [hc]
    exact hi.author id b (htied.mp ht) hb
  case listed =>
    rw [env_made he]
    exact ⟨hi.listed.1,fun id => (hi.listed.2 id).trans (not_congr (hnone id)).symm⟩

end Step

section Runs

variable {cfg : Config} {jobs : Nat → Job} {rep : Nat → Nat} {ctx : SessionCtx} {now : Nat} {s : System}
variable {g : Nat → Spell}

theorem party_phase (cfg : Config) (hj : Party jobs ctx) (t : Nat) : ∃ x, jobs t = .getOrCreate x ∧
    (jobs t).phase cfg = .call x none .start ∧ routingKey x = routingKey ctx := by
  obtain ⟨x,hx,hk⟩ := hj t
  exact ⟨x,hx,by rw [hx]; rfl,hk⟩

theorem locked_start (hj : Party jobs ctx) :
    Locked cfg jobs rep ctx (start cfg jobs now) (fun _ => .idle) (fun t => (jobs t).phase cfg) := by
  have hstart : ∀ {t y st}, (jobs t).phase cfg = .call y none st → st = .start := start_call
  constructor
  case posts =>
    intro t
    obtain ⟨x,_,hp,hk⟩ := party_phase cfg hj t
    exact ⟨x,.start,hp,hk,by simp⟩
  case fresh =>
    intro t y hp
    obtain ⟨x,hx,hp',_⟩ := party_phase cfg hj t
    cases hp'.symm.trans hp
    exact ⟨hx,rfl⟩
  case excludes =>
    intro t y command st hp hst
    cases start_call hp
    cases hst
  case entry =>
    intro t d hd
    cases hd
  case taken =>
    rintro - t y st hp (hst | hst)
    · cases hstart hp
      cases hst
    · cases hst
  case inside =>
    intro t y st hp hst
    cases hst

theorem single_start : Single cfg ctx (World.empty now) (fun t => (jobs t).phase cfg) where
  isolated := isolated_start (fun _ _ _ _ => start_call)
  fresh := by
    intro t y command st c hp hc
    cases start_call hp
    cases hc
  typed := by
    intro e he
    cases he
  cold := fun _ _ _ _ _ => rfl
  settled := by
    intro i y st c hp hc
    cases start_call hp
    cases hc
  sole := by
    intro i j y z st st' c hp hs
    cases start_call hp
    cases hs
  building := by
    intro i y st c hp hc
    cases start_call hp
    cases hc
  sound := by
    rintro id ⟨e,he,_⟩
    cases he
  past := by
    intro id b y st hb
    cases hb
  once := by
    intro id id' b b' hb
    cases hb
  author := by
    intro id b htied hb
    cases hb
  listed := ⟨List.nodup_nil,by simp [World.empty]⟩

theorem single_run (hj : Party jobs ctx) (hd : Locking cfg ∨ ∀ i j, rep i = rep j)
    (hr : (machine rep).Run (Favourable cfg ctx) (enter cfg ctx) (start cfg jobs now) (fun _ => .idle) s g) :
    ∃ ph, (Locked cfg jobs rep ctx s g ph ∧ Single cfg ctx s.world ph) ∧
      ∀ t, Follows (PhaseMove cfg) (ph t) (s.pool t) Finished := by
  have hstart : ∀ t, Follows (PhaseMove cfg) ((jobs t).phase cfg) ((start cfg jobs now).pool t) Finished :=
    fun t => job_follows cfg (jobs t)
  refine hr.followed (I := fun s g ph => Locked cfg jobs rep ctx s g ph ∧ Single cfg ctx s.world ph)
    (fun t => (jobs t).phase cfg) hstart ⟨locked_start hj,single_start⟩ ?_ ?_
  · intro s g ph t o k r h w p hi hph hadm hcall hm hf ha
    obtain ⟨hl,hi⟩ := hi
    obtain ⟨x,st,hp,hk,_⟩ := hl.posts t
    obtain ⟨st',rfl,hcm⟩ := move_call hm hp
    exact ⟨hl.call hp hcall hcm hf ha hadm,hi.call hl hd hp hk hcm ha hadm⟩
  · intro s g ph e w hi hadm he
    obtain ⟨hl,hi⟩ := hi
    refine ⟨⟨hl.posts,hl.fresh,?_,?_,hl.taken,hl.inside⟩,hi.env he hadm.unbroken⟩
    · intro t y command st hp hst
      rw [env_locks he]
      exact hl.excludes t y command st hp hst
    · intro t d hd
      rw [env_redis he]
      exact hl.entry t d hd

def Created (w : World) (t : Nat) : Prop := ∃ id, MadeBy w t id

-- The calls that made a sandbox and failed.
def failures (s : System) : Set Nat := {t | Created s.world t ∧ ∃ e, (s.pool t).outcome = some (.error e)}

theorem call_ends {ph : Nat → Phase} {t : Nat} {res : Except Exc Out} (hl : Locked cfg jobs rep ctx s g ph)
    (hph : Follows (PhaseMove cfg) (ph t) (s.pool t) Finished) (hres : (s.pool t).outcome = some res) :
    ∃ x, routingKey x = routingKey ctx ∧ ((∃ c, res = .ok (.client c) ∧ ph t = .call x none (.left (some c))) ∨
      ∃ e, res = .error e ∧ ph t = .call x none (.left none)) := by
  obtain ⟨x,st,hp,hk,hdone⟩ := hl.posts t
  have hf := hph.outcome hres
  refine ⟨x,hk,?_⟩
  match res with
  | .ok (.client c) =>
    obtain ⟨y,command,hy⟩ := hf
    cases hp.symm.trans hy
    exact .inl ⟨c,rfl,hp⟩
  | .ok (.visited sid c _) =>
    obtain ⟨y,command,_,hy⟩ := hf
    cases hp.symm.trans hy
    exact absurd rfl (hdone c)
  | .ok (.result _) =>
    obtain ⟨y,command,c,hy⟩ := hf
    cases hp.symm.trans hy
    exact absurd rfl (hdone c)
  | .ok .done => exact absurd hp (hf x none st)
  | .error e =>
    cases hf x none st hp
    exact .inr ⟨e,rfl,hp⟩

-- As many sandboxes are made as there are calls that make one.
theorem made_counts {w : World} {ph : Nat → Phase} (hi : Single cfg ctx w ph) :
    {t | Created w t}.Finite ∧ {t | Created w t}.ncard = w.made.length := by
  let maker : String → Nat := fun id => ((w.boxes id).map Box.creator).getD 0
  have hmaker : ∀ {id b}, w.boxes id = some b → maker id = b.creator := by
    intro id b hb
    simp only [maker,hb,Option.map_some,Option.getD_some]
  have hbox : ∀ {id}, id ∈ w.made → ∃ b, w.boxes id = some b := fun hmem =>
    Option.ne_none_iff_exists'.mp ((hi.listed.2 _).mp hmem)
  have himage : {t | Created w t} = Set.image maker ↑w.made.toFinset := by
    ext t
    simp only [Set.mem_ofPred_eq,Set.mem_image,List.coe_toFinset]
    constructor
    · rintro ⟨id,b,hb,rfl⟩
      exact ⟨id,(hi.listed.2 id).mpr (by simp [hb]),hmaker hb⟩
    · rintro ⟨id,hmem,rfl⟩
      obtain ⟨b,hb⟩ := hbox hmem
      exact ⟨id,b,hb,(hmaker hb).symm⟩
  have hinj : Set.InjOn maker ↑w.made.toFinset := by
    intro id hmem id' hmem' heq
    obtain ⟨b,hb⟩ := hbox (by simpa using hmem)
    obtain ⟨b',hb'⟩ := hbox (by simpa using hmem')
    rw [hmaker hb,hmaker hb'] at heq
    exact hi.once id id' b b' hb hb' heq
  rw [himage,hinj.ncard_image,Set.ncard_coe_finset,List.toFinset_card_of_nodup hi.listed.1]
  exact ⟨w.made.toFinset.finite_toSet.image maker,rfl⟩

theorem call_returned {ph : Nat → Phase} {t : Nat} {c : Client} (hl : Locked cfg jobs rep ctx s g ph)
    (hi : Single cfg ctx s.world ph) (hph : Follows (PhaseMove cfg) (ph t) (s.pool t) Finished)
    (hc : (s.pool t).outcome = some (.ok (.client c))) :
    ∃ x, routingKey x = routingKey ctx ∧ ph t = .call x none (.left (some c)) ∧ Tied cfg ctx s.world c.sandboxId := by
  obtain ⟨x,hk,⟨c',heq,hp⟩ | ⟨e,heq,_⟩⟩ := call_ends hl hph hc
  · cases heq
    exact ⟨x,hk,hp,hi.settled t x _ c hp rfl⟩
  · cases heq

-- Once a call has returned, all calls that made a sandbox have failed but the one that made
-- the sandbox returned.
theorem creators_but_one {ph : Nat → Phase} {t : Nat} {c : Client} (hl : Locked cfg jobs rep ctx s g ph)
    (hi : Single cfg ctx s.world ph) (hph : ∀ t, Follows (PhaseMove cfg) (ph t) (s.pool t) Finished)
    (hover : ∀ t, Created s.world t → (s.pool t).outcome ≠ none) (hc : (s.pool t).outcome = some (.ok (.client c))) :
    ∃ u, u ∉ failures s ∧ {t | Created s.world t} = insert u (failures s) := by
  obtain ⟨_,_,_,hb⟩ := call_returned hl hi (hph t) hc
  obtain ⟨b,hbox,_,_⟩ := hi.sound _ hb
  refine ⟨b.creator,?_,?_⟩
  · rintro ⟨_,e,he⟩
    obtain ⟨y,st,hpy,_,hst⟩ := hi.author _ b hb hbox
    obtain ⟨x,_,⟨c',heq,_⟩ | ⟨e',_,hp⟩⟩ := call_ends hl (hph _) he
    · cases heq
    · cases hpy.symm.trans hp
      rcases hst with hst | ⟨c',hst,_⟩ <;> cases hst
  · ext u
    simp only [Set.mem_ofPred_eq,Set.mem_insert_iff]
    constructor
    · rintro ⟨id,b',hb',rfl⟩
      obtain ⟨res,hres⟩ := Option.ne_none_iff_exists'.mp (hover _ ⟨id,b',hb',rfl⟩)
      obtain ⟨x,_,⟨c',rfl,hp⟩ | ⟨e,rfl,_⟩⟩ := call_ends hl (hph _) hres
      · obtain ⟨_,_,_,hc'⟩ := call_returned hl hi (hph _) hres
        have hid : c'.sandboxId = id := (hi.past id b' x _ hb' hp).2 c' rfl
        rw [← hid,hc'.unique hb,hbox] at hb'
        cases hb'
        exact .inl rfl
      · exact .inr ⟨⟨id,b',hb',rfl⟩,e,hres⟩
    · rintro (rfl | hu)
      · exact ⟨_,b,hbox,rfl⟩
      · exact hu.1

theorem creators_lost {ph : Nat → Phase} (hl : Locked cfg jobs rep ctx s g ph)
    (hph : ∀ t, Follows (PhaseMove cfg) (ph t) (s.pool t) Finished)
    (hover : ∀ t, Created s.world t → (s.pool t).outcome ≠ none)
    (hnone : ∀ t c, (s.pool t).outcome ≠ some (.ok (.client c))) : {t | Created s.world t} = failures s := by
  ext u
  refine ⟨fun hu => ⟨hu,?_⟩,fun hu => hu.1⟩
  obtain ⟨res,hres⟩ := Option.ne_none_iff_exists'.mp (hover u hu)
  obtain ⟨_,_,⟨c,rfl,_⟩ | ⟨e,rfl,_⟩⟩ := call_ends hl (hph u) hres
  · exact absurd hres (hnone u c)
  · exact ⟨e,hres⟩

theorem one_sandbox (hj : Party jobs ctx) (hd : Locking cfg ∨ ∀ i j, rep i = rep j)
    (hr : (machine rep).Run (Favourable cfg ctx) (enter cfg ctx) (start cfg jobs now) (fun _ => .idle) s g) :
    (∀ i j, (g i).within = true → (g j).within = true → i = j) ∧
    (∀ i j c c', (s.pool i).outcome = some (.ok (.client c)) → (s.pool j).outcome = some (.ok (.client c')) → c = c') ∧
    ((∀ t, Created s.world t → (s.pool t).outcome ≠ none) →
      (∀ t c, (s.pool t).outcome = some (.ok (.client c)) → s.world.made.length = (failures s).ncard + 1) ∧
      ((∀ t c, (s.pool t).outcome ≠ some (.ok (.client c))) → s.world.made.length = (failures s).ncard)) := by
  obtain ⟨ph,⟨hl,hi⟩,hph⟩ := single_run hj hd hr
  obtain ⟨hfin,hcard⟩ := made_counts hi
  refine ⟨?_,?_,fun hover => ⟨?_,?_⟩⟩
  · intro i j hin hjn
    obtain ⟨x,st,hpi,_⟩ := hl.posts i
    obtain ⟨y,st',hpj,_⟩ := hl.posts j
    exact hl.alone hd hpi hpj (.inr hin) (.inr hjn)
  · intro i j c c' hc hc'
    obtain ⟨x,hk,hp,hb⟩ := call_returned hl hi (hph i) hc
    obtain ⟨y,hk',hp',hb'⟩ := call_returned hl hi (hph j) hc'
    have hid := hb.unique hb'
    have hgroup := (hi.isolated.held i x none _ c hp rfl).1
    have hgroup' := (hi.isolated.held j y none _ c' hp' rfl).1
    rw [(routingKey_parts (hk.trans hk'.symm)).2.2,← hgroup'] at hgroup
    cases c
    cases c'
    simp only at hid hgroup
    rw [hid,hgroup]
  · intro t c hc
    obtain ⟨u,hu,hall⟩ := creators_but_one hl hi hph hover hc
    have hfin' : (failures s).Finite := hfin.subset (fun u hu => hu.1)
    rw [← hcard,hall,Set.ncard_insert_of_notMem hu hfin']
  · intro hnone
    rw [← hcard,creators_lost hl hph hover hnone]

end Runs

section Samples

def sampleCrowd : Nat → Job := fun _ => .getOrCreate (sampleCtx "s1" .action)

def favourable (cfg : Config) (ctx : SessionCtx) (s : System) (_ : Nat → Spell) (l : Step) : Bool :=
  decide (s.world.now < cfg.lockTtl * 1000) && (s.world.redis (ctxKey cfg ctx)).all (fun e => e.live s.world.now) &&
  match l with
  | .task _ ⟨.lockRedis _ _,_⟩ (.ok got) _ => got
  | .task _ _ (.error e) _ => decide (e ≠ .redis) && decide (e ≠ .cancelled)
  | .env (.vanish _) => false
  | _ => true

theorem favourable_sound (cfg : Config) (ctx : SessionCtx) (s : System) (g : Nat → Spell) (l : Step)
    (hl : favourable cfg ctx s g l = true) : Favourable cfg ctx s g l := by
  simp only [favourable,Bool.and_eq_true,decide_eq_true_eq] at hl
  refine ⟨?_,fun t d _ => Nat.lt_of_lt_of_le hl.1.1 (Nat.le_add_left _ _),fun e he => by simpa [he] using hl.1.2⟩
  cases l with
  | env e => cases e <;> first | trivial | simp at hl
  | task t o r h =>
    obtain ⟨c,timed⟩ := o
    cases r with
    | ok a => cases c <;> simp_all [Unbroken]
    | error e => cases c <;> simp_all [Unbroken]

-- The first call makes a sandbox, cannot set it up and rolls back; the second one makes another.
def repeated (cfg : Config) (ctx : SessionCtx) : List Step :=
  let c : Client := ⟨cfg.groupNames ctx.group,"b1"⟩
  opening cfg 0 ctx true none ++ creation cfg 0 ctx "b1" ++ [answers 1 (.acquire (routingKey ctx)) (),
    answers 0 (.set (ctxKey cfg ctx) (.text "b1") cfg.sessions.ttl) (),
    answers 0 (.set (indexKey cfg "b1") (.binding (oidText ctx.userOid) ctx.sessionId ctx.group.name) none) (),
    answers 0 (.get (flagKey cfg "b1")) none,answers 0 (.exec c bootstrapCommand) ⟨1,some [],none⟩,
    answers 0 (.del (ctxKey cfg ctx)) (),answers 0 (.unlockRedis (lockKey ctx)) (),
    answers 1 (.lockRedis (lockKey ctx) cfg.lockTtl) true,answers 0 (.release (routingKey ctx)) (),
    answers 1 (.get (ctxKey cfg ctx)) none] ++ creation cfg 1 ctx "b2" ++ publication cfg 1 ctx "b2" ++ closing 1 ctx

theorem one_sandbox_repeated : ∃ s g, (machine id).Run (Favourable lockingConfig (sampleCtx "s1" .action))
      (enter lockingConfig (sampleCtx "s1" .action)) (start lockingConfig sampleCrowd 0) (fun _ => .idle) s g ∧
    s.world.made = ["b1","b2"] ∧ (s.pool 1).outcome = some (.ok (.client ⟨"sg-action","b2"⟩)) ∧
    s.world.made.length = (failures s).ncard + 1 := by
  obtain ⟨s,g,hr,hn⟩ : ∃ s g, (machine id).Run (Favourable lockingConfig (sampleCtx "s1" .action))
      (enter lockingConfig (sampleCtx "s1" .action)) (start lockingConfig sampleCrowd 0) (fun _ => .idle) s g ∧
      (s.world.made.map (fun id => (id,(s.world.boxes id).map Box.creator)),(s.pool 0).outcome.isSome,
        (s.pool 1).outcome) =
      ([("b1",some 0),("b2",some 1)],true,some (.ok (.client ⟨"sg-action","b2"⟩))) :=
    Machine.replay_reaches (favourable lockingConfig (sampleCtx "s1" .action))
      (repeated lockingConfig (sampleCtx "s1" .action)) (favourable_sound _ _) (by decide +kernel)
  obtain ⟨hmade,hn⟩ := Prod.mk.inj hn
  obtain ⟨h₀,h₁⟩ := Prod.mk.inj hn
  have hj : Party sampleCrowd (sampleCtx "s1" .action) := fun t => ⟨_,rfl,rfl⟩
  have hd : Locking lockingConfig := ⟨rfl,rfl⟩
  have hids : s.world.made = ["b1","b2"] := by simpa [Function.comp_def] using congrArg (List.map Prod.fst) hmade
  refine ⟨s,g,hr,hids,h₁,((one_sandbox hj (.inl hd) hr).2.2 ?_).1 1 _ h₁⟩
  rintro t ⟨id,b,hb,rfl⟩
  obtain ⟨ph,⟨_,hi⟩,_⟩ := single_run hj (.inl hd) hr
  have hmem : (id,some b.creator) ∈ s.world.made.map (fun id => (id,(s.world.boxes id).map Box.creator)) :=
    List.mem_map.mpr ⟨id,(hi.listed.2 id).mpr (by simp [hb]),by simp [hb]⟩
  rw [hmade] at hmem
  simp only [List.mem_cons,Prod.mk.injEq,Option.some.injEq,List.not_mem_nil,or_false] at hmem
  rcases hmem with ⟨_,hc⟩ | ⟨_,hc⟩ <;> rw [hc]
  · exact Option.isSome_iff_ne_none.mp h₀
  · simp [h₁]

end Samples

end IdentityAwareMcp
