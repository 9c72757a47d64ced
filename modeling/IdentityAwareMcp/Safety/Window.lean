import IdentityAwareMcp.Safety.Session

namespace IdentityAwareMcp

open Coop SandboxManager

theorem stamp_injective {base base' : String} {n m : Nat}
    (h : base ++ "_" ++ toString n = base' ++ "_" ++ toString m) : n = m := by
  have hl := congrArg String.toList h
  simp only [String.toList_append,List.append_assoc,Nat.toString_eq_repr,Nat.toList_repr] at hl
  have hd := (split_last (s := '_') Nat.underscore_not_in_toDigits Nat.underscore_not_in_toDigits hl).1
  have hv := congrArg (fun l => Nat.ofDigitChars 10 l 0) hd
  simpa using hv

section Turns

-- A finished resolution: when it read the key, when it last wrote it, what it returned.
structure Turn where
  task : Nat
  read : Nat
  written : Nat
  id : String
deriving DecidableEq

variable {ttl : Nat}

def Within (ttl : Nat) (y x : Turn) : Prop := y.read < x.written + ttl * 1000

-- The turns of one user, the latest first, with the second at which the current window was opened.
inductive Slid (ttl : Nat) : List Turn → Nat → Prop
  | first (x : Turn) (base : String) (n : Nat) : x.id = base ++ "_" ++ toString n → n * 1000 ≤ x.written →
      Slid ttl [x] n
  | stay (y x : Turn) (l : List Turn) (n : Nat) : Slid ttl (x :: l) n → y.id = x.id → Within ttl y x →
      x.written ≤ y.written → Slid ttl (y :: x :: l) n
  | fresh (y x : Turn) (l : List Turn) (base : String) (n m : Nat) : Slid ttl (x :: l) n → ¬ Within ttl y x →
      y.id = base ++ "_" ++ toString m → n < m → m * 1000 ≤ y.written → Slid ttl (y :: x :: l) m

theorem slid_opened {x : Turn} {l : List Turn} {n : Nat} (h : Slid ttl (x :: l) n) : n * 1000 ≤ x.written := by
  generalize hk : x :: l = k at h
  induction h generalizing x l with
  | first y base n hid hw => cases hk; exact hw
  | stay z y k n _ _ _ hle ih => cases hk; exact Nat.le_trans (ih rfl) hle
  | fresh z y k base n m _ _ _ _ hw ih => cases hk; exact hw

theorem slid_stamped {l : List Turn} {n : Nat} (h : Slid ttl l n) :
    ∀ x ∈ l, ∃ base m, x.id = base ++ "_" ++ toString m ∧ m ≤ n := by
  induction h with
  | first x base n hid hw => simpa using ⟨base,n,hid,Nat.le_refl n⟩
  | stay y x l n _ hid _ _ ih =>
    intro z hz
    rcases List.mem_cons.mp hz with rfl | hz
    · rw [hid]
      exact ih x List.mem_cons_self
    · exact ih z hz
  | fresh y x l base n m _ _ hid hnm _ ih =>
    intro z hz
    rcases List.mem_cons.mp hz with rfl | hz
    · exact ⟨base,m,hid,Nat.le_refl m⟩
    · obtain ⟨b,k,hz,hk⟩ := ih z hz
      exact ⟨b,k,hz,by omega⟩

theorem slid_rest {y : Turn} {l : List Turn} {n : Nat} (h : Slid ttl (y :: l) n) : l = [] ∨ ∃ m, Slid ttl l m := by
  cases h with
  | first => exact .inl rfl
  | stay _ x l _ h => exact .inr ⟨n,h⟩
  | fresh _ x l base m _ h => exact .inr ⟨m,h⟩

-- Two turns have one id when no gap between them reaches the TTL.
theorem slid_same {y x : Turn} {between earlier : List Turn} {n : Nat}
    (h : Slid ttl (y :: (between ++ x :: earlier)) n) :
    y.id = x.id ↔ List.IsChain (Within ttl) (y :: (between ++ [x])) := by
  induction between generalizing y n with
  | nil =>
    cases h with
    | stay _ _ _ _ _ hid hin _ => simp [hid,hin]
    | fresh _ _ _ base k _ h hout hid hlt _ =>
      obtain ⟨b,m,hx,hm⟩ := slid_stamped h x List.mem_cons_self
      have hne : y.id ≠ x.id := by
        intro he
        have := stamp_injective (hid.symm.trans (he.trans hx))
        omega
      simp [hne,hout]
  | cons z between ih =>
    cases h with
    | stay _ _ _ _ h hid hin _ =>
      rw [hid,ih h,List.cons_append,List.isChain_cons_cons]
      exact ⟨fun hc => ⟨hin,hc⟩,fun hc => hc.2⟩
    | fresh _ _ _ base k _ h hout hid hlt _ =>
      obtain ⟨b,m,hx,hm⟩ := slid_stamped h x (by simp)
      have hne : y.id ≠ x.id := by
        intro he
        have := stamp_injective (hid.symm.trans (he.trans hx))
        omega
      simp [hne,hout]

theorem slid_suffix {later l : List Turn} {n : Nat} (h : Slid ttl (later ++ l) n) : l = [] ∨ ∃ m, Slid ttl l m := by
  induction later generalizing n with
  | nil => exact .inr ⟨n,h⟩
  | cons y later ih =>
    rcases slid_rest h with he | ⟨m,h⟩
    · exact .inl (List.append_eq_nil_iff.mp he).2
    · exact ih h

end Turns

section Diaries

structure Diary where
  begun : List Nat
  read : Nat
  turns : List Turn

variable (cfg : Config) (callers : Nat → Caller) (u : Guid)

-- Each reading and each writing of the user's key by one of the user's calls.
def keep (s : Calls) (l : Step) (g : Diary) : Diary :=
  match l with
  | .task t ⟨.get k,_⟩ _ _ =>
    if (callers t).resolves u && k = userKey cfg u then { g with begun := g.begun.insert t, read := s.world.now } else g
  | .task t ⟨.set k (.text id) _,_⟩ _ _ =>
    if (callers t).resolves u && k = userKey cfg u then { g with turns := ⟨t,g.read,s.world.now,id⟩ :: g.turns } else g
  | _ => g

-- Redis answers the user's calls, and each of them starts when those before it have returned.
def Separately (s : Calls) (g : Diary) : Step → Prop
  | .task t _ r _ => (callers t).resolves u = true → (∃ a, r = .ok a) ∧
      ∀ i ∈ g.begun, i ≠ t → (s.pool i).outcome.isSome = true
  | .env _ => True

def Going (ttl now : Nat) (g : Diary) : Resolving → Prop
  | .look => True
  | .slide id => g.read ≤ now ∧ ∃ x l, g.turns = x :: l ∧ x.id = id ∧ g.read < x.written + ttl * 1000
  | .clock => g.read ≤ now ∧ ∀ x l, g.turns = x :: l → x.written + ttl * 1000 ≤ g.read
  | .mint id => (∀ x l, g.turns = x :: l → x.written + ttl * 1000 ≤ g.read) ∧
      ∃ base n, id = base ++ "_" ++ toString n ∧ n * 1000 ≤ now ∧ g.read / 1000 ≤ n

theorem Going.later {ttl now now' : Nat} {g : Diary} {st : Resolving} (h : Going ttl now g st) (hn : now ≤ now') :
    Going ttl now' g st := by
  cases st with
  | look => trivial
  | slide id => exact ⟨Nat.le_trans h.1 hn,h.2⟩
  | clock => exact ⟨Nat.le_trans h.1 hn,h.2⟩
  | mint id =>
    obtain ⟨hx,base,n,hid,hw,hr⟩ := h
    exact ⟨hx,base,n,hid,Nat.le_trans hw hn,hr⟩

structure Sliding (w : World) (g : Diary) (ph : Nat → Phase) : Prop where
  serves : ∀ i, (callers i).Serves (ph i)
  posts : ∀ i, (callers i).resolves u = true → Resolves (ph i)
  key : w.redis (userKey cfg u) = g.turns.head?.map (fun x => ⟨.text x.id,some (x.written + cfg.sessionTtl * 1000)⟩)
  slid : g.turns = [] ∨ ∃ n, Slid cfg.sessionTtl g.turns n
  past : ∀ x l, g.turns = x :: l → x.written ≤ w.now
  fresh : ∀ i, (callers i).resolves u = true → i ∉ g.begun → ∃ v, ph i = .resolve v .look
  going : ∀ i v st, (callers i).resolves u = true → ph i = .resolve v st → Going cfg.sessionTtl w.now g st
  gone : ∀ i ctx command st, (callers i).resolves u = true → ph i = .call ctx command st →
    ∃ x ∈ g.turns, x.task = i ∧ ctx.sessionId = some x.id
  once : (g.turns.map Turn.task).Nodup
  ended : ∀ x ∈ g.turns, (callers x.task).resolves u = true ∧ ∀ v st, ph x.task ≠ .resolve v st

variable {cfg callers u} {rep : Nat → Nat} {t : Nat} {o : Op} {r : Except Exc o.Ans} {h : Hint} {w w' : World}
variable {ph : Nat → Phase} {p : Phase} {g : Diary}

theorem keep_quiet {s : Calls} (hq : (callers t).resolves u = true →
    o.cmd ≠ .get (userKey cfg u) ∧ ∀ v ex, o.cmd ≠ .set (userKey cfg u) v ex) :
    keep cfg callers u s (.task t o r h) g = g := by
  obtain ⟨c,b⟩ := o
  cases hres : (callers t).resolves u with
  | false =>
    cases c with
    | get k => simp [keep,hres]
    | set k v ex => cases v <;> simp [keep,hres]
    | _ => rfl
  | true =>
    obtain ⟨hg,hs⟩ := hq hres
    cases c with
    | get k => simp_all [keep]
    | set k v ex => cases v <;> simp_all [keep]
    | _ => rfl

-- A task that does not resolve for the user leaves everything of the user's as it is.
theorem Sliding.idle (hi : Sliding cfg callers u w g ph) (hm : PhaseMove cfg (ph t) o r p)
    (hk : w'.redis (userKey cfg u) = w.redis (userKey cfg u)) (hn : w.now ≤ w'.now)
    (hp : (callers t).resolves u = true → ∃ ctx command st, ph t = .call ctx command st) :
    Sliding cfg callers u w' g (upd ph t p) := by
  have hsame : ∀ {i v st}, (callers i).resolves u = true → upd ph t p i = .resolve v st → ph i = .resolve v st := by
    intro i v st hres hpi
    by_cases hit : i = t
    · subst hit
      obtain ⟨ctx,command,st',hq⟩ := hp hres
      rw [upd_same] at hpi
      obtain ⟨st'',rfl,_⟩ := move_call hm hq
      cases hpi
    · rwa [upd_other _ _ hit] at hpi
  constructor
  case serves => exact forall_upd (serves_step hm (hi.serves t)) hi.serves
  case posts =>
    exact forall_upd (P := fun i q => (callers i).resolves u = true → Resolves q)
      (fun hres => resolves_step hm (hi.posts t hres)) hi.posts
  case key => rw [hk,hi.key]
  case slid => exact hi.slid
  case past => exact fun x l hx => Nat.le_trans (hi.past x l hx) hn
  case fresh =>
    intro i hres hb
    obtain ⟨v,hv⟩ := hi.fresh i hres hb
    refine ⟨v,?_⟩
    by_cases hit : i = t
    · subst hit
      obtain ⟨ctx,command,st,hq⟩ := hp hres
      rw [hq] at hv
      cases hv
    · rw [upd_other _ _ hit,hv]
  case going => exact fun i v st hres hpi => (hi.going i v st hres (hsame hres hpi)).later hn
  case gone =>
    intro i ctx command st hres hpi
    by_cases hit : i = t
    · subst hit
      obtain ⟨ctx',command',st',hq⟩ := hp hres
      rw [upd_same] at hpi
      obtain ⟨st'',hp',_⟩ := move_call hm hq
      rw [hpi] at hp'
      cases hp'
      exact hi.gone i ctx command st' hres hq
    · rw [upd_other _ _ hit] at hpi
      exact hi.gone i ctx command st hres hpi
  case once => exact hi.once
  case ended => exact fun x hx => ⟨(hi.ended x hx).1,fun v st hpx => (hi.ended x hx).2 v st (hsame (hi.ended x hx).1 hpx)⟩

section Active

variable {v : Visit} {st : Resolving} {s : Calls}
variable (hi : Sliding cfg callers u s.world g ph) (hres : (callers t).resolves u = true) (hq : ph t = .resolve v st)
variable (hone : ∀ j v st, j ≠ t → (callers j).resolves u = true → ph j = .resolve v st → st = .look)
include hi hres hq hone

omit hres hone in
theorem Sliding.unwritten {x : Turn} (hx : x ∈ g.turns) : x.task ≠ t := by
  rintro rfl
  exact (hi.ended x hx).2 v st hq

-- The one resolution under way reads the key, or the clock.
theorem Sliding.reads {b : List Nat} {rd : Nat} (hm : PhaseMove cfg (ph t) o r p) (hb : ∀ i, i ∉ b → i ∉ g.begun ∧ i ≠ t)
    (hg : ∀ v st, p = .resolve v st → Going cfg.sessionTtl s.world.now { g with begun := b, read := rd } st)
    (hc : ∀ ctx command st, p ≠ .call ctx command st) :
    Sliding cfg callers u s.world { g with begun := b, read := rd } (upd ph t p) where
  serves := forall_upd (serves_step hm (hi.serves t)) hi.serves
  posts := forall_upd (P := fun i q => (callers i).resolves u = true → Resolves q)
    (fun hres => resolves_step hm (hi.posts t hres)) hi.posts
  key := hi.key
  slid := hi.slid
  past := hi.past
  fresh := by
    intro i hri hib
    obtain ⟨hib,hit⟩ := hb i hib
    obtain ⟨v,hv⟩ := hi.fresh i hri hib
    exact ⟨v,by rw [upd_other _ _ hit,hv]⟩
  going := by
    intro i v st hri hpi
    by_cases hit : i = t
    · subst hit
      rw [upd_same] at hpi
      exact hg v st hpi
    · rw [upd_other _ _ hit] at hpi
      cases hone i v st hit hri hpi
      trivial
  gone := by
    intro i ctx command st hri hpi
    by_cases hit : i = t
    · subst hit
      rw [upd_same] at hpi
      exact absurd hpi (hc ctx command st)
    · rw [upd_other _ _ hit] at hpi
      exact hi.gone i ctx command st hri hpi
  once := hi.once
  ended := by
    intro x hx
    rw [upd_other _ _ (hi.unwritten hq hx)]
    exact hi.ended x hx

-- It writes the key and returns.
theorem Sliding.writes {id : String} {ctx : SessionCtx} {command : Option String}
    (hm : PhaseMove cfg (ph t) o r p) (hp : p = .call ctx command .start) (hid : ctx.sessionId = some id) (hst : st ≠ .look)
    (hk : w'.redis (userKey cfg u) = some ⟨.text id,some (s.world.now + cfg.sessionTtl * 1000)⟩) (hn : w'.now = s.world.now)
    (hslid : ∃ n, Slid cfg.sessionTtl (⟨t,g.read,s.world.now,id⟩ :: g.turns) n) :
    Sliding cfg callers u w' { g with turns := ⟨t,g.read,s.world.now,id⟩ :: g.turns } (upd ph t p) where
  serves := forall_upd (serves_step hm (hi.serves t)) hi.serves
  posts := forall_upd (P := fun i q => (callers i).resolves u = true → Resolves q)
    (fun hres => resolves_step hm (hi.posts t hres)) hi.posts
  key := hk
  slid := .inr hslid
  past := by
    rintro x l ⟨⟩
    exact Nat.le_of_eq hn.symm
  fresh := by
    intro i hri hib
    obtain ⟨v',hv⟩ := hi.fresh i hri hib
    refine ⟨v',?_⟩
    by_cases hit : i = t
    · subst hit
      rw [hq] at hv
      cases hv
      exact absurd rfl hst
    · rw [upd_other _ _ hit,hv]
  going := by
    intro i v st hri hpi
    by_cases hit : i = t
    · subst hit
      rw [upd_same,hp] at hpi
      cases hpi
    · rw [upd_other _ _ hit] at hpi
      cases hone i v st hit hri hpi
      trivial
  gone := by
    intro i ctx' command' st' hri hpi
    by_cases hit : i = t
    · subst hit
      rw [upd_same,hp] at hpi
      cases hpi
      exact ⟨_,List.mem_cons_self,rfl,hid⟩
    · rw [upd_other _ _ hit] at hpi
      obtain ⟨x,hx,hxi⟩ := hi.gone i ctx' command' st' hri hpi
      exact ⟨x,List.mem_cons_of_mem _ hx,hxi⟩
  once := by
    refine List.nodup_cons.mpr ⟨fun hmem => ?_,hi.once⟩
    obtain ⟨x,hx,hxt⟩ := List.mem_map.mp hmem
    exact hi.unwritten hq hx hxt
  ended := by
    intro x hx
    rcases List.mem_cons.mp hx with rfl | hx
    · refine ⟨hres,fun v' st' hpx => ?_⟩
      rw [upd_same,hp] at hpx
      cases hpx
    · rw [upd_other _ _ (hi.unwritten hq hx)]
      exact hi.ended x hx

omit hone in
-- A resolution that is past its first look has begun.
theorem Sliding.begins (hst : st ≠ .look) (i : Nat) (hib : i ∉ g.begun) : i ∉ g.begun ∧ i ≠ t := by
  refine ⟨hib,?_⟩
  rintro rfl
  obtain ⟨v',hv'⟩ := hi.fresh i hres hib
  rw [hq] at hv'
  cases hv'
  exact hst rfl

omit hres hq hone in
-- What the key holds is the id of the last turn, not yet a TTL old.
theorem Sliding.found {b : List Nat} {id : String} (hl : s.world.lookup (userKey cfg u) = some (.text id)) :
    Going cfg.sessionTtl s.world.now { g with begun := b, read := s.world.now } (.slide id) := by
  obtain ⟨e,he,hval,hlive⟩ := lookup_some hl
  rw [hi.key] at he
  obtain ⟨y,hy,rfl⟩ := Option.map_eq_some_iff.mp he
  obtain ⟨l,hturns⟩ := List.head?_eq_some_iff.mp hy
  cases hval
  exact ⟨Nat.le_refl _,y,l,hturns,rfl,by simpa [Entry.live] using hlive⟩

omit hres hq hone in
-- The key holds nothing only when the last turn is a TTL old.
theorem Sliding.missed {b : List Nat} (hl : (s.world.lookup (userKey cfg u)).bind Value.asText = none) :
    Going cfg.sessionTtl s.world.now { g with begun := b, read := s.world.now } .clock := by
  refine ⟨Nat.le_refl _,fun y l hy => ?_⟩
  by_contra hlt
  rw [lookup_entry (e := ⟨.text y.id,some (y.written + cfg.sessionTtl * 1000)⟩) (by rw [hi.key,hy]; rfl)
    (by simpa [Entry.live] using hlt)] at hl
  cases hl

omit hres hq hone in
theorem Sliding.renews {id : String} (hgo : Going cfg.sessionTtl s.world.now g (.slide id)) :
    ∃ n, Slid cfg.sessionTtl (⟨t,g.read,s.world.now,id⟩ :: g.turns) n := by
  obtain ⟨_,x,l,hx,hid,hin⟩ := hgo
  rcases hi.slid with hnil | ⟨n,hs⟩
  · rw [hx] at hnil
    cases hnil
  · rw [hx] at hs ⊢
    exact ⟨n,.stay _ x l n hs hid.symm hin (hi.past x l hx)⟩

omit hres hq hone in
theorem Sliding.named (hgo : Going cfg.sessionTtl s.world.now g (.slide "")) : False := by
  obtain ⟨_,x,l,hx,hid,_⟩ := hgo
  rcases hi.slid with hnil | ⟨n,hs⟩
  · rw [hx] at hnil
    cases hnil
  · rw [hx] at hs
    obtain ⟨base,m,hm,_⟩ := slid_stamped hs x List.mem_cons_self
    rw [hid] at hm
    have := congrArg String.toList hm
    simp at this

omit hres hq hone in
theorem Sliding.opens (httl : 0 < cfg.sessionTtl) {id : String} (hgo : Going cfg.sessionTtl s.world.now g (.mint id)) :
    ∃ n, Slid cfg.sessionTtl (⟨t,g.read,s.world.now,id⟩ :: g.turns) n := by
  obtain ⟨hgap,base,n,hid,hw,hrd⟩ := hgo
  cases hx : g.turns with
  | nil => exact ⟨n,.first _ base n hid hw⟩
  | cons x l =>
    rcases hi.slid with hnil | ⟨m,hs⟩
    · rw [hx] at hnil
      cases hnil
    · rw [hx] at hs
      have hopen := slid_opened hs
      have hgap := hgap x l hx
      refine ⟨n,.fresh _ x l base m n hs ?_ hid ?_ hw⟩
      · simpa [Within] using hgap
      · omega

-- One step of the user's resolution under way.
theorem Sliding.own (hu : ∀ t v, callers t = .visit v → v.oid ≠ some u) (httl : 0 < cfg.sessionTtl) (hvu : v.oid = some u)
    (hok : ∃ a, r = .ok a) (hm : PhaseMove cfg (ph t) o r p) (ha : act rep t o s.world r h = some w') :
    Sliding cfg callers u w' (keep cfg callers u s (.task t o r h) g) (upd ph t p) := by
  have hmove := hm
  have hnow := act_now ha
  have hid := (resolving_caller hu (hi.serves t) hq hvu).2
  have hgo := hi.going t v st hres hq
  have hlooks : ∀ i, i ∉ g.begun.insert t → i ∉ g.begun ∧ i ≠ t := by
    intro i hib
    rw [List.mem_insert_iff,not_or] at hib
    exact ⟨hib.2,hib.1⟩
  rw [hq] at hm
  cases hm with
  | known v oid x id hv hx =>
    cases hv.symm.trans hvu
    obtain ⟨hl,rfl⟩ := act_get ha
    simp only [keep,hres,Bool.true_and,decide_true,if_true]
    refine hi.reads hres hq hone hmove hlooks ?_ (by simp)
    rintro v' st' ⟨⟩
    exact hi.found (hl.symm.trans (asText_some hx))
  | unknown v oid x hv hx =>
    cases hv.symm.trans hvu
    obtain ⟨hl,rfl⟩ := act_get ha
    simp only [keep,hres,Bool.true_and,decide_true,if_true]
    refine hi.reads hres hq hone hmove hlooks ?_ (by simp)
    rintro v' st' ⟨⟩
    exact hi.missed (hl ▸ hx)
  | read v oid n hv =>
    cases hv.symm.trans hvu
    simp only [act] at ha
    split at ha
    · rename_i hn
      cases ha
      rw [keep_quiet (by simp)]
      refine hi.reads hres hq hone hmove (hi.begins hres hq (by simp)) ?_ (by simp)
      rintro v' st' ⟨⟩
      exact ⟨hgo.2,_,n,hid n,hn ▸ Nat.div_mul_le_self _ _,hn ▸ Nat.div_le_div_right hgo.1⟩
    · cases ha
  | slid v oid id u' hv hne =>
    cases hv.symm.trans hvu
    rw [act_set ha] at hnow ⊢
    simp only [keep,hres,Bool.true_and,decide_true,if_true]
    exact hi.writes hres hq hone hmove rfl rfl (by simp) (upd_same _ _ _) hnow (hi.renews hgo)
  | slidEmpty v oid u' hv => exact (hi.named hgo).elim
  | mintedKey v oid id u' hv =>
    cases hv.symm.trans hvu
    rw [act_set ha] at hnow ⊢
    simp only [keep,hres,Bool.true_and,decide_true,if_true]
    exact hi.writes hres hq hone hmove rfl rfl (by simp) (upd_same _ _ _) hnow (hi.opens httl hgo)
  | resolveFailed v oid st e hv =>
    obtain ⟨a,he⟩ := hok
    cases he

end Active

-- One step of a task that is not resolving for the user.
theorem Sliding.foreign {s : Calls} (hi : Sliding cfg callers u s.world g ph)
    (hne : ∀ v st, ph t = .resolve v st → v.oid ≠ some u) (hm : PhaseMove cfg (ph t) o r p)
    (ha : act rep t o s.world r h = some w') :
    Sliding cfg callers u w' (keep cfg callers u s (.task t o r h) g) (upd ph t p) := by
  have hcall : (callers t).resolves u = true → ∃ ctx command st, ph t = .call ctx command st := by
    intro hres
    rcases hi.posts t hres with ⟨v,st,hq⟩ | hc | hover
    · exact absurd (resolved_user (hi.serves t) hq hres) (hne v st hq)
    · exact hc
    · rw [hover] at hm
      cases hm
  rw [keep_quiet (fun hres => ?_)]
  · refine hi.idle hm ?_ (Nat.le_of_eq (act_now ha).symm) hcall
    rcases user_key hm ha u with hk | ⟨v,st,id,hq,hv,_⟩
    · exact hk
    · exact absurd hv (hne v st hq)
  · obtain ⟨ctx,command,st,hq⟩ := hcall hres
    obtain ⟨st',_,hcm⟩ := move_call hm hq
    exact call_quiet hcm

theorem Sliding.step {s : Calls} (hi : Sliding cfg callers u s.world g ph)
    (hu : ∀ t v, callers t = .visit v → v.oid ≠ some u) (httl : 0 < cfg.sessionTtl)
    (hone : (callers t).resolves u = true → (∃ a, r = .ok a) ∧
      ∀ j v st, j ≠ t → (callers j).resolves u = true → ph j = .resolve v st → st = .look)
    (hm : PhaseMove cfg (ph t) o r p) (ha : act rep t o s.world r h = some w') :
    Sliding cfg callers u w' (keep cfg callers u s (.task t o r h) g) (upd ph t p) := by
  by_cases hown : ∃ v st, ph t = .resolve v st ∧ v.oid = some u
  · obtain ⟨v,st,hq,hvu⟩ := hown
    have hres := (resolving_caller hu (hi.serves t) hq hvu).1
    obtain ⟨hok,hone⟩ := hone hres
    exact hi.own hres hq hone hu httl hvu hok hm ha
  · exact hi.foreign (fun v st hq hvu => hown ⟨v,st,hq,hvu⟩) hm ha

theorem answered_stays {c : Caller} {res : Except Exc (Option (Option String × Option String))} {q : Phase}
    (hf : c.Answered cfg q res) (hc : c.resolves u = true) (v : Visit) (st : Resolving) : q ≠ .resolve v st := by
  rintro rfl
  cases c with
  | resolve oid tr rq =>
    match res with
    | .ok (some ids) =>
      obtain ⟨x,_,_,id,_,hx⟩ := hf
      cases hx
    | .ok none => exact hf oid tr rq rfl
    | .error e => cases hf oid tr rq rfl
  | visit x => cases hc
  | job j => cases hc

theorem sliding_run (hu : ∀ t v, callers t = .visit v → v.oid ≠ some u) (httl : 0 < cfg.sessionTtl) {now : Nat}
    {s : Calls} {g : Diary}
    (hr : (machine rep).Run (Separately callers u) (keep cfg callers u) (startCalls cfg callers now) ⟨[],0,[]⟩ s g) :
    ∃ ph, Sliding cfg callers u s.world g ph ∧
      ∀ t, Follows (PhaseMove cfg) (ph t) (s.pool t) ((callers t).Answered cfg) := by
  refine hr.tracked (I := Sliding cfg callers u) (fun t => (callers t).phase cfg)
    (fun t => caller_follows cfg (callers t)) ?_ ?_ ?_
  · refine ⟨fun i => serves_start (callers i),fun i hres => ?_,rfl,.inl rfl,fun x l hx => ?_,fun i hres _ => ?_,
      fun i v st hres hp => ?_,fun i ctx command st hres hp => ?_,List.nodup_nil,fun x hx => ?_⟩
    · obtain ⟨v,_,_,hv⟩ := resolves_start cfg hres
      exact .inl ⟨v,_,hv⟩
    · cases hx
    · obtain ⟨v,_,_,hv⟩ := resolves_start cfg hres
      exact ⟨v,hv⟩
    · cases resolve_start hp
      trivial
    · obtain ⟨v,_,_,hv⟩ := resolves_start cfg hres
      rw [hv] at hp
      cases hp
    · cases hx
  · intro s g ph t o r h w p hi hph hadm hm ha
    refine hi.step hu httl (fun hres => ?_) hm ha
    obtain ⟨hok,hdone⟩ := hadm hres
    refine ⟨hok,fun j v st hjt hj hp => ?_⟩
    by_cases hb : j ∈ g.begun
    · obtain ⟨res,hres⟩ := Option.isSome_iff_exists.mp (hdone j hb hjt)
      exact absurd hp (answered_stays ((hph j).outcome hres) hj v st)
    · obtain ⟨v',hv⟩ := hi.fresh j hj hb
      rw [hp] at hv
      cases hv
      rfl
  · intro s g ph e w hi _ he
    have hn := env_now he
    exact ⟨hi.serves,hi.posts,(congrFun (env_redis he) _).trans hi.key,hi.slid,fun x l hx => Nat.le_trans (hi.past x l hx) hn,
      hi.fresh,fun i v st hres hp => (hi.going i v st hres hp).later hn,hi.gone,hi.once,hi.ended⟩

-- Each resolution that has returned is one of the turns, and two turns have one id
-- exactly when no two consecutive ones from the earlier to the later lie a TTL apart.
theorem sliding_window (hu : ∀ t v, callers t = .visit v → v.oid ≠ some u) (httl : 0 < cfg.sessionTtl) {now : Nat}
    {s : Calls} {g : Diary}
    (hr : (machine rep).Run (Separately callers u) (keep cfg callers u) (startCalls cfg callers now) ⟨[],0,[]⟩ s g) :
    (g.turns.map Turn.task).Nodup ∧
    (∀ t ids, (callers t).resolves u = true → (s.pool t).outcome = some (.ok (some ids)) →
      ∃ x ∈ g.turns, x.task = t ∧ ids.1 = some x.id) ∧
    ∀ (later between earlier : List Turn) (y x : Turn), g.turns = later ++ y :: (between ++ x :: earlier) →
      (y.id = x.id ↔ List.IsChain (fun b a => b.read < a.written + cfg.sessionTtl * 1000) (y :: (between ++ [x]))) := by
  obtain ⟨ph,hi,hph⟩ := sliding_run hu httl hr
  refine ⟨hi.once,fun t ids hres hs => ?_,fun later between earlier y x hl => ?_⟩
  · obtain ⟨v,_,_,id,hid,hp⟩ := (hph t).outcome hs
    obtain ⟨x,hx,hxt,hxi⟩ := hi.gone t _ _ _ hres hp
    cases hxi
    exact ⟨x,hx,hxt,hid⟩
  · rcases hi.slid with hnil | ⟨n,hslid⟩
    · rw [hl] at hnil
      simp at hnil
    · rw [hl] at hslid
      rcases slid_suffix hslid with hnil | ⟨m,hslid⟩
      · cases hnil
      · exact slid_same hslid

end Diaries

section Schedules

def separately (callers : Nat → Caller) (u : Guid) (s : Calls) (g : Diary) (l : Step) : Bool :=
  succeeds l && match l with
    | .task t _ _ _ => !(callers t).resolves u || g.begun.all (fun i => i == t || (s.pool i).outcome.isSome)
    | .env _ => true

theorem separately_sound {callers : Nat → Caller} {u : Guid} {s : Calls} {g : Diary} {l : Step}
    (hl : separately callers u s g l = true) : Separately callers u s g l := by
  simp only [separately,Bool.and_eq_true] at hl
  match l with
  | .env e => trivial
  | .task t o (.error e) h => cases hl.1
  | .task t o (.ok a) h =>
    refine fun hres => ⟨⟨a,rfl⟩,fun i hi hit => ?_⟩
    have hall := hl.2
    simp only [hres,Bool.not_true,Bool.false_or,List.all_eq_true,Bool.or_eq_true,beq_iff_eq] at hall
    exact (hall i hi).resolve_left hit

-- The second call comes just in time, the third one a whole TTL later.
theorem sliding_window_renewed : ∃ s : Calls, ∃ g x y z,
    (machine id).Run (Separately twoTransports sampleOid) (keep sampleConfig twoTransports sampleOid)
      (startCalls sampleConfig twoTransports 0) ⟨[],0,[]⟩ s g ∧ g.turns = [z,y,x] ∧ y.id = x.id ∧ z.id ≠ y.id := by
  obtain ⟨s,g,hr,hn⟩ : ∃ s g, (machine id).Run (Separately twoTransports sampleOid)
      (keep sampleConfig twoTransports sampleOid) (startCalls sampleConfig twoTransports 0) ⟨[],0,[]⟩ s g ∧
      g.turns = [⟨2,3599999,3600000,"t2_3600"⟩,⟨1,1799999,1799999,"t1_0"⟩,⟨0,0,0,"t1_0"⟩] :=
    Machine.replay_reaches (separately twoTransports sampleOid)
      (finding sampleConfig 0 none ++ minting sampleConfig 0 0 "t1_0" ++ [.env (.tick 1799999)] ++
        finding sampleConfig 1 (some (.text "t1_0")) ++
        [answers 1 (.set (userKey sampleConfig sampleOid) (.text "t1_0") sampleConfig.sessions.ttl) ()] ++
        [.env (.tick 1800000)] ++ finding sampleConfig 2 none ++ [.env (.tick 1)] ++
        minting sampleConfig 2 3600 "t2_3600")
      (fun _ _ _ hl => separately_sound hl) (by decide +kernel)
  have hw := (sliding_window (fun t v ht => by cases ht) (by decide) hr).2.2
  refine ⟨s,g,_,_,_,hr,hn,?_,fun he => ?_⟩
  · exact (hw [_] [] [] _ _ hn).mpr (by simp [sampleConfig])
  · have hc := (hw [] [] [_] _ _ hn).mp he
    simp [sampleConfig] at hc

end Schedules

end IdentityAwareMcp
