import IdentityAwareMcp.Path.Resolve
import IdentityAwareMcp.Safety.Isolation

namespace IdentityAwareMcp

open SandboxManager Path

variable (cfg : Config) (cwd : List Part) (oid : Guid) (sid conv : Option String)

def mountDir : List Part := resolve cwd (cfg.blobMountpoint.toList ++ ['/'])

def directory : List Part := resolve cwd (workspaceDir cfg ⟨some oid.text,sid,conv,none⟩).toList

-- Three levels below the mountpoint, the first of them the user's own.
def Inside : Prop := ∃ a b, directory cfg cwd oid sid conv = mountDir cfg cwd ++ [oid.text.toList,a,b]

def PlainId (v : Option String) : Prop := ∃ s, v = some s ∧ Name s.toList

def Unshared : Prop := ∀ oid' sid' conv', PlainId sid' → PlainId conv' →
  directory cfg cwd oid' sid' conv' = directory cfg cwd oid sid conv → oid' = oid ∧ sid' = sid ∧ conv' = conv

variable {cfg cwd oid sid conv}

theorem directory_ctx {ctx : SessionCtx} (h : ctx.userOid = some oid) :
    resolve cwd (workspaceDir cfg (callIds ctx)).toList = directory cfg cwd oid ctx.sessionId ctx.conversationId := by
  simp only [callIds,h]
  rfl

theorem guid_name (g : Guid) : Name g.text.toList := by
  have hlen : g.text.toList.length = 36 := g.length
  refine ⟨?_,?_,?_,?_⟩
  · intro he
    rw [he] at hlen
    cases hlen
  · intro he
    rw [he] at hlen
    cases hlen
  · intro he
    rw [he] at hlen
    cases hlen
  · intro hs
    have hhex := g.hex _ hs
    revert hhex
    decide

theorem plain_orElse {v : Option String} {d : String} (h : PlainId v) : ∃ s, v = some s ∧ orElse v d = s ∧ Name s.toList := by
  obtain ⟨s,rfl,hn⟩ := h
  refine ⟨s,rfl,if_neg ?_,hn⟩
  rintro rfl
  exact hn.nonempty rfl

theorem directory_eq : directory cfg cwd oid sid conv =
    follow (mountDir cfg cwd ++ [oid.text.toList])
      ((orElse sid "nosession").toList.splitOn '/' ++ (orElse conv "default").toList.splitOn '/') := by
  have hoid : orElse (some oid.text) "anon" = oid.text := by
    refine if_neg ?_
    intro he
    exact (guid_name oid).nonempty (by rw [he]; rfl)
  have htext : (workspaceDir cfg ⟨some oid.text,sid,conv,none⟩).toList = cfg.blobMountpoint.toList ++
      '/' :: (oid.text.toList ++ '/' :: ((orElse sid "nosession").toList ++ '/' :: (orElse conv "default").toList)) := by
    simp only [workspaceDir,WorkspaceLayout.conversationPrefix,WorkspaceLayout.sessionPrefix,hoid,String.toList_append,
      List.append_assoc]
    rfl
  rw [directory,htext,resolve_append,List.splitOn_append_cons_self,follow_append,follow_name (guid_name oid),
    List.splitOn_append_cons_self]
  rfl

theorem directory_plain {s c : String} (hs : Name s.toList) (hc : Name c.toList) :
    directory cfg cwd oid (some s) (some c) = mountDir cfg cwd ++ [oid.text.toList,s.toList,c.toList] := by
  obtain ⟨_,he,hse,_⟩ := plain_orElse (d := "nosession") ⟨s,rfl,hs⟩
  cases he
  obtain ⟨_,he,hce,_⟩ := plain_orElse (d := "default") ⟨c,rfl,hc⟩
  cases he
  rw [directory_eq,hse,hce,follow_append,follow_name hs,follow_name hc,List.append_assoc,List.append_assoc]
  rfl

theorem guid_text_injective {g g' : Guid} (h : g.text.toList = g'.text.toList) : g = g' := by
  cases g
  cases g'
  cases String.toList_inj.mp h
  rfl

theorem directory_injective {oid' : Guid} {s c s' c' : String} (hs : Name s.toList) (hc : Name c.toList)
    (hs' : Name s'.toList) (hc' : Name c'.toList)
    (h : directory cfg cwd oid' (some s') (some c') = directory cfg cwd oid (some s) (some c)) :
    oid' = oid ∧ s' = s ∧ c' = c := by
  rw [directory_plain hs hc,directory_plain hs' hc'] at h
  have h := List.append_cancel_left h
  simp only [List.cons.injEq,and_true] at h
  exact ⟨guid_text_injective h.1,String.toList_inj.mp h.2.1,String.toList_inj.mp h.2.2⟩

theorem inside_names {a b : Part} (h : directory cfg cwd oid sid conv = mountDir cfg cwd ++ [oid.text.toList,a,b]) :
    Name a ∧ Name b := by
  have hsplit : mountDir cfg cwd ++ [oid.text.toList,a,b] = (mountDir cfg cwd ++ [oid.text.toList]) ++ [a,b] :=
    (List.append_assoc _ [_] _).symm
  refine follow_names ?_ ((directory_eq.symm.trans h).trans hsplit)
  intro p hp
  rcases List.mem_append.mp hp with hp | hp
  · exact splitOn_slash _ p hp
  · exact splitOn_slash _ p hp

-- Nothing keeps a slash or a name that leads back out of either identifier, nor the names
-- that stand for a missing one.
theorem workspace_confined (cfg : Config) (cwd : List Part) (oid : Guid) (sid conv : Option String) :
    Inside cfg cwd oid sid conv ∧ Unshared cfg cwd oid sid conv ↔ PlainId sid ∧ PlainId conv := by
  constructor
  · rintro ⟨⟨a,b,hdir⟩,hapart⟩
    obtain ⟨ha,hb⟩ := inside_names hdir
    have hlist : ∀ p : Part, (String.ofList p).toList = p := fun p => String.toList_ofList
    have hpa : PlainId (some (String.ofList a)) := ⟨_,rfl,by rwa [hlist]⟩
    have hpb : PlainId (some (String.ofList b)) := ⟨_,rfl,by rwa [hlist]⟩
    obtain ⟨-,rfl,rfl⟩ := hapart oid _ _ hpa hpb (by
      rw [directory_plain (by rwa [hlist]) (by rwa [hlist]),hdir,hlist,hlist])
    exact ⟨hpa,hpb⟩
  · rintro ⟨⟨s,rfl,hs⟩,c,rfl,hc⟩
    refine ⟨⟨_,_,directory_plain hs hc⟩,?_⟩
    rintro oid' _ _ ⟨s',rfl,hs'⟩ ⟨c',rfl,hc'⟩ he
    obtain ⟨h,rfl,rfl⟩ := directory_injective hs hc hs' hc' he
    exact ⟨h,rfl,rfl⟩

def blobConfig : Config := { sampleConfig with blobContainerResourceId := some "mcp-workspaces", blobMountpoint := "/workspace" }

def ownOid : Guid := ⟨"11111111-1111-1111-1111-111111111111",by decide,List.all_iff_forall_prop.mp (by decide)⟩

def otherOid : Guid := ⟨"22222222-2222-2222-2222-222222222222",by decide,List.all_iff_forall_prop.mp (by decide)⟩

def climbing : String := "../../22222222-2222-2222-2222-222222222222/s_2/c"

-- A request id that leads into the directory of another user's call.
theorem workspace_escapes :
    directory blobConfig [] ownOid (some "s_1") (SessionResolver.conversationId none (some climbing)) =
      directory blobConfig [] otherOid (some "s_2") (some "c") ∧
    ¬ Inside blobConfig [] ownOid (some "s_1") (SessionResolver.conversationId none (some climbing)) := by
  have hmount : mountDir blobConfig [] = ["workspace".toList] := by decide
  have hown : directory blobConfig [] ownOid (some "s_1") (SessionResolver.conversationId none (some climbing)) =
      ["workspace".toList,otherOid.text.toList,"s_2".toList,"c".toList] := by
    rw [directory_eq,hmount]
    decide
  have hother : directory blobConfig [] otherOid (some "s_2") (some "c") =
      ["workspace".toList,otherOid.text.toList,"s_2".toList,"c".toList] := by
    rw [directory_plain (by constructor <;> decide) (by constructor <;> decide),hmount]
    rfl
  refine ⟨hown.trans hother.symm,?_⟩
  rintro ⟨a,b,h⟩
  rw [hown,hmount] at h
  have he : otherOid.text.toList = ownOid.text.toList := (List.cons.inj (List.cons.inj h).2).1
  exact absurd (guid_text_injective he) (by decide)

end IdentityAwareMcp
