import Eyot.Topology.InducedCopies

/-! When a workspace can be copied, and that the copy has its graph. -/

namespace Eyot.Topology

open Links

variable {draws : CloneDraws} {s : Surface} {t t' : Canvas} {newWs : CanvasWorkspace}
  {sourceId newId actorUserId : Id}

theorem mem_awakened {m : CanvasMembership} :
    m ∈ awakened t sourceId ↔ m ∈ t.memberships ∧ m.workspaceId = sourceId ∧ m.isUser = true := by
  rw [awakened, List.mem_filter, Bool.and_eq_true, decide_eq_true_eq]

theorem mem_passagesOf {p : Passage} :
    p ∈ passagesOf t sourceId ↔
      p ∈ t.passages ∧ p.workspaceId = sourceId ∧ p.deletedAt = none := by
  rw [passagesOf, List.mem_filter, Bool.and_eq_true, decide_eq_true_eq, Option.isNone_iff_eq_none]

theorem mem_induced {p : Passage} (h : p ∈ induced t sourceId) :
    p ∈ passagesOf t sourceId ∧ ∀ id ∈ link p, ∃ m ∈ awakened t sourceId, m.id = id := by
  obtain ⟨hp, hends⟩ := List.mem_filter.mp h
  rw [hasEnds, Bool.and_eq_true, List.any_eq_true, List.any_eq_true] at hends
  refine ⟨hp, ?_⟩
  intro id hid
  obtain rfl | rfl := Sym2.mem_iff.mp hid
  · obtain ⟨m, hm, heq⟩ := hends.1
    exact ⟨m, hm, of_decide_eq_true heq⟩
  · obtain ⟨m, hm, heq⟩ := hends.2
    exact ⟨m, hm, of_decide_eq_true heq⟩

/-! One passage. -/

theorem link_inducedCopy (draws : CloneDraws) (p : Passage) :
    link (inducedCopy draws p) = (link p).map draws.membershipId := by
  simp only [link, inducedCopy, passageCopy, Sym2.map_mk]
  split
  · exact Sym2.eq_swap
  · rfl

theorem inducedCopy_canonical (draws : CloneDraws) (p : Passage) :
    (inducedCopy draws p).fromMembershipId ≤ (inducedCopy draws p).toMembershipId := by
  simp only [inducedCopy, passageCopy]
  split
  · rename_i h
    exact h.le
  · rename_i h
    exact not_lt.mp h

theorem inducedCopy_copied (draws : CloneDraws) {p : Passage} :
    PassageCopied draws.membershipId draws.workspaceId p (inducedCopy draws p) where
  workspaceId := rfl
  link := link_inducedCopy draws p
  canonical := inducedCopy_canonical draws p
  isActive := rfl
  mode := rfl
  edgeMeta := rfl
  deletedAt := rfl

/-- Pairs in canonical order are equal when they join the same two. -/
theorem edgeKey_eq_of_link {p q : Passage} (hworkspace : p.workspaceId = q.workspaceId)
    (hp : p.fromMembershipId ≤ p.toMembershipId) (hq : q.fromMembershipId ≤ q.toMembershipId)
    (h : link p = link q) : p.edgeKey = q.edgeKey := by
  rw [Passage.edgeKey, Passage.edgeKey, hworkspace]
  obtain ⟨hfrom, hto⟩ | ⟨hfrom, hto⟩ := Sym2.eq_iff.mp h
  · rw [hfrom, hto]
  · rw [hfrom, hto] at hp
    have hsame := le_antisymm hp hq
    rw [hfrom, hto, hsame]

theorem link_eq_of_edgeKey {p q : Passage} (h : p.edgeKey = q.edgeKey) : link p = link q := by
  rw [Passage.edgeKey, Passage.edgeKey, Prod.mk.injEq, Prod.mk.injEq] at h
  rw [link, link, h.2.1, h.2.2]

theorem sym2_map_inj {φ : Id → Id} {V : Set Id} (hφ : Set.InjOn φ V) {e e' : Sym2 Id}
    (he : ∀ x ∈ e, x ∈ V) (he' : ∀ x ∈ e', x ∈ V) (h : e.map φ = e'.map φ) : e = e' := by
  induction e using Sym2.ind with
  | _ a b =>
    induction e' using Sym2.ind with
    | _ c d =>
      have ha := he a (Sym2.mem_mk_left a b)
      have hb := he b (Sym2.mem_mk_right a b)
      have hc := he' c (Sym2.mem_mk_left c d)
      have hd := he' d (Sym2.mem_mk_right c d)
      rw [Sym2.map_mk, Sym2.map_mk, Sym2.eq_iff] at h
      rw [Sym2.eq_iff]
      exact h.imp (fun h => ⟨hφ ha hc h.1, hφ hb hd h.2⟩)
        fun h => ⟨hφ ha hd h.1, hφ hb hc h.2⟩

/-! The copy of all. -/

def copiedCanvas (draws : CloneDraws) (actorUserId : Id) (t : Canvas) (sourceId : Id)
    (newWs : CanvasWorkspace) : Canvas where
  workspaces := t.workspaces ++ [newWs]
  centralHubs := t.centralHubs ++ [⟨draws.centralHubId, newWs.id, none⟩]
  vaults := t.vaults ++ [⟨draws.vaultId, newWs.id, none⟩]
  memberships := t.memberships ++ (awakened t sourceId).map (membershipCopy draws)
  passages := t.passages ++ (induced t sourceId).map (inducedCopy draws)
  events := t.events ++ (lost t sourceId).map (passageDropped newWs.id actorUserId) ++
    [workspaceCloned actorUserId sourceId newWs.id]

theorem CloneDraws.Fresh.injOn (h : draws.Fresh t) :
    Set.InjOn draws.membershipId {id | ∃ m ∈ awakened t sourceId, m.id = id} := by
  rintro _ ⟨m, hm, rfl⟩ _ ⟨m', hm', rfl⟩ heq
  exact h.membershipId_inj m (mem_awakened.mp hm).1 m' (mem_awakened.mp hm').1 heq

/-- No row that was there is about the new workspace. -/
theorem CloneDraws.Fresh.ne (h : draws.Fresh t) {id : Id} (hid : id ∈ t.workspaces.map (·.id)) :
    id ≠ draws.workspaceId := by
  obtain ⟨w, hw, rfl⟩ := List.mem_map.mp hid
  exact h.workspaceId w hw

section

variable (hfresh : draws.Fresh s.toCanvas) (hnew : newWs.id = draws.workspaceId)

include hfresh

theorem filter_memberships_copied :
    ((copiedCanvas draws actorUserId s.toCanvas sourceId newWs).memberships.filter
        fun m => m.workspaceId = draws.workspaceId) =
      (awakened s.toCanvas sourceId).map (membershipCopy draws) := by
  rw [copiedCanvas, List.filter_append, List.filter_eq_nil_iff.mpr, List.nil_append,
    List.filter_eq_self]
  · intro c hc
    obtain ⟨m, _, rfl⟩ := List.mem_map.mp hc
    exact decide_eq_true rfl
  · intro m hm
    simpa using hfresh.ne (s.referenced.memberships m hm)

theorem filter_passages_copied :
    ((copiedCanvas draws actorUserId s.toCanvas sourceId newWs).passages.filter
        fun p => p.workspaceId = draws.workspaceId) =
      (induced s.toCanvas sourceId).map (inducedCopy draws) := by
  rw [copiedCanvas, List.filter_append, List.filter_eq_nil_iff.mpr, List.nil_append,
    List.filter_eq_self]
  · intro c hc
    obtain ⟨p, _, rfl⟩ := List.mem_map.mp hc
    exact decide_eq_true rfl
  · intro p hp
    simpa using hfresh.ne (s.referenced.passages p hp)

/-- The copies of passages are in the index if no two active ones join the same two. -/
theorem uniqueOn_inducedCopies
    (hunique : UniqueOn Passage.isLive link (induced s.toCanvas sourceId)) :
    UniqueOn Passage.isLive Passage.edgeKey
      ((induced s.toCanvas sourceId).map (inducedCopy draws)) := by
  apply hunique.map
  · intro p hp hlive
    rw [Passage.isLive, (mem_passagesOf.mp (mem_induced hp).1).2.2]
    exact hlive
  · intro p hp q hq _ _ heq
    have hlinks := link_eq_of_edgeKey heq
    rw [link_inducedCopy, link_inducedCopy] at hlinks
    exact sym2_map_inj hfresh.injOn (mem_induced hp).2 (mem_induced hq).2 hlinks

/-- An index over what a membership is in its workspace has room for the copies. -/
theorem uniqueOn_memberships {κ : Type} {p : CanvasMembership → Bool} {g : CanvasMembership → κ}
    (h : UniqueOn p (fun m => (m.workspaceId, g m)) s.memberships)
    (hcopy : ∀ m ∈ awakened s.toCanvas sourceId, p (membershipCopy draws m) = true →
      p m = true ∧ g (membershipCopy draws m) = g m) :
    UniqueOn p (fun m => (m.workspaceId, g m))
      (s.memberships ++ (awakened s.toCanvas sourceId).map (membershipCopy draws)) := by
  apply h.append
  · apply UniqueOn.map (h.sublist List.filter_sublist)
    · exact fun m hm hp => (hcopy m hm hp).1
    · intro m hm m' hm' hp hp' heq
      have hsame := (Prod.ext_iff.mp heq).2
      dsimp only at hsame
      rw [(hcopy m hm hp).2, (hcopy m' hm' hp').2] at hsame
      rw [(mem_awakened.mp hm).2.1, (mem_awakened.mp hm').2.1, hsame]
  · intro m hm c hc _ _ heq
    obtain ⟨m', _, rfl⟩ := List.mem_map.mp hc
    exact hfresh.ne (s.referenced.memberships m hm) (Prod.ext_iff.mp heq).1

theorem keyed_copied (actorUserId : Id) (hnew : newWs.id = draws.workspaceId)
    (hfree : slugClash s.toCanvas newWs.namespaceId newWs.slug = false)
    (hunique : UniqueOn Passage.isLive link (induced s.toCanvas sourceId)) :
    (copiedCanvas draws actorUserId s.toCanvas sourceId newWs).Keyed where
  workspaceIds := by
    apply s.keyed.workspaceIds.append (.singleton _ _ newWs)
    intro w hw w' hw' _ _
    rw [List.mem_singleton.mp hw', hnew]
    exact hfresh.workspaceId w hw
  workspaceSlugs := by
    apply s.keyed.workspaceSlugs.append (.singleton _ _ newWs)
    intro w hw w' hw' hactive _ heq
    rw [List.mem_singleton.mp hw', Prod.mk.injEq] at heq
    rw [slugClash, List.any_eq_false] at hfree
    apply hfree w hw
    rw [Bool.and_eq_true, Bool.and_eq_true, decide_eq_true_eq, decide_eq_true_eq]
    exact ⟨heq, hactive⟩
  centralHubs := by
    apply s.keyed.centralHubs.append hfresh.centralHubId
    intro part hpart
    rw [hnew]
    exact hfresh.ne (s.referenced.centralHubs part hpart)
  vaults := by
    apply s.keyed.vaults.append hfresh.vaultId
    intro part hpart
    rw [hnew]
    exact hfresh.ne (s.referenced.vaults part hpart)
  membershipIds := by
    have hids := s.keyed.membershipIds
    apply hids.append
    · apply UniqueOn.map (hids.sublist List.filter_sublist) fun _ _ _ => rfl
      intro m hm m' hm' _ _ heq
      exact hfresh.membershipId_inj m (mem_awakened.mp hm).1 m' (mem_awakened.mp hm').1 heq
    · intro m hm c hc _ _
      obtain ⟨m', hm', rfl⟩ := List.mem_map.mp hc
      exact hfresh.membershipId m hm m' (mem_awakened.mp hm').1
  membershipUsers := by
    apply uniqueOn_memberships hfresh s.keyed.membershipUsers
    exact fun m hm _ => ⟨(mem_awakened.mp hm).2.2, rfl⟩
  membershipInstances := by
    apply uniqueOn_memberships hfresh s.keyed.membershipInstances
    intro m _ hinstance
    cases hinstance
  membershipPositions := by
    apply uniqueOn_memberships hfresh s.keyed.membershipPositions
    exact fun m hm _ => ⟨((Bool.and_eq_true _ _).mp (mem_awakened.mp hm).2.2).1, rfl⟩
  exclusive := by
    intro m hm
    obtain hold | hcopy := List.mem_append.mp hm
    · exact s.keyed.exclusive m hold
    · obtain ⟨m', hm', rfl⟩ := List.mem_map.mp hcopy
      have huser := ((Bool.and_eq_true _ _).mp (mem_awakened.mp hm').2.2).2
      simp [membershipCopy, huser]
  passageIds := by
    have hids := s.keyed.passageIds
    have hmem : ∀ p ∈ induced s.toCanvas sourceId, p ∈ s.passages :=
      fun p hp => (mem_passagesOf.mp (mem_induced hp).1).1
    apply hids.append
    · apply UniqueOn.map (hids.sublist (List.filter_sublist.trans List.filter_sublist))
        fun _ _ _ => rfl
      intro p hp p' hp' _ _ heq
      exact hfresh.passageId_inj p (hmem p hp) p' (hmem p' hp') heq
    · intro p hp c hc _ _
      obtain ⟨p', hp', rfl⟩ := List.mem_map.mp hc
      exact hfresh.passageId p hp p' (hmem p' hp')
  passageEdges := by
    apply s.keyed.passageEdges.append (uniqueOn_inducedCopies hfresh hunique)
    intro p hp c hc _ _ heq
    obtain ⟨p', _, rfl⟩ := List.mem_map.mp hc
    exact hfresh.ne (s.referenced.passages p hp) (Prod.ext_iff.mp heq).1

end

/-! The request. -/

theorem referenced_of_workspace (h : t.Referenced) (w : CanvasWorkspace) :
    ({ t with workspaces := t.workspaces ++ [w] } : Canvas).Referenced := by
  have hold : ∀ id ∈ t.workspaces.map (·.id), id ∈ (t.workspaces ++ [w]).map (·.id) := by
    intro id hid
    rw [List.map_append]
    exact List.mem_append_left _ hid
  exact ⟨fun part hpart => hold _ (h.centralHubs part hpart),
    fun part hpart => hold _ (h.vaults part hpart), fun m hm => hold _ (h.memberships m hm),
    fun p hp => hold _ (h.passages p hp), h.endpoints⟩

theorem referenced_of_parts {hub vault : WorkspacePart} (h : t.Referenced)
    (hhub : hub.workspaceId ∈ t.workspaces.map (·.id))
    (hvault : vault.workspaceId ∈ t.workspaces.map (·.id)) :
    ({ t with
      centralHubs := t.centralHubs ++ [hub]
      vaults := t.vaults ++ [vault] } : Canvas).Referenced where
  centralHubs := by
    intro part hpart
    obtain hold | hnew := List.mem_append.mp hpart
    · exact h.centralHubs part hold
    · rwa [List.mem_singleton.mp hnew]
  vaults := by
    intro part hpart
    obtain hold | hnew := List.mem_append.mp hpart
    · exact h.vaults part hold
    · rwa [List.mem_singleton.mp hnew]
  memberships := h.memberships
  passages := h.passages
  endpoints := h.endpoints

theorem cloneWorkspace_eq_ok {request : CloneRequest} {source : CanvasWorkspace}
    (hfresh : draws.Fresh s.toCanvas)
    (hsource : findWorkspace s.toCanvas request.sourceId = some source)
    (hfree : slugClash s.toCanvas (newWorkspace draws source request).namespaceId
      (newWorkspace draws source request).slug = false)
    (hunique : UniqueOn Passage.isLive link (induced s.toCanvas source.id)) :
    ∃ s', cloneWorkspace draws s request = .ok (s', newWorkspace draws source request) ∧
      s'.toCanvas = copiedCanvas draws request.actorUserId s.toCanvas source.id
        (newWorkspace draws source request) := by
  have hkeyed := keyed_copied hfresh request.actorUserId
    (show (newWorkspace draws source request).id = draws.workspaceId from rfl) hfree hunique
  have hws : draws.workspaceId ∈
      (s.workspaces ++ [newWorkspace draws source request]).map (·.id) := by
    rw [List.map_append]
    exact List.mem_append_right _ (List.mem_singleton.mpr rfl)
  -- the workspace, then what there is once for it
  let t₁ : Canvas :=
    { s.toCanvas with workspaces := s.workspaces ++ [newWorkspace draws source request] }
  let t₂ : Canvas :=
    { t₁ with
      centralHubs := s.centralHubs ++ [⟨draws.centralHubId, draws.workspaceId, none⟩]
      vaults := s.vaults ++ [⟨draws.vaultId, draws.workspaceId, none⟩] }
  have hkeyed₁ : t₁.Keyed := hkeyed.sublist (.refl _) (List.sublist_append_left _ _)
    (List.sublist_append_left _ _) (List.sublist_append_left _ _) (List.sublist_append_left _ _)
  have hreferenced₁ : t₁.Referenced := referenced_of_workspace s.referenced _
  have hkeyed₂ : t₂.Keyed := hkeyed.sublist (.refl _) (.refl _) (.refl _)
    (List.sublist_append_left _ _) (List.sublist_append_left _ _)
  have hreferenced₂ : t₂.Referenced := referenced_of_parts hreferenced₁ hws hws
  have hkeyed₃ : ({ t₂ with memberships := t₂.memberships ++
      (awakened t₂ source.id).map (membershipCopy draws) } : Canvas).Keyed :=
    hkeyed.sublist (.refl _) (.refl _) (.refl _) (.refl _) (List.sublist_append_left _ _)
  obtain ⟨s₃, hcopies, hs₃⟩ := copyMemberships_eq_ok (s := ⟨t₂, hkeyed₂, hreferenced₂⟩) hkeyed₃ hws
  have hpassages : passagesOf s₃.toCanvas source.id = passagesOf s.toCanvas source.id := by
    rw [hs₃]
    rfl
  have hkeyed₄ : (s₃.toCanvas.withPassages draws request.actorUserId
      (awakened s.toCanvas source.id) (passagesOf s.toCanvas source.id)).Keyed := by
    rw [hs₃]
    exact hkeyed.sublist (.refl _) (.refl _) (.refl _) (.refl _) (.refl _)
  have hmemberships : s₃.memberships =
      s.memberships ++ (awakened s.toCanvas source.id).map (membershipCopy draws) :=
    congrArg Canvas.memberships hs₃
  have hids : ∀ m ∈ awakened s.toCanvas source.id,
      draws.membershipId m.id ∈ s₃.memberships.map (·.id) := by
    intro m hm
    rw [hmemberships]
    exact List.mem_map.mpr ⟨_, List.mem_append_right _ (List.mem_map_of_mem hm), rfl⟩
  obtain ⟨hloop, hreferenced₄⟩ := copyPassages_eq_ok hkeyed₄ s₃.referenced (hs₃ ▸ hws) hids
  have hlast : ({ s₃.toCanvas.withPassages draws request.actorUserId
      (awakened s.toCanvas source.id) (passagesOf s.toCanvas source.id) with
      events := (s₃.toCanvas.withPassages draws request.actorUserId
        (awakened s.toCanvas source.id) (passagesOf s.toCanvas source.id)).events ++
          [workspaceCloned request.actorUserId source.id draws.workspaceId] } : Canvas) =
      copiedCanvas draws request.actorUserId s.toCanvas source.id
        (newWorkspace draws source request) := by
    rw [hs₃]
    rfl
  have hreferenced : (copiedCanvas draws request.actorUserId s.toCanvas source.id
      (newWorkspace draws source request)).Referenced := by
    rw [← hlast]
    exact ⟨hreferenced₄.1, hreferenced₄.2, hreferenced₄.3, hreferenced₄.4, hreferenced₄.5⟩
  refine ⟨⟨_, hkeyed, hreferenced⟩, ?_, rfl⟩
  rw [cloneWorkspace, hsource]
  dsimp only
  have hemit := (congrArg flush hlast).trans (flush_eq_ok hkeyed hreferenced)
  rw [if_neg (Bool.eq_false_iff.mp hfree)]
  refine bind_eq_of_ok (flush_eq_ok hkeyed₁ hreferenced₁) ?_
  refine bind_eq_of_ok (flush_eq_ok hkeyed₂ hreferenced₂) ?_
  refine bind_eq_of_ok hcopies ?_
  refine bind_eq_of_ok ((congrArg _ hpassages).trans hloop) ?_
  refine bind_eq_of_ok (flush_eq_ok hkeyed₄ hreferenced₄) ?_
  exact bind_eq_of_ok hemit rfl

/-! The graph. -/

theorem filter_isLive_induced (t : Canvas) (sourceId : Id) :
    (induced t sourceId).filter Passage.isLive =
      (activePassages sourceId t.passages).filter (hasEnds (awakened t sourceId)) := by
  rw [induced, passagesOf, activePassages, List.filter_filter, List.filter_filter,
    List.filter_filter]
  apply List.filter_congr
  intro p _
  rw [inGraph, Passage.isLive]
  cases p.isActive <;> cases p.deletedAt.isNone <;> simp [Bool.and_comm]

theorem links_copied (hfresh : draws.Fresh s.toCanvas) :
    links draws.workspaceId
        (copiedCanvas draws actorUserId s.toCanvas sourceId newWs).passages =
      (((induced s.toCanvas sourceId).filter Passage.isLive).map link).map
        (Sym2.map draws.membershipId) := by
  have hold : links draws.workspaceId s.passages = [] := by
    rw [links, activePassages, List.filter_eq_nil_iff.mpr, List.map_nil]
    intro p hp hin
    rw [inGraph, Bool.and_eq_true, decide_eq_true_eq] at hin
    exact hfresh.ne (s.referenced.passages p hp) hin.1
  have hlive : ∀ p ∈ induced s.toCanvas sourceId,
      inGraph draws.workspaceId (inducedCopy draws p) = p.isLive := by
    intro p hp
    rw [inGraph, Passage.isLive, Passage.isLive, (mem_passagesOf.mp (mem_induced hp).1).2.2]
    exact (congrArg (· && _) (decide_eq_true rfl)).trans (Bool.true_and _)
  have hfilter : (induced s.toCanvas sourceId).filter
      (inGraph draws.workspaceId ∘ inducedCopy draws) =
        (induced s.toCanvas sourceId).filter Passage.isLive := List.filter_congr hlive
  rw [copiedCanvas, links_append, hold, List.nil_append, links, activePassages, List.filter_map,
    List.map_map, List.map_map, hfilter]
  exact List.map_congr_left fun p _ => link_inducedCopy draws p

theorem isForest_copied (hfresh : draws.Fresh s.toCanvas)
    (h : IsForest (links sourceId s.passages)) :
    IsForest (links draws.workspaceId
      (copiedCanvas draws actorUserId s.toCanvas sourceId newWs).passages) := by
  rw [links_copied hfresh]
  apply IsForest.map hfresh.injOn
  · intro e he x hx
    obtain ⟨p, hp, rfl⟩ := List.mem_map.mp he
    exact (mem_induced (List.mem_of_mem_filter hp)).2 x hx
  · apply h.sublist
    rw [filter_isLive_induced]
    exact List.filter_sublist.map link

theorem inducedCopy_copiedCanvas (hfresh : draws.Fresh s.toCanvas)
    (hnew : newWs.id = draws.workspaceId) :
    InducedCopy actorUserId s.toCanvas (copiedCanvas draws actorUserId s.toCanvas sourceId newWs)
      sourceId newWs.id draws.membershipId where
  names := hfresh.injOn
  memberships := by
    rw [hnew, filter_memberships_copied hfresh, List.forall₂_map_right_iff, List.forall₂_same]
    exact fun m _ => ⟨rfl, rfl, rfl, rfl, rfl, rfl⟩
  passages := by
    rw [hnew, filter_passages_copied hfresh, List.forall₂_map_right_iff, List.forall₂_same]
    exact fun p _ => inducedCopy_copied draws
  dropped := rfl
  otherMemberships := by
    rw [copiedCanvas, List.filter_append, List.filter_eq_self.mpr, List.filter_eq_nil_iff.mpr,
      List.append_nil]
    · intro c hc
      obtain ⟨m, _, rfl⟩ := List.mem_map.mp hc
      simp [membershipCopy, hnew]
    · intro m hm
      simpa [hnew] using hfresh.ne (s.referenced.memberships m hm)
  otherPassages := by
    rw [copiedCanvas, List.filter_append, List.filter_eq_self.mpr, List.filter_eq_nil_iff.mpr,
      List.append_nil]
    · intro c hc
      obtain ⟨p, _, rfl⟩ := List.mem_map.mp hc
      simp [inducedCopy, passageCopy, hnew]
    · intro p hp
      simpa [hnew] using hfresh.ne (s.referenced.passages p hp)
  otherWorkspaces := by
    rw [copiedCanvas, List.filter_append, List.filter_eq_self.mpr, List.filter_eq_nil_iff.mpr,
      List.append_nil]
    · simp
    · intro w hw
      simpa [hnew] using hfresh.workspaceId w hw
  acyclic := by
    rw [hnew]
    exact isForest_copied hfresh

/-- A canvas that has a copy has a place for each pair that is active. -/
theorem unique_of_inducedCopy {φ : Id → Id} (h : InducedCopy actorUserId t s.toCanvas sourceId newId φ) :
    UniqueOn Passage.isLive link (induced t sourceId) := by
  have hedges := s.keyed.passageEdges.sublist
    (List.filter_sublist (p := fun p => decide (p.workspaceId = newId)))
  apply UniqueOn.of_forall₂ h.passages hedges
  · intro p c hcopied hlive
    rw [Passage.isLive, Bool.and_eq_true] at hlive
    rw [Passage.isLive, hcopied.isActive, hcopied.deletedAt, hlive.1]
    rfl
  · intro p p' c c' hcopied hcopied' _ _ heq
    apply edgeKey_eq_of_link (hcopied.workspaceId.trans hcopied'.workspaceId.symm)
      hcopied.canonical hcopied'.canonical
    rw [hcopied.link, hcopied'.link, heq]

/-- A workspace is copied, with all that its users span, exactly if no two active passages join the
same two of them. -/
theorem cloneWorkspace_induced_iff {request : CloneRequest} {source : CanvasWorkspace}
    (hfresh : draws.Fresh s.toCanvas)
    (hsource : findWorkspace s.toCanvas request.sourceId = some source)
    (hfree : slugClash s.toCanvas (newWorkspace draws source request).namespaceId
      (newWorkspace draws source request).slug = false) :
    (∃ s' newWs, cloneWorkspace draws s request = .ok (s', newWs) ∧
      InducedCopy request.actorUserId s.toCanvas s'.toCanvas source.id newWs.id
        draws.membershipId) ↔
      UniqueOn Passage.isLive link (induced s.toCanvas source.id) := by
  constructor
  · rintro ⟨s', newWs, _, hcopy⟩
    exact unique_of_inducedCopy hcopy
  · intro hunique
    obtain ⟨s', hok, hs'⟩ := cloneWorkspace_eq_ok hfresh hsource hfree hunique
    refine ⟨s', _, hok, ?_⟩
    rw [hs']
    exact inducedCopy_copiedCanvas hfresh rfl

def cove : CanvasWorkspace := ⟨⟨"cove", "default", none⟩, "Cove".toList, "cove".toList⟩

def coveSeat (id : Id) (posx : Int) : CanvasMembership :=
  ⟨⟨id, "cove", some id, none, none⟩, posx, 0⟩

def covePassage (id fromId toId : Id) : Passage :=
  ⟨id, "cove", fromId, toId, true, passageModeDual, none, none⟩

def coveCanvas (passages : List Passage) : Canvas where
  workspaces := [cove]
  centralHubs := []
  vaults := []
  memberships := [coveSeat "a" 0, coveSeat "b" 120]
  passages := passages
  events := []

def coveDraws : CloneDraws where
  suffix := "1f".toList
  workspaceId := "cove2"
  centralHubId := "hub2"
  vaultId := "vault2"
  membershipId := fun id => if id = "a" then "a2" else "b2"
  passageId := fun id => if id = "ab" then "ab2" else "ba2"

def coveRequest : CloneRequest := ⟨"cove", "a", none, none⟩

def coveSurface : Surface where
  toCanvas := coveCanvas [covePassage "ab" "a" "b"]
  keyed := by decide
  referenced := by decide

theorem cloneWorkspace_induced_cove :
    (∃ s' newWs, cloneWorkspace coveDraws coveSurface coveRequest = .ok (s', newWs) ∧
      InducedCopy coveRequest.actorUserId coveSurface.toCanvas s'.toCanvas cove.id newWs.id
        coveDraws.membershipId) ↔
      UniqueOn Passage.isLive link (induced coveSurface.toCanvas cove.id) :=
  cloneWorkspace_induced_iff (by decide) rfl (by decide)

/-- The index takes the two orientations of a pair for two pairs. -/
def reversedSurface : Surface where
  toCanvas := coveCanvas [covePassage "ab" "a" "b", covePassage "ba" "b" "a"]
  keyed := by decide
  referenced := by decide

/-- Their copies would be one. -/
theorem not_cloneWorkspace_induced :
    ¬∀ (draws : CloneDraws) (s : Surface) (request : CloneRequest) (source : CanvasWorkspace),
      draws.Fresh s.toCanvas → findWorkspace s.toCanvas request.sourceId = some source →
        slugClash s.toCanvas (newWorkspace draws source request).namespaceId
          (newWorkspace draws source request).slug = false →
            ∃ s' newWs, cloneWorkspace draws s request = .ok (s', newWs) ∧
              InducedCopy request.actorUserId s.toCanvas s'.toCanvas source.id newWs.id
                draws.membershipId := by
  intro h
  obtain ⟨s', newWs, _, hcopy⟩ := h coveDraws reversedSurface coveRequest cove (by decide) rfl
    (by decide)
  exact absurd (unique_of_inducedCopy hcopy) (by decide)

end Eyot.Topology
