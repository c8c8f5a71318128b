import Eyot.Topology.WorkspaceClones
import Mathlib.Data.Sym.Sym2.Order

/-! The copy of a workspace is the part of its graph that its users span. -/

namespace Eyot.Topology

open Links

variable {draws : CloneDraws} {s : Surface} {t t' : Canvas} {source : CanvasWorkspace}
  {sourceId newId actorUserId : Id}

/-! What a copy is. -/

def hasEnds (ms : List CanvasMembership) (p : Passage) : Bool :=
  (ms.any fun m => m.id = p.fromMembershipId) && ms.any fun m => m.id = p.toMembershipId

/-- The passages between the users of the workspace. -/
def induced (t : Canvas) (workspaceId : Id) : List Passage :=
  (passagesOf t workspaceId).filter (hasEnds (awakened t workspaceId))

def lost (t : Canvas) (workspaceId : Id) : List Passage :=
  (passagesOf t workspaceId).filter fun p => !hasEnds (awakened t workspaceId) p

structure MembershipCopied (φ : Id → Id) (newId : Id) (m c : CanvasMembership) : Prop where
  id : c.id = φ m.id
  workspaceId : c.workspaceId = newId
  userId : c.userId = m.userId
  instanceId : c.instanceId = none
  deletedAt : c.deletedAt = none
  place : (c.posx, c.posy) = (m.posx, m.posy)

structure PassageCopied (φ : Id → Id) (newId : Id) (p c : Passage) : Prop where
  workspaceId : c.workspaceId = newId
  link : link c = (link p).map φ
  canonical : c.fromMembershipId ≤ c.toMembershipId
  isActive : c.isActive = p.isActive
  mode : c.mode = p.mode
  edgeMeta : c.edgeMeta = p.edgeMeta
  deletedAt : c.deletedAt = none

/-- Of the graph of a workspace `t` has a copy of what its users span, under the names that `φ`
gives, beside all that was there. -/
structure InducedCopy (actorUserId : Id) (s t : Canvas) (sourceId newId : Id) (φ : Id → Id) :
    Prop where
  names : Set.InjOn φ {id | ∃ m ∈ awakened s sourceId, m.id = id}
  memberships : List.Forall₂ (MembershipCopied φ newId) (awakened s sourceId)
    (t.memberships.filter fun m => m.workspaceId = newId)
  passages : List.Forall₂ (PassageCopied φ newId) (induced s sourceId)
    (t.passages.filter fun p => p.workspaceId = newId)
  dropped : t.events = s.events ++ (lost s sourceId).map (passageDropped newId actorUserId) ++
    [workspaceCloned actorUserId sourceId newId]
  otherMemberships : (t.memberships.filter fun m => m.workspaceId ≠ newId) = s.memberships
  otherPassages : (t.passages.filter fun p => p.workspaceId ≠ newId) = s.passages
  otherWorkspaces : (t.workspaces.filter fun w => w.id ≠ newId) = s.workspaces
  acyclic : IsForest (links sourceId s.passages) → IsForest (links newId t.passages)

/-- What the drawn identifiers are taken to be. -/
@[mk_iff] structure CloneDraws.Fresh (draws : CloneDraws) (t : Canvas) : Prop where
  workspaceId : ∀ w ∈ t.workspaces, w.id ≠ draws.workspaceId
  centralHubId : ∀ part ∈ t.centralHubs, part.id ≠ draws.centralHubId
  vaultId : ∀ part ∈ t.vaults, part.id ≠ draws.vaultId
  membershipId : ∀ m ∈ t.memberships, ∀ m' ∈ t.memberships, m.id ≠ draws.membershipId m'.id
  membershipId_inj : ∀ m ∈ t.memberships, ∀ m' ∈ t.memberships,
    draws.membershipId m.id = draws.membershipId m'.id → m.id = m'.id
  passageId : ∀ p ∈ t.passages, ∀ p' ∈ t.passages, p.id ≠ draws.passageId p'.id
  passageId_inj : ∀ p ∈ t.passages, ∀ p' ∈ t.passages,
    draws.passageId p.id = draws.passageId p'.id → p.id = p'.id

instance (draws : CloneDraws) (t : Canvas) : Decidable (draws.Fresh t) :=
  decidable_of_iff' _ (CloneDraws.fresh_iff draws t)

/-! A canvas that lacks rows of a sound one is sound. -/

theorem PartsKeyed.append {parts : List WorkspacePart} {part : WorkspacePart}
    (h : PartsKeyed parts) (hid : ∀ part' ∈ parts, part'.id ≠ part.id)
    (hworkspace : ∀ part' ∈ parts, part'.workspaceId ≠ part.workspaceId) :
    PartsKeyed (parts ++ [part]) := by
  constructor
  · apply h.ids.append (.singleton _ _ part)
    intro r hr r' hr' _ _
    rw [List.mem_singleton.mp hr']
    exact hid r hr
  · apply h.workspaces.append (.singleton _ _ part)
    intro r hr r' hr' _ _
    rw [List.mem_singleton.mp hr']
    exact hworkspace r hr

theorem PartsKeyed.sublist {parts parts' : List WorkspacePart} (hsub : parts.Sublist parts')
    (h : PartsKeyed parts') : PartsKeyed parts :=
  ⟨h.ids.sublist hsub, h.workspaces.sublist hsub⟩

theorem Canvas.Keyed.sublist (h : t'.Keyed) (hworkspaces : t.workspaces.Sublist t'.workspaces)
    (hcentralHubs : t.centralHubs.Sublist t'.centralHubs) (hvaults : t.vaults.Sublist t'.vaults)
    (hmemberships : t.memberships.Sublist t'.memberships)
    (hpassages : t.passages.Sublist t'.passages) : t.Keyed where
  workspaceIds := h.workspaceIds.sublist hworkspaces
  workspaceSlugs := h.workspaceSlugs.sublist hworkspaces
  centralHubs := h.centralHubs.sublist hcentralHubs
  vaults := h.vaults.sublist hvaults
  membershipIds := h.membershipIds.sublist hmemberships
  membershipUsers := h.membershipUsers.sublist hmemberships
  membershipInstances := h.membershipInstances.sublist hmemberships
  membershipPositions := h.membershipPositions.sublist hmemberships
  exclusive := fun m hm => h.exclusive m (hmemberships.subset hm)
  passageIds := h.passageIds.sublist hpassages
  passageEdges := h.passageEdges.sublist hpassages

theorem flush_eq_ok (hkeyed : t.Keyed) (hreferenced : t.Referenced) :
    flush t = .ok ⟨t, hkeyed, hreferenced⟩ :=
  dif_pos ⟨hkeyed, hreferenced⟩

/-! The loops. -/

theorem referenced_of_membership {m : CanvasMembership} (h : t.Referenced)
    (hworkspace : m.workspaceId ∈ t.workspaces.map (·.id)) :
    ({ t with memberships := t.memberships ++ [m] } : Canvas).Referenced where
  centralHubs := h.centralHubs
  vaults := h.vaults
  memberships := by
    intro m' hm'
    obtain hold | hnew := List.mem_append.mp hm'
    · exact h.memberships m' hold
    · rwa [List.mem_singleton.mp hnew]
  passages := h.passages
  endpoints := by
    intro p hp
    rw [List.map_append]
    exact ⟨List.mem_append_left _ (h.endpoints p hp).1,
      List.mem_append_left _ (h.endpoints p hp).2⟩

theorem referenced_of_passage {p : Passage} (h : t.Referenced)
    (hworkspace : p.workspaceId ∈ t.workspaces.map (·.id))
    (hfrom : p.fromMembershipId ∈ t.memberships.map (·.id))
    (hto : p.toMembershipId ∈ t.memberships.map (·.id)) :
    ({ t with passages := t.passages ++ [p] } : Canvas).Referenced where
  centralHubs := h.centralHubs
  vaults := h.vaults
  memberships := h.memberships
  passages := by
    intro p' hp'
    obtain hold | hnew := List.mem_append.mp hp'
    · exact h.passages p' hold
    · rwa [List.mem_singleton.mp hnew]
  endpoints := by
    intro p' hp'
    obtain hold | hnew := List.mem_append.mp hp'
    · exact h.endpoints p' hold
    · rw [List.mem_singleton.mp hnew]
      exact ⟨hfrom, hto⟩

/-- Where the database takes all copies, it has taken each. -/
theorem copyMemberships_eq_ok {ms : List CanvasMembership}
    (hkeyed : ({ s.toCanvas with
      memberships := s.memberships ++ ms.map (membershipCopy draws) } : Canvas).Keyed)
    (hworkspace : draws.workspaceId ∈ s.workspaces.map (·.id)) :
    ∃ s', copyMemberships draws s ms = .ok s' ∧ s'.toCanvas =
      { s.toCanvas with memberships := s.memberships ++ ms.map (membershipCopy draws) } := by
  induction ms generalizing s with
  | nil =>
    refine ⟨s, rfl, ?_⟩
    rw [List.map_nil, List.append_nil]
  | cons m ms ih =>
    rw [List.map_cons, List.append_cons] at hkeyed
    have hfirst : ({ s.toCanvas with
        memberships := s.memberships ++ [membershipCopy draws m] } : Canvas).Keyed :=
      hkeyed.sublist (.refl _) (.refl _) (.refl _) (List.sublist_append_left _ _) (.refl _)
    have hflush := flush_eq_ok hfirst (referenced_of_membership s.referenced hworkspace)
    obtain ⟨s', hrest, hs'⟩ := ih (s := ⟨_, hfirst, _⟩) hkeyed hworkspace
    refine ⟨s', ?_, ?_⟩
    · rw [copyMemberships, hflush]
      exact hrest
    · rw [hs']
      exact congrArg (fun memberships => ({ s.toCanvas with memberships } : Canvas))
        (List.append_cons _ _ _).symm

def inducedCopy (draws : CloneDraws) (p : Passage) : Passage :=
  passageCopy draws p (draws.membershipId p.fromMembershipId) (draws.membershipId p.toMembershipId)

theorem memMap_eq (draws : CloneDraws) (ms : List CanvasMembership) (id : Id) :
    memMap draws ms id =
      if ms.any (fun m => m.id = id) then some (draws.membershipId id) else none := by
  rw [memMap]
  cases hfind : ms.find? fun m => m.id = id with
  | none =>
    rw [List.find?_eq_none] at hfind
    rw [if_neg]
    · rfl
    · rw [Bool.not_eq_true, List.any_eq_false]
      exact hfind
  | some m =>
    have hid := List.find?_some hfind
    rw [if_pos (List.any_eq_true.mpr ⟨m, List.mem_of_find?_eq_some hfind, hid⟩)]
    rw [decide_eq_true_eq] at hid
    rw [Option.map_some, hid]

/-- What the loop makes of passages, as far as it goes. -/
def Canvas.withPassages (t : Canvas) (draws : CloneDraws) (actorUserId : Id)
    (ms : List CanvasMembership) (ps : List Passage) : Canvas :=
  { t with
    passages := t.passages ++ (ps.filter (hasEnds ms)).map (inducedCopy draws)
    events := t.events ++ (ps.filter fun p => !hasEnds ms p).map
      (passageDropped draws.workspaceId actorUserId) }

theorem copyPassages_eq_ok {ms : List CanvasMembership} {ps : List Passage}
    (hkeyed : (t.withPassages draws actorUserId ms ps).Keyed) (hreferenced : t.Referenced)
    (hworkspace : draws.workspaceId ∈ t.workspaces.map (·.id))
    (hms : ∀ m ∈ ms, draws.membershipId m.id ∈ t.memberships.map (·.id)) :
    copyPassages draws actorUserId (memMap draws ms) t ps =
        .ok (t.withPassages draws actorUserId ms ps) ∧
      (t.withPassages draws actorUserId ms ps).Referenced := by
  induction ps generalizing t with
  | nil =>
    have hnil : t.withPassages draws actorUserId ms [] = t := by
      simp [Canvas.withPassages]
    rw [hnil]
    exact ⟨rfl, hreferenced⟩
  | cons p ps ih =>
    have hend : ∀ id, (ms.any fun m => m.id = id) = true →
        draws.membershipId id ∈ t.memberships.map (·.id) := by
      intro id hid
      obtain ⟨m, hm, heq⟩ := List.any_eq_true.mp hid
      rw [decide_eq_true_eq] at heq
      exact heq ▸ hms m hm
    rw [copyPassages, memMap_eq, memMap_eq]
    cases hends : hasEnds ms p with
    | true =>
      obtain ⟨hfrom, hto⟩ := (Bool.and_eq_true _ _).mp hends
      rw [if_pos hfrom, if_pos hto]
      have hstep : t.withPassages draws actorUserId ms (p :: ps) =
          Canvas.withPassages { t with passages := t.passages ++ [inducedCopy draws p] }
            draws actorUserId ms ps := by
        simp [Canvas.withPassages, hends]
      rw [hstep] at hkeyed ⊢
      refine ih hkeyed ?_ hworkspace hms
      apply referenced_of_passage hreferenced hworkspace
      · simp only [passageCopy]
        split
        · exact hend _ hto
        · exact hend _ hfrom
      · simp only [passageCopy]
        split
        · exact hend _ hfrom
        · exact hend _ hto
    | false =>
      have hstep : t.withPassages draws actorUserId ms (p :: ps) =
          Canvas.withPassages
            { t with events := t.events ++ [passageDropped draws.workspaceId actorUserId p] }
            draws actorUserId ms ps := by
        simp [Canvas.withPassages, hends]
      rw [hstep] at hkeyed ⊢
      have hnow : ({ t with
          events := t.events ++ [passageDropped draws.workspaceId actorUserId p] } : Canvas).Keyed :=
        hkeyed.sublist (.refl _) (.refl _) (.refl _) (.refl _) (List.sublist_append_left _ _)
      have hreferenced' : ({ t with
          events := t.events ++ [passageDropped draws.workspaceId actorUserId p] } :
            Canvas).Referenced :=
        ⟨hreferenced.centralHubs, hreferenced.vaults, hreferenced.memberships,
          hreferenced.passages, hreferenced.endpoints⟩
      obtain ⟨hrest, hlast⟩ := ih hkeyed hreferenced' hworkspace hms
      refine ⟨?_, hlast⟩
      rw [hasEnds, Bool.and_eq_false_iff] at hends
      have hemit := flush_eq_ok hnow hreferenced'
      split
      · rename_i nf nt hfrom hto
        obtain hno | hno := hends
        · simp [hno] at hfrom
        · simp [hno] at hto
      · rw [emit, hemit]
        exact hrest

end Eyot.Topology
