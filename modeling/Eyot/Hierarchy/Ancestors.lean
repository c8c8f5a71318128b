import Eyot.Hierarchy.Requests
import Eyot.Library.Keeps
import Eyot.Library.Run

/-! Whether what is active stands under something that is gone. -/

namespace Eyot.Hierarchy

open Market (Organization)

variable {s s' : State}

/-! The ancestors, all of them there and active. -/

def OrganizationLive (s : State) (id : Id) : Prop :=
  ∃ o, s.organizations.find? id = some o ∧ o.deleted = false

def NamespaceLive (s : State) (id : Id) : Prop :=
  ∃ n, s.namespaces.find? id = some n ∧ n.deleted = false ∧ OrganizationLive s n.orgId

def WorkspaceLive (s : State) (id : Id) : Prop :=
  ∃ w, s.workspaces.find? id = some w ∧ w.deleted = false ∧ NamespaceLive s w.namespaceId

/-- The entity may be gone, but not what it is in. -/
def EntityHomeLive (s : State) (id : Id) : Prop :=
  ∃ e, s.entities.find? id = some e ∧ NamespaceLive s e.namespaceId

structure AncestorsLive (s : State) : Prop where
  workspaces : ∀ w ∈ s.workspaces.rows, w.deleted = false → NamespaceLive s w.namespaceId
  entities : ∀ e ∈ s.entities.rows, e.deleted = false → NamespaceLive s e.namespaceId
  instances : ∀ i ∈ s.instances.rows, i.deleted = false →
    WorkspaceLive s i.workspaceId ∧ EntityHomeLive s i.entityId
  memberships : ∀ m ∈ s.memberships.rows, m.deleted = false → WorkspaceLive s m.workspaceId

/-- Active namespaces are in active organizations, whatever happens. -/
def NamespacesLive (s : State) : Prop :=
  ∀ n ∈ s.namespaces.rows, n.deleted = false → OrganizationLive s n.orgId

/-! What is only added to leaves what is live alive. -/

/-- The rows of `s` are rows of `s'`, under their keys. -/
structure Extends (s s' : State) : Prop where
  organizations : ∀ id o, s.organizations.find? id = some o → s'.organizations.find? id = some o
  namespaces : ∀ id n, s.namespaces.find? id = some n → s'.namespaces.find? id = some n
  workspaces : ∀ id w, s.workspaces.find? id = some w → s'.workspaces.find? id = some w
  entities : ∀ id e, s.entities.find? id = some e → s'.entities.find? id = some e

namespace Extends

theorem refl (s : State) : Extends s s :=
  ⟨fun _ _ h => h, fun _ _ h => h, fun _ _ h => h, fun _ _ h => h⟩

theorem trans {s'' : State} (h : Extends s s') (h' : Extends s' s'') : Extends s s'' where
  organizations id o ho := h'.organizations id o (h.organizations id o ho)
  namespaces id n hn := h'.namespaces id n (h.namespaces id n hn)
  workspaces id w hw := h'.workspaces id w (h.workspaces id w hw)
  entities id e he := h'.entities id e (h.entities id e he)

variable (h : Extends s s')
include h

theorem organizationLive {id : Id} : OrganizationLive s id → OrganizationLive s' id := by
  rintro ⟨o, ho, hactive⟩
  exact ⟨o, h.organizations id o ho, hactive⟩

theorem namespaceLive {id : Id} : NamespaceLive s id → NamespaceLive s' id := by
  rintro ⟨n, hn, hactive, horg⟩
  exact ⟨n, h.namespaces id n hn, hactive, h.organizationLive horg⟩

theorem workspaceLive {id : Id} : WorkspaceLive s id → WorkspaceLive s' id := by
  rintro ⟨w, hw, hactive, hns⟩
  exact ⟨w, h.workspaces id w hw, hactive, h.namespaceLive hns⟩

theorem entityHomeLive {id : Id} : EntityHomeLive s id → EntityHomeLive s' id := by
  rintro ⟨e, he, hns⟩
  exact ⟨e, h.entities id e he, h.namespaceLive hns⟩

/-- Only rows that are new have to be looked at. -/
theorem ancestorsLive (hs : AncestorsLive s)
    (hworkspaces : ∀ w ∈ s'.workspaces.rows, w.deleted = false →
      w ∈ s.workspaces.rows ∨ NamespaceLive s' w.namespaceId)
    (hentities : ∀ e ∈ s'.entities.rows, e.deleted = false →
      e ∈ s.entities.rows ∨ NamespaceLive s' e.namespaceId)
    (hinstances : ∀ i ∈ s'.instances.rows, i.deleted = false →
      i ∈ s.instances.rows ∨ (WorkspaceLive s' i.workspaceId ∧ EntityHomeLive s' i.entityId))
    (hmemberships : ∀ m ∈ s'.memberships.rows, m.deleted = false →
      m ∈ s.memberships.rows ∨ WorkspaceLive s' m.workspaceId) : AncestorsLive s' where
  workspaces w hw hactive := (hworkspaces w hw hactive).elim
    (fun hw => h.namespaceLive (hs.workspaces w hw hactive)) id
  entities e he hactive := (hentities e he hactive).elim
    (fun he => h.namespaceLive (hs.entities e he hactive)) id
  instances i hi hactive := (hinstances i hi hactive).elim
    (fun hi => (hs.instances i hi hactive).imp h.workspaceLive h.entityHomeLive) id
  memberships m hm hactive := (hmemberships m hm hactive).elim
    (fun hm => h.workspaceLive (hs.memberships m hm hactive)) id

end Extends

/-- Organizations and namespaces are what they were. -/
def SameTop (s s' : State) : Prop :=
  s'.organizations = s.organizations ∧ s'.namespaces = s.namespaces

theorem SameTop.namespaceLive (h : SameTop s s') {id : Id} :
    NamespaceLive s' id ↔ NamespaceLive s id := by
  simp only [NamespaceLive, OrganizationLive, h.1, h.2]

theorem SameTop.namespacesLive (h : SameTop s s') : NamespacesLive s' ↔ NamespacesLive s := by
  simp only [NamespacesLive, OrganizationLive, h.1, h.2]

/-! One new row. -/

theorem addWorkspace_eq_some {w : Workspace} (h : s.addWorkspace w = some s') :
    Extends s s' ∧ SameTop s s' ∧ w ∈ s'.workspaces.rows ∧
      (AncestorsLive s → NamespaceLive s w.namespaceId → AncestorsLive s') := by
  simp only [State.addWorkspace] at h
  split at h
  · cases h
  · obtain ⟨t, ht, rfl⟩ := Option.map_eq_some_iff.mp h
    have hextends : Extends s { s with workspaces := t } :=
      ⟨fun _ _ h => h, fun _ _ h => h, fun _ _ => Table.find?_of_insert? ht, fun _ _ h => h⟩
    refine ⟨hextends, ⟨rfl, rfl⟩, (Table.mem_insert? ht).mpr (.inr rfl), ?_⟩
    intro hs hns
    apply hextends.ancestorsLive hs
    · intro w' hw' _
      refine ((Table.mem_insert? ht).mp hw').imp_right ?_
      rintro rfl
      exact hextends.namespaceLive hns
    · exact fun _ he _ => .inl he
    · exact fun _ hi _ => .inl hi
    · exact fun _ hm _ => .inl hm

theorem addEntity_eq_some {e : Entity} (h : s.addEntity e = some s') :
    Extends s s' ∧ SameTop s s' ∧ s'.workspaces = s.workspaces ∧ e ∈ s'.entities.rows ∧
      (AncestorsLive s → NamespaceLive s e.namespaceId → AncestorsLive s') := by
  simp only [State.addEntity] at h
  split at h
  · cases h
  · obtain ⟨t, ht, rfl⟩ := Option.map_eq_some_iff.mp h
    have hextends : Extends s { s with entities := t } :=
      ⟨fun _ _ h => h, fun _ _ h => h, fun _ _ h => h, fun _ _ => Table.find?_of_insert? ht⟩
    refine ⟨hextends, ⟨rfl, rfl⟩, rfl, (Table.mem_insert? ht).mpr (.inr rfl), ?_⟩
    intro hs hns
    apply hextends.ancestorsLive hs
    · exact fun _ hw _ => .inl hw
    · intro e' he' _
      refine ((Table.mem_insert? ht).mp he').imp_right ?_
      rintro rfl
      exact hextends.namespaceLive hns
    · exact fun _ hi _ => .inl hi
    · exact fun _ hm _ => .inl hm

theorem addInstance_eq_some {i : Instance} (h : s.addInstance i = some s') :
    Extends s s' ∧ SameTop s s' ∧
      (AncestorsLive s → WorkspaceLive s i.workspaceId → EntityHomeLive s i.entityId →
        AncestorsLive s') := by
  simp only [State.addInstance] at h
  split at h
  · cases h
  · obtain ⟨t, ht, rfl⟩ := Option.map_eq_some_iff.mp h
    have hextends : Extends s { s with instances := t } :=
      ⟨fun _ _ h => h, fun _ _ h => h, fun _ _ h => h, fun _ _ h => h⟩
    refine ⟨hextends, ⟨rfl, rfl⟩, ?_⟩
    intro hs hws hentity
    apply hextends.ancestorsLive hs
    · exact fun _ hw _ => .inl hw
    · exact fun _ he _ => .inl he
    · intro i' hi' _
      refine ((Table.mem_insert? ht).mp hi').imp_right ?_
      rintro rfl
      exact ⟨hextends.workspaceLive hws, hextends.entityHomeLive hentity⟩
    · exact fun _ hm _ => .inl hm

theorem addMembership_eq_some {m : Membership} (h : s.addMembership m = some s') :
    Extends s s' ∧ SameTop s s' ∧
      (AncestorsLive s → WorkspaceLive s m.workspaceId → AncestorsLive s') := by
  simp only [State.addMembership] at h
  split at h
  · cases h
  · obtain ⟨t, ht, rfl⟩ := Option.map_eq_some_iff.mp h
    have hextends : Extends s { s with memberships := t } :=
      ⟨fun _ _ h => h, fun _ _ h => h, fun _ _ h => h, fun _ _ h => h⟩
    refine ⟨hextends, ⟨rfl, rfl⟩, ?_⟩
    intro hs hws
    apply hextends.ancestorsLive hs
    · exact fun _ hw _ => .inl hw
    · exact fun _ he _ => .inl he
    · exact fun _ hi _ => .inl hi
    · intro m' hm' _
      refine ((Table.mem_insert? ht).mp hm').imp_right ?_
      rintro rfl
      exact hextends.workspaceLive hws

/-! The requests that make something. -/

theorem activeWorkspace?_live (hs : AncestorsLive s) {id : Id} {w : Workspace}
    (h : s.activeWorkspace? id = some w) : WorkspaceLive s id := by
  obtain ⟨hw, hactive⟩ := Option.filter_eq_some_iff.mp h
  rw [Bool.not_eq_true'] at hactive
  exact ⟨w, hw, hactive, hs.workspaces w (Table.find?_mem hw) hactive⟩

theorem activeEntity?_live (hs : AncestorsLive s) {id : Id} {e : Entity}
    (h : s.activeEntity? id = some e) : EntityHomeLive s id := by
  obtain ⟨he, hactive⟩ := Option.filter_eq_some_iff.mp h
  rw [Bool.not_eq_true'] at hactive
  exact ⟨e, he, hs.entities e (Table.find?_mem he) hactive⟩

theorem live_createOrganization (hs : AncestorsLive s) (hn : NamespacesLive s) {id : Id}
    {slug : Str} (h : createOrganization s id slug = some s') :
    AncestorsLive s' ∧ NamespacesLive s' := by
  simp only [createOrganization] at h
  split at h
  · cases h
  · obtain ⟨t, ht, rfl⟩ := Option.map_eq_some_iff.mp h
    have hextends : Extends s { s with organizations := t } :=
      ⟨fun _ _ => Table.find?_of_insert? ht, fun _ _ h => h, fun _ _ h => h, fun _ _ h => h⟩
    constructor
    · exact hextends.ancestorsLive hs (fun _ h _ => .inl h) (fun _ h _ => .inl h)
        (fun _ h _ => .inl h) fun _ h _ => .inl h
    · exact fun n hmem hactive => hextends.organizationLive (hn n hmem hactive)

theorem resolveOrgId_live {orgId : Option Id} {id : Id} (h : s.resolveOrgId orgId = some id) :
    OrganizationLive s id := by
  simp only [State.resolveOrgId] at h
  split at h
  · obtain ⟨o, ho, rfl⟩ := Option.map_eq_some_iff.mp h
    obtain ⟨hfind, hactive⟩ := Option.filter_eq_some_iff.mp ho
    rw [Bool.not_eq_true'] at hactive
    exact ⟨o, s.organizations.find?_of_mem (Table.find?_mem hfind), hactive⟩
  · obtain ⟨o, ho, rfl⟩ := Option.map_eq_some_iff.mp h
    have hprops := List.find?_some ho
    rw [Bool.and_eq_true, Bool.not_eq_true'] at hprops
    exact ⟨o, s.organizations.find?_of_mem (List.mem_of_find?_eq_some ho), hprops.2⟩

theorem live_createNamespace (hs : AncestorsLive s) (hn : NamespacesLive s) {caller : Caller}
    {id : Id} {orgId : Option Id} {slug : Str}
    (h : createNamespace s caller id orgId slug = some s') :
    AncestorsLive s' ∧ NamespacesLive s' := by
  obtain ⟨org, horg, h⟩ := Option.bind_eq_some_iff.mp h
  simp only [State.addNamespace] at h
  split at h
  · cases h
  · split at h
    · cases h
    · obtain ⟨t, ht, rfl⟩ := Option.map_eq_some_iff.mp h
      have hextends : Extends s { s with namespaces := t } :=
        ⟨fun _ _ h => h, fun _ _ => Table.find?_of_insert? ht, fun _ _ h => h, fun _ _ h => h⟩
      constructor
      · exact hextends.ancestorsLive hs (fun _ h _ => .inl h) (fun _ h _ => .inl h)
          (fun _ h _ => .inl h) fun _ h _ => .inl h
      · intro n hmem hactive
        rcases (Table.mem_insert? ht).mp hmem with hmem | rfl
        · exact hn n hmem hactive
        · exact resolveOrgId_live horg

theorem ensureCerebellum_eq_some {ids : NewIds} {w : Workspace}
    (h : ensureCerebellum s ids w = some s') :
    Extends s s' ∧ SameTop s s' ∧
      (AncestorsLive s → WorkspaceLive s w.id → NamespaceLive s w.namespaceId →
        AncestorsLive s') := by
  obtain ⟨⟨s₁, entityId⟩, hentity, h⟩ := Option.bind_eq_some_iff.mp h
  have hensured : Extends s s₁ ∧ SameTop s s₁ ∧ (AncestorsLive s →
      NamespaceLive s w.namespaceId → AncestorsLive s₁ ∧ EntityHomeLive s₁ entityId) := by
    split at hentity
    · obtain ⟨s₂, hadd, heq⟩ := Option.map_eq_some_iff.mp hentity
      obtain ⟨rfl, rfl⟩ := Prod.mk.inj heq
      obtain ⟨hextends, hsame, -, hmem, hlive⟩ := addEntity_eq_some hadd
      refine ⟨hextends, hsame, fun hs hns => ⟨hlive hs hns, ?_⟩⟩
      exact ⟨_, s₂.entities.find?_of_mem hmem, hsame.namespaceLive.mpr hns⟩
    · rename_i e hone
      obtain ⟨rfl, rfl⟩ := Prod.mk.inj (Option.some.inj hentity)
      refine ⟨.refl s, ⟨rfl, rfl⟩, fun hs hns => ⟨hs, e, ?_, ?_⟩⟩
      · apply Table.find?_of_mem
        have hmem := List.mem_singleton_self e
        rw [← hone] at hmem
        exact List.mem_of_mem_filter (List.mem_of_mem_filter hmem)
      · have hmem := List.mem_singleton_self e
        rw [← hone] at hmem
        have := (List.mem_filter.mp (List.mem_of_mem_filter hmem)).2
        rw [Bool.and_eq_true, decide_eq_true_eq] at this
        rw [this.1]
        exact hns
    · cases hentity
  obtain ⟨hextends, hsame, hlive⟩ := hensured
  simp only at h
  split at h
  · obtain ⟨hextends', hsame', hlive'⟩ := addInstance_eq_some h
    refine ⟨hextends.trans hextends', ⟨hsame'.1.trans hsame.1, hsame'.2.trans hsame.2⟩, ?_⟩
    intro hs hws hns
    obtain ⟨hs₁, hhome⟩ := hlive hs hns
    exact hlive' hs₁ (hextends.workspaceLive hws) hhome
  · obtain rfl := Option.some.inj h
    exact ⟨hextends, hsame, fun hs _ hns => (hlive hs hns).1⟩
  · cases h

/-- A workspace is made where its namespace is live, or it breaks the rule at once. -/
theorem live_createWorkspace (hs : AncestorsLive s) {caller : Caller} {ids : NewIds} {userId : Id}
    {namespaceId : Option Id} {slug : Str}
    (h : createWorkspace s caller ids userId namespaceId slug = some s') :
    SameTop s s' ∧ (AncestorsLive s' ↔
      ∀ id, s.resolveNamespaceId namespaceId = some id → NamespaceLive s id) := by
  obtain ⟨id, hid, h⟩ := Option.bind_eq_some_iff.mp h
  simp only at h
  split at h
  · cases h
  · obtain ⟨s₁, hs₁, h⟩ := Option.bind_eq_some_iff.mp h
    obtain ⟨s₂, hs₂, h⟩ := Option.bind_eq_some_iff.mp h
    obtain ⟨hextends₁, hsame₁, hmem, hlive₁⟩ := addWorkspace_eq_some hs₁
    obtain ⟨hextends₂, hsame₂, hlive₂⟩ := ensureCerebellum_eq_some hs₂
    obtain ⟨hextends₃, hsame₃, hlive₃⟩ := addMembership_eq_some h
    have hsame : SameTop s s' := ⟨hsame₃.1.trans (hsame₂.1.trans hsame₁.1),
      hsame₃.2.trans (hsame₂.2.trans hsame₁.2)⟩
    have hfind := s₁.workspaces.find?_of_mem hmem
    refine ⟨hsame, ?_⟩
    simp only [hid, Option.some.injEq, forall_eq']
    constructor
    · intro hs'
      have hfind' := hextends₃.workspaces _ _ (hextends₂.workspaces _ _ hfind)
      exact hsame.namespaceLive.mp (hs'.workspaces _ (Table.find?_mem hfind') rfl)
    · intro hns
      have hws : WorkspaceLive s₁ ids.workspaceId :=
        ⟨_, hfind, rfl, hextends₁.namespaceLive hns⟩
      have hs₂ := hlive₂ (hlive₁ hs hns) hws (hextends₁.namespaceLive hns)
      exact hlive₃ hs₂ (hextends₂.workspaceLive hws)

theorem live_createEntity (hs : AncestorsLive s) {caller : Caller} {newId : Id}
    {namespaceId : Option Id} {slug : Str} {isCerebellum : Bool}
    (h : createEntity s caller newId namespaceId slug isCerebellum = some s') :
    SameTop s s' ∧ (AncestorsLive s' ↔
      ∀ id, s.resolveNamespaceId namespaceId = some id → NamespaceLive s id) := by
  obtain ⟨id, hid, h⟩ := Option.bind_eq_some_iff.mp h
  simp only at h
  split at h
  · cases h
  · obtain ⟨-, hsame, -, hmem, hlive⟩ := addEntity_eq_some h
    refine ⟨hsame, ?_⟩
    simp only [hid, Option.some.injEq, forall_eq']
    exact ⟨fun hs' => hsame.namespaceLive.mp (hs'.entities _ hmem rfl), hlive hs⟩

theorem live_createIntroducedInstance (hs : AncestorsLive s) {ids : NewIds}
    {entityId workspaceId : Id} {requireNamespaceMatch : Bool}
    (h : createIntroducedInstance s ids entityId workspaceId requireNamespaceMatch = some s') :
    SameTop s s' ∧ AncestorsLive s' := by
  simp only [createIntroducedInstance] at h
  split at h
  · rename_i w e hw he
    split at h
    · cases h
    · obtain ⟨s₁, hs₁, h⟩ := Option.bind_eq_some_iff.mp h
      obtain ⟨hextends₁, hsame₁, hlive₁⟩ := addInstance_eq_some hs₁
      obtain ⟨-, hsame₂, hlive₂⟩ := addMembership_eq_some h
      have hws := activeWorkspace?_live hs hw
      refine ⟨⟨hsame₂.1.trans hsame₁.1, hsame₂.2.trans hsame₁.2⟩, ?_⟩
      exact hlive₂ (hlive₁ hs hws (activeEntity?_live hs he)) (hextends₁.workspaceLive hws)
  · cases h

theorem live_createMembership (hs : AncestorsLive s) {id workspaceId : Id} {seat : Seat}
    (h : createMembership s id workspaceId seat = some s') :
    SameTop s s' ∧ AncestorsLive s' := by
  simp only [createMembership] at h
  split at h
  · cases h
  · rename_i w hw
    have hws := activeWorkspace?_live hs hw
    split at h
    · rename_i m hm
      split at h
      · obtain rfl := Option.some.inj h
        refine ⟨⟨rfl, rfl⟩, hs.workspaces, hs.entities, hs.instances, ?_⟩
        have hplace := List.find?_some hm
        rw [Bool.and_eq_true, decide_eq_true_eq] at hplace
        intro m' hm' hactive
        rcases Table.mem_update_cases Membership.revive_id hm' with ⟨hm', -⟩ | ⟨m₀, hm₀, hid, rfl⟩
        · exact hs.memberships m' hm' hactive
        · obtain rfl := s.memberships.eq_of_key_eq hm₀ (List.mem_of_find?_eq_some hm) hid
          rw [Membership.revive, hplace.1]
          exact hws
      · cases h
    · split at h
      · obtain ⟨-, hsame, hlive⟩ := addMembership_eq_some h
        exact ⟨hsame, hlive hs hws⟩
      · split at h
        · cases h
        · obtain ⟨-, hsame, hlive⟩ := addMembership_eq_some h
          exact ⟨hsame, hlive hs hws⟩

/-! The requests that take something away. -/

/-- Nothing active is in the namespace, nor an instance of an entity of it. -/
structure Vacant (s : State) (namespaceId : Id) : Prop where
  workspaces : ∀ w ∈ s.workspaces.rows, w.deleted = false → w.namespaceId ≠ namespaceId
  entities : ∀ e ∈ s.entities.rows, e.deleted = false → e.namespaceId ≠ namespaceId
  instances : ∀ i ∈ s.instances.rows, i.deleted = false →
    (∀ w, s.workspaces.find? i.workspaceId = some w → w.namespaceId ≠ namespaceId) ∧
      ∀ e, s.entities.find? i.entityId = some e → e.namespaceId ≠ namespaceId
  memberships : ∀ m ∈ s.memberships.rows, m.deleted = false →
    ∀ w, s.workspaces.find? m.workspaceId = some w → w.namespaceId ≠ namespaceId

theorem namespaceLive_softDelete (namespaceId id : Id) :
    NamespaceLive { s with
      namespaces := s.namespaces.update namespaceId Namespace.softDelete
        Namespace.softDelete_id } id ↔ NamespaceLive s id ∧ id ≠ namespaceId := by
  simp only [NamespaceLive, Table.update, ← and_assoc,
    Table.find?_updateWhere_iff Namespace.deleted (f := Namespace.softDelete) (fun _ => rfl)]
  constructor
  · rintro ⟨n, ⟨⟨hfind, hactive⟩, hne⟩, horg⟩
    rw [Table.find?_key hfind, decide_eq_false_iff_not] at hne
    exact ⟨⟨n, ⟨hfind, hactive⟩, horg⟩, hne⟩
  · rintro ⟨⟨n, ⟨hfind, hactive⟩, horg⟩, hne⟩
    refine ⟨n, ⟨⟨hfind, hactive⟩, ?_⟩, horg⟩
    rw [Table.find?_key hfind, decide_eq_false_iff_not]
    exact hne

theorem live_deleteNamespace (hs : AncestorsLive s) (hn : NamespacesLive s) {namespaceId : Id}
    (h : deleteNamespace s namespaceId = some s') :
    NamespacesLive s' ∧ (AncestorsLive s' ↔ Vacant s namespaceId) := by
  simp only [deleteNamespace] at h
  split at h
  · split at h
    · cases h
    · obtain rfl := Option.some.inj h
      have hlive := fun id => namespaceLive_softDelete (s := s) namespaceId id
      constructor
      · intro n hmem hactive
        obtain ⟨hmem, -⟩ := Table.mem_of_not_marked Namespace.deleted Namespace.softDelete_id
          (fun _ => rfl) hmem hactive
        exact hn n hmem hactive
      constructor
      · intro hs'
        refine ⟨?_, ?_, ?_, ?_⟩
        · intro w hw hactive
          exact ((hlive _).mp (hs'.workspaces w hw hactive)).2
        · intro e he hactive
          exact ((hlive _).mp (hs'.entities e he hactive)).2
        · intro i hi hactive
          obtain ⟨⟨w, hw, -, hwns⟩, e, he, hens⟩ := hs'.instances i hi hactive
          constructor
          · intro w' hw'
            cases hw.symm.trans hw'
            exact ((hlive _).mp hwns).2
          · intro e' he'
            cases he.symm.trans he'
            exact ((hlive _).mp hens).2
        · intro m hm hactive w' hw'
          obtain ⟨w, hw, -, hwns⟩ := hs'.memberships m hm hactive
          cases hw.symm.trans hw'
          exact ((hlive _).mp hwns).2
      · intro hvacant
        refine ⟨?_, ?_, ?_, ?_⟩
        · intro w hw hactive
          exact (hlive _).mpr ⟨hs.workspaces w hw hactive, hvacant.workspaces w hw hactive⟩
        · intro e he hactive
          exact (hlive _).mpr ⟨hs.entities e he hactive, hvacant.entities e he hactive⟩
        · intro i hi hactive
          obtain ⟨⟨w, hw, hwactive, hwns⟩, e, he, hens⟩ := hs.instances i hi hactive
          obtain ⟨hnotws, hnotentity⟩ := hvacant.instances i hi hactive
          exact ⟨⟨w, hw, hwactive, (hlive _).mpr ⟨hwns, hnotws w hw⟩⟩, e, he,
            (hlive _).mpr ⟨hens, hnotentity e he⟩⟩
        · intro m hm hactive
          obtain ⟨w, hw, hwactive, hwns⟩ := hs.memberships m hm hactive
          exact ⟨w, hw, hwactive, (hlive _).mpr ⟨hwns, hvacant.memberships m hm hactive w hw⟩⟩
  · cases h

/-- No active instance elsewhere is one of an entity of the organization. -/
def NoneAbroad (s : State) (orgId : Id) : Prop :=
  ∀ i ∈ s.instances.rows, i.deleted = false → s.inWsOf orgId i.workspaceId = false →
    ∀ e, s.entities.find? i.entityId = some e → s.inNsOf orgId e.namespaceId = false

theorem inNsOf_eq_false {orgId id : Id} {n : Namespace} (hn : s.namespaces.find? id = some n)
    (hactive : n.deleted = false) : s.inNsOf orgId id = false ↔ n.orgId ≠ orgId := by
  simp [State.inNsOf, State.nsOf, hn, hactive]

theorem inWsOf_eq_false {orgId id : Id} {w : Workspace} (hw : s.workspaces.find? id = some w)
    (hactive : w.deleted = false) :
    s.inWsOf orgId id = false ↔ s.inNsOf orgId w.namespaceId = false := by
  simp [State.inWsOf, hw, hactive]

/-- A soft-deleted entity stays in its namespace. -/
theorem home_softDelete {p : Entity → Bool} {q : Id → Prop} {id : Id} :
    (∃ e, (s.entities.updateWhere p Entity.softDelete Entity.softDelete_id).find? id = some e ∧
      q e.namespaceId) ↔ ∃ e, s.entities.find? id = some e ∧ q e.namespaceId := by
  rw [Table.find?_updateWhere]
  cases s.entities.find? id with
  | none => simp
  | some e =>
    simp only [Option.map_some, Option.some.injEq, exists_eq_left']
    split <;> rfl

section

variable {orgId id : Id}

theorem organizationLive_withoutOrganization :
    OrganizationLive (s.withoutOrganization orgId) id ↔ OrganizationLive s id ∧ id ≠ orgId := by
  simp only [OrganizationLive, State.withoutOrganization, Table.update, Table.find?_updateWhere_iff
    Organization.deleted (f := Organization.softDelete) (fun _ => rfl)]
  constructor
  · rintro ⟨o, hfind, hactive, hne⟩
    rw [Table.find?_key hfind, decide_eq_false_iff_not] at hne
    exact ⟨⟨o, hfind, hactive⟩, hne⟩
  · rintro ⟨⟨o, hfind, hactive⟩, hne⟩
    refine ⟨o, hfind, hactive, ?_⟩
    rw [Table.find?_key hfind, decide_eq_false_iff_not]
    exact hne

theorem namespaceLive_withoutOrganization :
    NamespaceLive (s.withoutOrganization orgId) id ↔
      NamespaceLive s id ∧ s.inNsOf orgId id = false := by
  simp only [NamespaceLive, organizationLive_withoutOrganization]
  simp only [State.withoutOrganization, ← and_assoc, Table.find?_updateWhere_iff Namespace.deleted
    (f := Namespace.softDelete) (fun _ => rfl)]
  constructor
  · rintro ⟨n, ⟨⟨⟨hfind, hactive⟩, -⟩, horg⟩, hne⟩
    exact ⟨⟨n, ⟨hfind, hactive⟩, horg⟩, (inNsOf_eq_false hfind hactive).mpr hne⟩
  · rintro ⟨⟨n, ⟨hfind, hactive⟩, horg⟩, hnot⟩
    have hne := (inNsOf_eq_false hfind hactive).mp hnot
    exact ⟨n, ⟨⟨⟨hfind, hactive⟩, by simp [State.nsOf, hne]⟩, horg⟩, hne⟩

theorem workspaceLive_withoutOrganization :
    WorkspaceLive (s.withoutOrganization orgId) id ↔
      WorkspaceLive s id ∧ s.inWsOf orgId id = false := by
  simp only [WorkspaceLive, namespaceLive_withoutOrganization]
  simp only [State.withoutOrganization, ← and_assoc, Table.find?_updateWhere_iff Workspace.deleted
    (f := Workspace.softDelete) (fun _ => rfl)]
  constructor
  · rintro ⟨w, ⟨⟨⟨hfind, hactive⟩, -⟩, hns⟩, hnot⟩
    exact ⟨⟨w, ⟨hfind, hactive⟩, hns⟩, (inWsOf_eq_false hfind hactive).mpr hnot⟩
  · rintro ⟨⟨w, ⟨hfind, hactive⟩, hns⟩, hnot⟩
    rw [inWsOf_eq_false hfind hactive] at hnot
    exact ⟨w, ⟨⟨⟨hfind, hactive⟩, by simp [hnot]⟩, hns⟩, hnot⟩

theorem entityHomeLive_withoutOrganization :
    EntityHomeLive (s.withoutOrganization orgId) id ↔ ∃ e, s.entities.find? id = some e ∧
      NamespaceLive s e.namespaceId ∧ s.inNsOf orgId e.namespaceId = false := by
  simp only [EntityHomeLive, namespaceLive_withoutOrganization]
  exact home_softDelete (q := fun id => NamespaceLive s id ∧ s.inNsOf orgId id = false)

end

theorem live_deleteOrganization (hs : AncestorsLive s) (hn : NamespacesLive s) {caller : Caller}
    {orgId : Id} (h : deleteOrganization s caller orgId = some s') :
    NamespacesLive s' ∧ (AncestorsLive s' ↔ NoneAbroad s orgId) := by
  simp only [deleteOrganization] at h
  split at h
  · cases h
  · split at h
    · obtain rfl := Option.some.inj h
      constructor
      · intro n hmem hactive
        obtain ⟨hmem, hnot⟩ := Table.mem_of_not_marked Namespace.deleted Namespace.softDelete_id
          (fun _ => rfl) hmem hactive
        rw [organizationLive_withoutOrganization]
        refine ⟨hn n hmem hactive, ?_⟩
        rintro rfl
        simp [State.nsOf, hactive] at hnot
      constructor
      · intro hs' i hi hactive hws e he
        have hi' : i ∈ (s.withoutOrganization orgId).instances.rows :=
          Table.mem_updateWhere_of_not Instance.softDelete_id hi (by simp [hws])
        obtain ⟨-, hhome⟩ := hs'.instances i hi' hactive
        obtain ⟨e', he', -, hnot⟩ := entityHomeLive_withoutOrganization.mp hhome
        cases he.symm.trans he'
        exact hnot
      · intro hnone
        refine ⟨?_, ?_, ?_, ?_⟩
        · intro w hw hactive
          obtain ⟨hw, hnot⟩ := Table.mem_of_not_marked Workspace.deleted Workspace.softDelete_id
            (fun _ => rfl) hw hactive
          rw [hactive, Bool.not_false, Bool.and_true] at hnot
          exact namespaceLive_withoutOrganization.mpr ⟨hs.workspaces w hw hactive, hnot⟩
        · intro e he hactive
          obtain ⟨he, hnot⟩ := Table.mem_of_not_marked Entity.deleted Entity.softDelete_id
            (fun _ => rfl) he hactive
          rw [hactive, Bool.not_false, Bool.and_true] at hnot
          exact namespaceLive_withoutOrganization.mpr ⟨hs.entities e he hactive, hnot⟩
        · intro i hi hactive
          obtain ⟨hi, hnot⟩ := Table.mem_of_not_marked Instance.deleted Instance.softDelete_id
            (fun _ => rfl) hi hactive
          rw [hactive, Bool.not_false, Bool.and_true] at hnot
          obtain ⟨hws, e, he, hens⟩ := hs.instances i hi hactive
          exact ⟨workspaceLive_withoutOrganization.mpr ⟨hws, hnot⟩,
            entityHomeLive_withoutOrganization.mpr ⟨e, he, hens, hnone i hi hactive hnot e he⟩⟩
        · intro m hm hactive
          obtain ⟨hm, hnot⟩ := Table.mem_of_not_marked Membership.deleted Membership.softDelete_id
            (fun _ => rfl) hm hactive
          rw [hactive, Bool.not_false, Bool.and_true] at hnot
          exact workspaceLive_withoutOrganization.mpr ⟨hs.memberships m hm hactive, hnot⟩
    · cases h

theorem live_deleteWorkspace (hs : AncestorsLive s) {workspaceId : Id}
    (h : deleteWorkspace s workspaceId = some s') : SameTop s s' ∧ AncestorsLive s' := by
  simp only [deleteWorkspace] at h
  split at h
  · cases h
  · obtain rfl := Option.some.inj h
    have hlive : ∀ id, id ≠ workspaceId → WorkspaceLive s id →
        ∃ w, (s.workspaces.update workspaceId Workspace.softDelete
          Workspace.softDelete_id).find? id = some w ∧ w.deleted = false ∧
            NamespaceLive s w.namespaceId := by
      rintro id hne ⟨w, hw, hactive, hns⟩
      have hnot : decide (w.id = workspaceId) = false :=
        decide_eq_false ((Table.find?_key hw).symm ▸ hne)
      obtain ⟨hw', -⟩ := (Table.find?_updateWhere_iff (p := fun w => decide (w.id = workspaceId))
        Workspace.deleted (f := Workspace.softDelete) (fun _ => rfl)).mpr ⟨hw, hactive, hnot⟩
      exact ⟨w, hw', hactive, hns⟩
    refine ⟨⟨rfl, rfl⟩, ?_, hs.entities, ?_, ?_⟩
    · intro w hw hactive
      obtain ⟨hw, -⟩ := Table.mem_of_not_marked Workspace.deleted Workspace.softDelete_id
        (fun _ => rfl) hw hactive
      exact hs.workspaces w hw hactive
    · intro i hi hactive
      obtain ⟨hi, hnot⟩ := Table.mem_of_not_marked Instance.deleted Instance.softDelete_id
        (fun _ => rfl) hi hactive
      rw [hactive, Bool.not_false, Bool.and_true, decide_eq_false_iff_not] at hnot
      obtain ⟨hws, hhome⟩ := hs.instances i hi hactive
      exact ⟨hlive _ hnot hws, hhome⟩
    · intro m hm hactive
      obtain ⟨hm, hnot⟩ := Table.mem_of_not_marked Membership.deleted Membership.softDelete_id
        (fun _ => rfl) hm hactive
      rw [hactive, Bool.not_false, Bool.and_true, decide_eq_false_iff_not] at hnot
      exact hlive _ hnot (hs.memberships m hm hactive)

theorem live_deleteEntity (hs : AncestorsLive s) {caller : Caller} {entityId : Id}
    (h : deleteEntity s caller entityId = some s') : SameTop s s' ∧ AncestorsLive s' := by
  simp only [deleteEntity] at h
  split at h
  · cases h
  · split at h
    · cases h
    · obtain rfl := Option.some.inj h
      refine ⟨⟨rfl, rfl⟩, hs.workspaces, ?_, ?_, hs.memberships⟩
      · intro e he hactive
        obtain ⟨he, -⟩ := Table.mem_of_not_marked Entity.deleted Entity.softDelete_id
          (fun _ => rfl) he hactive
        exact hs.entities e he hactive
      · intro i hi hactive
        obtain ⟨hws, hhome⟩ := hs.instances i hi hactive
        exact ⟨hws, home_softDelete.mpr hhome⟩

theorem live_dropInstance (hs : AncestorsLive s) (instanceId : Id) :
    AncestorsLive (s.dropInstance instanceId) := by
  refine ⟨hs.workspaces, hs.entities, ?_, ?_⟩
  · intro i hi hactive
    obtain ⟨hi, -⟩ := Table.mem_of_not_marked Instance.deleted Instance.leave_id (fun _ => rfl) hi
      hactive
    exact hs.instances i hi hactive
  · intro m hm hactive
    obtain ⟨hm, -⟩ := Table.mem_of_not_marked Membership.deleted Membership.softDelete_id
      (fun _ => rfl) hm hactive
    exact hs.memberships m hm hactive

theorem live_deleteInstance (hs : AncestorsLive s) {caller : Caller} {instanceId : Id}
    (h : deleteInstance s caller instanceId = some s') : SameTop s s' ∧ AncestorsLive s' := by
  simp only [deleteInstance] at h
  split at h
  · cases h
  · split at h
    · split at h
      · obtain rfl := Option.some.inj h
        exact ⟨⟨rfl, rfl⟩, hs⟩
      · obtain rfl := Option.some.inj h
        exact ⟨⟨rfl, rfl⟩, live_dropInstance hs instanceId⟩
    · cases h

theorem live_deleteMembership (hs : AncestorsLive s) {membershipId : Id}
    (h : deleteMembership s membershipId = some s') : SameTop s s' ∧ AncestorsLive s' := by
  have hleft : AncestorsLive { s with
      memberships := s.memberships.update membershipId Membership.softDelete
        Membership.softDelete_id } := by
    refine ⟨hs.workspaces, hs.entities, hs.instances, ?_⟩
    intro m hm hactive
    obtain ⟨hm, -⟩ := Table.mem_of_not_marked Membership.deleted Membership.softDelete_id
      (fun _ => rfl) hm hactive
    exact hs.memberships m hm hactive
  simp only [deleteMembership] at h
  split at h
  · cases h
  · split at h
    · obtain rfl := Option.some.inj h
      exact ⟨⟨rfl, rfl⟩, hleft⟩
    · split at h
      · obtain rfl := Option.some.inj h
        exact ⟨⟨rfl, rfl⟩, live_dropInstance hs _⟩
      · obtain rfl := Option.some.inj h
        exact ⟨⟨rfl, rfl⟩, hleft⟩

/-! Every request, and every run. -/

/-- Nothing is made under what is gone, and nothing goes that something active is left under. -/
def KeepsAncestors (s : State) : Request → Prop
  | .createWorkspace _ _ _ namespaceId _ | .createEntity _ _ namespaceId _ _ =>
    ∀ id, s.resolveNamespaceId namespaceId = some id → NamespaceLive s id
  | .deleteNamespace id => Vacant s id
  | .deleteOrganization _ id => NoneAbroad s id
  | _ => True

theorem live_serve? (hs : AncestorsLive s) (hn : NamespacesLive s) {r : Request}
    (h : s.serve? r = some s') :
    NamespacesLive s' ∧ (AncestorsLive s' ↔ KeepsAncestors s r) := by
  have hsame : SameTop s s' ∧ AncestorsLive s' → NamespacesLive s' ∧ (AncestorsLive s' ↔ True) :=
    fun h => ⟨h.1.namespacesLive.mpr hn, iff_true_intro h.2⟩
  cases r with
  | createOrganization id slug =>
    obtain ⟨hs', hn'⟩ := live_createOrganization hs hn h
    exact ⟨hn', iff_true_intro hs'⟩
  | createNamespace caller id orgId slug =>
    obtain ⟨hs', hn'⟩ := live_createNamespace hs hn h
    exact ⟨hn', iff_true_intro hs'⟩
  | createWorkspace caller ids userId namespaceId slug =>
    exact (live_createWorkspace hs h).imp_left fun h => h.namespacesLive.mpr hn
  | createEntity caller id namespaceId slug isCerebellum =>
    exact (live_createEntity hs h).imp_left fun h => h.namespacesLive.mpr hn
  | createInstance caller ids entityId workspaceId =>
    simp only [State.serve?, createInstance] at h
    split at h
    · exact hsame (live_createIntroducedInstance hs h)
    · cases h
  | introduceEntity caller ids workspaceId entityId =>
    simp only [State.serve?, introduceEntity] at h
    split at h
    · exact hsame (live_createIntroducedInstance hs h)
    · cases h
  | createMembership id workspaceId seat => exact hsame (live_createMembership hs h)
  | deleteOrganization caller id => exact live_deleteOrganization hs hn h
  | deleteNamespace id => exact live_deleteNamespace hs hn h
  | deleteWorkspace id => exact hsame (live_deleteWorkspace hs h)
  | deleteEntity caller id => exact hsame (live_deleteEntity hs h)
  | deleteInstance caller id => exact hsame (live_deleteInstance hs h)
  | deleteMembership id => exact hsame (live_deleteMembership hs h)

theorem live_empty : AncestorsLive .empty ∧ NamespacesLive .empty :=
  ⟨⟨nofun, nofun, nofun, nofun⟩, nofun⟩

/-- Runs stay inside the rule just while every request that goes through keeps it. -/
theorem ancestorsLive_iff (rs : List Request) :
    Run.Always State.serve AncestorsLive .empty rs ↔
      Run.Meets State.serve (fun s r => (s.serve? r).isSome → KeepsAncestors s r) .empty rs := by
  have hstep : ∀ s r, NamespacesLive s → AncestorsLive s → NamespacesLive (s.serve r) ∧
      (AncestorsLive (s.serve r) ↔ ((s.serve? r).isSome → KeepsAncestors s r)) := by
    intro s r hn hs
    unfold State.serve
    cases h : s.serve? r with
    | none => exact ⟨hn, iff_of_true hs nofun⟩
    | some s' =>
      obtain ⟨hn', hiff⟩ := live_serve? hs hn h
      refine ⟨hn', ?_⟩
      rw [Option.getD_some, hiff]
      exact ⟨fun hr _ => hr, fun hr => hr rfl⟩
  apply Run.always_iff_meets_of_keeps (r := NamespacesLive) _ _ live_empty.2 live_empty.1
  · intro s r hn hs hr
    exact ⟨(hstep s r hn hs).1, (hstep s r hn hs).2.mpr hr⟩
  · intro s r hn hs hs'
    exact (hstep s r hn hs).2.mp hs'

/-- A namespace is deleted with an entity in it. -/
theorem not_ancestorsLive_deleteNamespace :
    ¬Run.Always State.serve AncestorsLive .empty
      [.createOrganization "acme" "default".toList,
        .createNamespace ⟨true, false⟩ "main" none "default".toList,
        .createNamespace ⟨true, false⟩ "lab" none "lab".toList,
        .createEntity ⟨true, false⟩ "fox" (some "lab") "fox".toList false,
        .deleteNamespace "lab"] := by
  intro h
  obtain ⟨n, hn, hactive, -⟩ := h.exec.entities ⟨"fox", "lab", "fox".toList, false, false⟩
    (.head _) rfl
  cases hn
  cases hactive

end Eyot.Hierarchy
