import Eyot.Data.Errors
import Eyot.Market.Requests

/-! The rows that carry a scope (capabilities, genes, base classes and knowledge), what the scope
wants of their ids, and the tables they live in. -/

namespace Eyot.Tenancy

open Market (Link Namespace Organization refs)

inductive Scope where
  | system | org | namespaced | workspace
  deriving DecidableEq

structure ScopeIds where
  organizationId : Option Id
  namespaceId : Option Id
  workspaceId : Option Id
  deriving DecidableEq

def ScopeIds.empty : ScopeIds := ⟨none, none, none⟩

/-- The write-time matrix. -/
def Matrix : Scope → ScopeIds → Prop
  | .system, ids => ids.organizationId = none ∧ ids.namespaceId = none ∧ ids.workspaceId = none
  | .org, ids => ids.organizationId.isSome ∧ ids.namespaceId = none ∧ ids.workspaceId = none
  | .namespaced, ids =>
    ids.organizationId.isSome ∧ ids.namespaceId.isSome ∧ ids.workspaceId = none
  | .workspace, ids => ids.organizationId.isSome ∧ ids.namespaceId.isSome ∧ ids.workspaceId.isSome

instance : ∀ scope ids, Decidable (Matrix scope ids)
  | .system, _ => inferInstanceAs (Decidable (_ ∧ _ ∧ _))
  | .org, _ => inferInstanceAs (Decidable (_ ∧ _ ∧ _))
  | .namespaced, _ => inferInstanceAs (Decidable (_ ∧ _ ∧ _))
  | .workspace, _ => inferInstanceAs (Decidable (_ ∧ _ ∧ _))

def scopeFkMismatch (message : String) : EyotError :=
  ValidationError "scope.fk_mismatch" "errors.scope.fk_mismatch" message

def scopeOrganizationRequired (scope : String) : EyotError :=
  ValidationError "scope.organization_required" "errors.scope.organization_required"
    s!"organization_id is required for {scope} scope"

def scopeOrganizationMismatch : EyotError :=
  ValidationError "scope.organization_mismatch" "errors.scope.organization_mismatch"
    "organization_id does not match current organization context"

def scopeNamespaceRequired : EyotError :=
  ValidationError "scope.namespace_required" "errors.scope.namespace_required"
    "namespace_id is required for namespace scope"

def scopeWorkspaceIdsRequired : EyotError :=
  ValidationError "scope.workspace_ids_required" "errors.scope.workspace_ids_required"
    "organization_id, namespace_id and workspace_id are required for workspace scope"

/-- The current organization is set, and another one. -/
def outside (currentOrgId orgId : Option Id) : Bool := currentOrgId.isSome && orgId ≠ currentOrgId

def validateScopeFks (scope : Scope) (ids : ScopeIds) (currentOrgId : Option Id) :
    Except EyotError ScopeIds :=
  -- The current organization stands in at the two middle scopes only.
  let orgId := if scope = .org ∨ scope = .namespaced then ids.organizationId.or currentOrgId
    else ids.organizationId
  match scope with
  | .system =>
    if orgId.isSome ∨ ids.namespaceId.isSome ∨ ids.workspaceId.isSome then
      .error (scopeFkMismatch
        "system scope requires organization_id, namespace_id and workspace_id to be null")
    else .ok .empty
  | .org =>
    if orgId.isNone then .error (scopeOrganizationRequired "org")
    else if ids.namespaceId.isSome ∨ ids.workspaceId.isSome then
      .error (scopeFkMismatch "org scope requires namespace_id and workspace_id to be null")
    else if outside currentOrgId orgId then .error scopeOrganizationMismatch
    else .ok ⟨orgId, none, none⟩
  | .workspace =>
    if orgId.isNone ∨ ids.namespaceId.isNone ∨ ids.workspaceId.isNone then
      .error scopeWorkspaceIdsRequired
    else if outside currentOrgId orgId then .error scopeOrganizationMismatch
    else .ok ⟨orgId, ids.namespaceId, ids.workspaceId⟩
  | .namespaced =>
    if orgId.isNone then .error (scopeOrganizationRequired "namespace")
    else if ids.namespaceId.isNone then .error scopeNamespaceRequired
    else if ids.workspaceId.isSome then
      .error (scopeFkMismatch "namespace scope requires workspace_id to be null")
    else if outside currentOrgId orgId then .error scopeOrganizationMismatch
    else .ok ⟨orgId, ids.namespaceId, none⟩

/-- What the validator lets through fills the matrix. -/
theorem matrix_of_validateScopeFks {scope : Scope} {ids ids' : ScopeIds} {currentOrgId : Option Id}
    (h : validateScopeFks scope ids currentOrgId = .ok ids') : Matrix scope ids' := by
  cases scope with
  | system =>
    obtain ⟨_, h⟩ := guard_eq_ok.mp h
    cases h
    exact ⟨rfl, rfl, rfl⟩
  | org =>
    obtain ⟨horg, h⟩ := guard_eq_ok.mp h
    obtain ⟨_, h⟩ := guard_eq_ok.mp h
    obtain ⟨_, h⟩ := guard_eq_ok.mp h
    cases h
    exact ⟨Option.isNone_eq_false_iff.mp (eq_false_of_ne_true horg), rfl, rfl⟩
  | namespaced =>
    obtain ⟨horg, h⟩ := guard_eq_ok.mp h
    obtain ⟨hns, h⟩ := guard_eq_ok.mp h
    obtain ⟨_, h⟩ := guard_eq_ok.mp h
    obtain ⟨_, h⟩ := guard_eq_ok.mp h
    cases h
    exact ⟨Option.isNone_eq_false_iff.mp (eq_false_of_ne_true horg),
      Option.isNone_eq_false_iff.mp (eq_false_of_ne_true hns), rfl⟩
  | workspace =>
    obtain ⟨hids, h⟩ := guard_eq_ok.mp h
    obtain ⟨_, h⟩ := guard_eq_ok.mp h
    cases h
    simpa [Matrix, Option.isSome_iff_ne_none] using hids

/-! The tables. -/

inductive Kind where
  | capability | gene | baseClass | knowledgeEntry | knowledgeDimension
  deriving DecidableEq

/-- A row with a scope. `name` is what identifies it to users: the name of a capability, the slug
of a gene, a base class or a dimension, the key of an entry. `inlined` are the names of the
capabilities in the manifest of a gene. -/
structure ScopedRow where
  id : Id
  name : Str
  inlined : List Str
  scope : Scope
  ids : ScopeIds
  deleted : Bool

/-- A system row belongs to nobody. -/
def ScopedRow.owner (r : ScopedRow) : Option Id :=
  if r.scope = .system then none else r.ids.organizationId

structure Entity where
  id : Id
  namespaceId : Id
  slug : Str
  presetSlug : Option Str
  deleted : Bool

/-- `reported` are the capabilities that a distillation of an entity answered with. -/
structure State where
  organizations : Table Organization.id
  namespaces : Table Namespace.id
  resources : Kind → Table ScopedRow.id
  entities : Table Entity.id
  entityCapabilities : List Link
  entityAiGenes : List Link
  baseClassCapabilities : List Link
  baseClassAiGenes : List Link
  reported : List (Id × Id)

def State.empty : State where
  organizations := .empty
  namespaces := .empty
  resources _ := .empty
  entities := .empty
  entityCapabilities := []
  entityAiGenes := []
  baseClassCapabilities := []
  baseClassAiGenes := []
  reported := []

/-- Knowledge keeps its names apart by scope and owner, the others share one space of names. -/
def Kind.perOwner : Kind → Bool
  | capability | gene | baseClass => false
  | knowledgeEntry | knowledgeDimension => true

/-- An active row that leaves no room for `new` in the unique index. -/
def clashes (kind : Kind) (new r : ScopedRow) : Bool :=
  !r.deleted && decide (r.name = new.name) &&
    (!kind.perOwner || decide (r.scope = new.scope ∧ r.ids = new.ids))

namespace State

variable (s : State)

def active? (kind : Kind) (id : Id) : Option ScopedRow :=
  ((s.resources kind).find? id).filter fun r => !r.deleted

def named? (kind : Kind) (name : Str) : Option ScopedRow :=
  (s.resources kind).rows.find? fun r => decide (r.name = name) && !r.deleted

def activeEntity? (id : Id) : Option Entity := (s.entities.find? id).filter fun e => !e.deleted

/-- The organization of a namespace. -/
def orgOf (namespaceId : Id) : Option Id := (s.namespaces.find? namespaceId).map Namespace.orgId

def entityOrg (entityId : Id) : Option Id :=
  (s.entities.find? entityId).bind fun e => s.orgOf e.namespaceId

def classOrg (baseClassId : Id) : Option Id :=
  ((s.resources .baseClass).find? baseClassId).bind ScopedRow.owner

def setRows (kind : Kind) (rows : Table ScopedRow.id) : State :=
  { s with resources := Function.update s.resources kind rows }

def insertRow (kind : Kind) (row : ScopedRow) : Option State :=
  if (s.resources kind).rows.any (clashes kind row) then none
  else ((s.resources kind).insert? row).map (s.setRows kind)

def explicitGenes (e : Entity) : List ScopedRow :=
  (refs s.entityAiGenes e.id).filterMap (s.active? .gene)

def inheritedGenes (e : Entity) : List ScopedRow :=
  match (Market.truthy e.presetSlug).bind (s.named? .baseClass) with
  | some b => (refs s.baseClassAiGenes b.id).filterMap (s.active? .gene)
  | none => []

/-- `load_entity_capability_dicts`, of which the names are kept. -/
def capabilityNames (e : Entity) : List Str :=
  let attached := (refs s.entityCapabilities e.id).filterMap (s.active? .capability)
  let genes := (s.inheritedGenes e).foldl (fun d g => Market.setDefault d g.name g.inlined)
    ((s.explicitGenes e).foldl (fun d g => Market.setItem d g.name g.inlined) [])
  let inlined := (genes.flatMap Prod.snd).filter fun name => name ≠ []
  sortBy id (attached.map ScopedRow.name ++ inlined).dedup

/-- The slugs of `load_entity_ai_gene_dicts`. -/
def geneRefs (e : Entity) : List Str :=
  (s.explicitGenes e ++ s.inheritedGenes e).map ScopedRow.name

theorem insertRow_eq_some {s s' : State} {kind : Kind} {row : ScopedRow}
    (h : s.insertRow kind row = some s') :
    ∃ rows, (s.resources kind).insert? row = some rows ∧ s' = s.setRows kind rows := by
  rw [insertRow] at h
  split at h
  · cases h
  · obtain ⟨rows, hrows, rfl⟩ := Option.map_eq_some_iff.mp h
    exact ⟨rows, hrows, rfl⟩

@[simp] theorem setRows_resources (kind : Kind) (rows : Table ScopedRow.id) :
    (s.setRows kind rows).resources = Function.update s.resources kind rows := rfl

end State

end Eyot.Tenancy
