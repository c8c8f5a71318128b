import Eyot.Tenancy.Rows

/-! The requests that write rows with a scope, and links to them.  A request that the permission
checks or the foreign keys turn down, or that asks for a preview, is not made here. -/

namespace Eyot.Tenancy

open Market (Link Namespace Organization CloneNames refs attach attachAll cloneJunction detach)

/-! Rows with a scope, by hand. -/

def ScopedRow.patch (name : Option Str) (inlined : Option (List Str)) (r : ScopedRow) : ScopedRow :=
  { r with name := name.getD r.name, inlined := inlined.getD r.inlined }

theorem ScopedRow.patch_id (name : Option Str) (inlined : Option (List Str)) :
    ∀ r : ScopedRow, (r.patch name inlined).id = r.id := fun _ => rfl

def ScopedRow.softDelete (r : ScopedRow) : ScopedRow := { r with deleted := true }

theorem ScopedRow.softDelete_id : ∀ r : ScopedRow, r.softDelete.id = r.id := fun _ => rfl

section

variable (s : State)

/-- System rows are preset-only. -/
def createRow (kind : Kind) (id : Id) (name : Str) (inlined : List Str) (scope : Scope)
    (ids : ScopeIds) (currentOrgId : Option Id) : Option State :=
  if scope = .system then none
  else
    match validateScopeFks scope ids currentOrgId with
    | .error _ => none
    | .ok ids => s.insertRow kind ⟨id, name, inlined, scope, ids, false⟩

def createMarketEntry (id : Id) (name : Str) (scope : Scope)
    (organizationId namespaceId currentOrgId : Option Id) : Option State :=
  createRow s .capability id name [] scope ⟨organizationId, namespaceId, none⟩ currentOrgId

def createAiGene (id : Id) (slug : Str) (inlined : List Str) (scope : Scope)
    (organizationId namespaceId currentOrgId : Option Id) : Option State :=
  createRow s .gene id slug inlined scope ⟨organizationId, namespaceId, none⟩ currentOrgId

def createBaseClass (id : Id) (slug : Str) (scope : Scope)
    (organizationId namespaceId currentOrgId : Option Id) : Option State :=
  createRow s .baseClass id slug [] scope ⟨organizationId, namespaceId, none⟩ currentOrgId

/-- The one create that has no organization to fall back on. -/
def createKnowledgeEntry (id : Id) (key : Str) (scope : Scope) (ids : ScopeIds) : Option State :=
  createRow s .knowledgeEntry id key [] scope ids none

def createKnowledgeDimension (id : Id) (slug : Str) (scope : Scope) (ids : ScopeIds)
    (currentOrgId : Option Id) : Option State :=
  createRow s .knowledgeDimension id slug [] scope ids currentOrgId

/-- Of the columns that can be patched, those that are read elsewhere. Scope and ids are no such
columns. -/
def patchRow (kind : Kind) (id : Id) (name : Option Str) (inlined : Option (List Str)) :
    Option State :=
  match s.active? kind id with
  | none => none
  | some row =>
    if row.scope = .system ∨
        (s.resources kind).rows.any (fun r =>
          decide (r.id ≠ id) && clashes kind (row.patch name inlined) r) then none
    else some (s.setRows kind ((s.resources kind).update id (ScopedRow.patch name inlined)
      (ScopedRow.patch_id name inlined)))

def updateMarketEntry (id : Id) (name : Option Str) : Option State :=
  patchRow s .capability id name none

def updateAiGene (id : Id) (inlined : Option (List Str)) : Option State :=
  patchRow s .gene id none inlined

/-- A slug that an entity refers to, deleted or not, is locked. -/
def updateBaseClass (id : Id) (slug : Option Str) : Option State :=
  if (s.active? .baseClass id).any (fun b => slug.any (fun slug => slug ≠ b.name) &&
      s.entities.rows.any fun e => e.presetSlug = some b.name) then none
  else patchRow s .baseClass id slug none

def updateKnowledgeEntry (id : Id) (key : Option Str) : Option State :=
  patchRow s .knowledgeEntry id key none

def updateKnowledgeDimension (id : Id) (slug : Option Str) : Option State :=
  patchRow s .knowledgeDimension id slug none

def deleteRow (kind : Kind) (id : Id) : Option State :=
  match s.active? kind id with
  | none => none
  | some row =>
    if row.scope = .system then none
    else some (s.setRows kind ((s.resources kind).update id ScopedRow.softDelete
      ScopedRow.softDelete_id))

/-! Organizations, namespaces and entities. -/

def createOrganization (id : Id) (slug : Str) : Option State :=
  if s.organizations.rows.any fun o => !o.deleted && decide (o.slug = slug) then none
  else (s.organizations.insert? ⟨id, slug, false⟩).map fun organizations =>
    { s with organizations := organizations }

def createNamespace (id orgId : Id) : Option State :=
  (s.namespaces.insert? ⟨id, orgId, false⟩).map fun namespaces => { s with namespaces := namespaces }

def slugTaken (namespaceId : Id) (slug : Str) : Bool :=
  s.entities.rows.any fun e =>
    !e.deleted && decide (e.namespaceId = namespaceId) && decide (e.slug = slug)

def insertEntity (e : Entity) : Option State :=
  if slugTaken s e.namespaceId e.slug then none
  else (s.entities.insert? e).map fun entities => { s with entities := entities }

def createEntity (id namespaceId : Id) (slug : Str) (presetSlug : Option Str) : Option State :=
  insertEntity s ⟨id, namespaceId, slug, presetSlug, false⟩

end

def Entity.patch (slug : Option Str) (presetSlug : Option (Option Str)) (e : Entity) : Entity :=
  { e with slug := slug.getD e.slug, presetSlug := presetSlug.getD e.presetSlug }

theorem Entity.patch_id (slug : Option Str) (presetSlug : Option (Option Str)) :
    ∀ e : Entity, (e.patch slug presetSlug).id = e.id := fun _ => rfl

def Entity.softDelete (e : Entity) : Entity := { e with deleted := true }

theorem Entity.softDelete_id : ∀ e : Entity, e.softDelete.id = e.id := fun _ => rfl

def softDeleteNamespace (n : Namespace) : Namespace := { n with deleted := true }

theorem softDeleteNamespace_id : ∀ n, (softDeleteNamespace n).id = n.id := fun _ => rfl

def softDeleteOrganization (o : Organization) : Organization := { o with deleted := true }

theorem softDeleteOrganization_id : ∀ o, (softDeleteOrganization o).id = o.id := fun _ => rfl

def softDeleteLinks (parents : List Id) (links : List Link) : List Link :=
  links.map fun l => if parents.contains l.parentId then { l with deleted := true } else l

section

variable (s : State)

def updateEntity (id : Id) (slug : Option Str) (presetSlug : Option (Option Str)) : Option State :=
  match s.activeEntity? id with
  | none => none
  | some e =>
    if slug.any fun slug => slug ≠ e.slug && slugTaken s e.namespaceId slug then none
    else some { s with
      entities := s.entities.update id (Entity.patch slug presetSlug)
        (Entity.patch_id slug presetSlug) }

def deleteEntity (id : Id) : Option State :=
  (s.activeEntity? id).map fun _ =>
    { s with entities := s.entities.update id Entity.softDelete Entity.softDelete_id }

def deleteNamespace (id : Id) : Option State :=
  ((s.namespaces.find? id).filter fun n => !n.deleted).map fun _ =>
    { s with
      namespaces := s.namespaces.update id softDeleteNamespace softDeleteNamespace_id }

/-- The active namespaces of an organization. -/
def sourceNamespaces (orgId : Id) : List Namespace :=
  s.namespaces.rows.filter fun n => !n.deleted && decide (n.orgId = orgId)

def sourceEntities (orgId : Id) : List Entity :=
  s.entities.rows.filter fun e =>
    !e.deleted && ((sourceNamespaces s orgId).map Namespace.id).contains e.namespaceId

/-- Takes along the namespaces, their entities and what is attached to these, and the knowledge
of the organization; its capabilities, genes and base classes stay. -/
def deleteOrganization (orgId : Id) : Option State :=
  ((s.organizations.find? orgId).filter fun o => !o.deleted).map fun _ =>
    let namespaceIds := (sourceNamespaces s orgId).map Namespace.id
    let entityIds := (sourceEntities s orgId).map Entity.id
    { s with
      organizations := s.organizations.update orgId softDeleteOrganization
        softDeleteOrganization_id
      namespaces := s.namespaces.updateWhere (fun n => namespaceIds.contains n.id)
        softDeleteNamespace softDeleteNamespace_id
      entities := s.entities.updateWhere (fun e => entityIds.contains e.id) Entity.softDelete
        Entity.softDelete_id
      entityCapabilities := softDeleteLinks entityIds s.entityCapabilities
      entityAiGenes := softDeleteLinks entityIds s.entityAiGenes
      resources := fun kind => (s.resources kind).updateWhere
        (fun r => kind.perOwner && decide (r.ids.organizationId = some orgId))
        ScopedRow.softDelete ScopedRow.softDelete_id }

/-! Links. -/

/-- None of the attaching routes compares the organizations of the two ends. -/
def attachEntityCapability (id capabilityId : Id) : Option State :=
  match s.activeEntity? id, s.active? .capability capabilityId with
  | some _, some _ =>
    some { s with entityCapabilities := attach s.entityCapabilities id capabilityId }
  | _, _ => none

def detachEntityCapability (id capabilityId : Id) : Option State :=
  match s.activeEntity? id with
  | some _ =>
    (detach s.entityCapabilities id capabilityId).map fun links =>
      { s with entityCapabilities := links }
  | none => none

def attachEntityAiGene (id geneId : Id) : Option State :=
  match s.activeEntity? id, s.active? .gene geneId with
  | some _, some _ => some { s with entityAiGenes := attach s.entityAiGenes id geneId }
  | _, _ => none

def detachEntityAiGene (id geneId : Id) : Option State :=
  match s.activeEntity? id with
  | some _ => (detach s.entityAiGenes id geneId).map fun links => { s with entityAiGenes := links }
  | none => none

def attachBaseClassCapability (id capabilityId : Id) : Option State :=
  match s.active? .baseClass id, s.active? .capability capabilityId with
  | some _, some _ =>
    some { s with baseClassCapabilities := attach s.baseClassCapabilities id capabilityId }
  | _, _ => none

def detachBaseClassCapability (id capabilityId : Id) : Option State :=
  match s.active? .baseClass id with
  | some _ =>
    (detach s.baseClassCapabilities id capabilityId).map fun links =>
      { s with baseClassCapabilities := links }
  | none => none

def attachBaseClassAiGene (id geneId : Id) : Option State :=
  match s.active? .baseClass id, s.active? .gene geneId with
  | some _, some _ => some { s with baseClassAiGenes := attach s.baseClassAiGenes id geneId }
  | _, _ => none

def detachBaseClassAiGene (id geneId : Id) : Option State :=
  match s.active? .baseClass id with
  | some _ =>
    (detach s.baseClassAiGenes id geneId).map fun links => { s with baseClassAiGenes := links }
  | none => none

/-! Learning. -/

/-- `"org" if org_id else "system"` -/
def learnedScope (org : Option Id) : Scope := if org.isSome then .org else .system

/-- The row that a learning operation makes for an entity of organization `org`. -/
def learnedRow (id : Id) (name : Str) (org : Option Id) : ScopedRow :=
  ⟨id, name, [], learnedScope org, ⟨org, none, none⟩, false⟩

/-- The active capability of that name, whose ever it is; else a new one. -/
def upsertCapability (newId : Id) (name : Str) (org : Option Id) : Option (State × Id) :=
  match s.named? .capability name with
  | some cap => some (s, cap.id)
  | none => (s.insertRow .capability (learnedRow newId name org)).map (·, newId)

end

/-- The capabilities of the given names, and the state that has them all. -/
def upsertAll (org : Option Id) : State → List (Str × Id) → Option (State × List Id)
  | s, [] => some (s, [])
  | s, (name, newId) :: names =>
    match upsertCapability s newId name org with
    | none => none
    | some (s, cap) => (upsertAll org s names).map fun r => (r.1, cap :: r.2)

def withIds (names : List Str) (newIds : Nat → Id) : List (Str × Id) :=
  names.zipIdx.map fun n => (n.1, newIds n.2)

theorem forall_withIds (names : List Str) (newIds : Nat → Id) (p : Str → Prop) :
    (∀ n ∈ withIds names newIds, p n.1) ↔ ∀ name ∈ names, p name := by
  simp only [withIds, List.forall_mem_map]
  constructor
  · intro hall name hname
    obtain ⟨i, hi, rfl⟩ := List.getElem_of_mem hname
    exact hall (names[i], i) (List.mk_mem_zipIdx_iff_getElem?.mpr (List.getElem?_eq_getElem hi))
  · rintro hall ⟨name, i⟩ hname
    exact hall name (List.mem_of_getElem? (List.mk_mem_zipIdx_iff_getElem?.mp hname))

/-- Uploads what is not in the market; such a row is left with the default scope and no ids. -/
def uploadNew : State → List (Str × Id) → Option State
  | s, [] => some s
  | s, (name, newId) :: names =>
    match s.named? .capability name with
    | some _ => uploadNew s names
    | none =>
      match s.insertRow .capability ⟨newId, name, [], .org, .empty, false⟩ with
      | none => none
      | some s => uploadNew s names

/-- The names that are new to `seen`, each once. -/
def newNames (seen : List Str) : List Str → List Str
  | [] => []
  | name :: names =>
    if name.isEmpty || seen.contains name then newNames seen names
    else name :: newNames (name :: seen) names

section

variable (s : State)

/-- `reap_instance`, with the names that the memories of the instance come to. -/
def reapInstance (names : List Str) (newIds : Nat → Id) : Option State :=
  uploadNew s (withIds names newIds)

/-- `distill_entity`, with the candidates that an engine has found. -/
def distillEntity (id : Id) (names : List Str) (newIds : Nat → Id) : Option State :=
  match s.activeEntity? id with
  | none => none
  | some e =>
    (upsertAll (s.orgOf e.namespaceId) s (withIds names newIds)).map fun (s, caps) =>
      { s with reported := s.reported ++ caps.map fun cap => (id, cap) }

/-- The target of a directive is any active entity of that slug; `scan` says which comes first. -/
def targetEntity (targetSlug : Str) (scan : Nat) : Option Entity :=
  let targets := s.entities.rows.filter fun e => decide (e.slug = targetSlug) && !e.deleted
  targets[scan % targets.length]?

/-- `_route_learning_directive` -/
def routeLearningDirective (targetSlug : Str) (scan : Nat) (names : List Str)
    (newIds : Nat → Id) : Option State :=
  match targetEntity s targetSlug scan with
  | none => none
  | some e => distillEntity s e.id names newIds

/-- `promote_entity` in mode `update`. -/
def promoteEntity (id : Id) (reaped : List Str) (newIds : Nat → Id) : Option State :=
  match s.activeEntity? id with
  | none => none
  | some e =>
    let new := newNames (s.capabilityNames e) reaped
    (upsertAll (s.orgOf e.namespaceId) s (withIds new newIds)).map fun (s, caps) =>
      { s with entityCapabilities := attachAll s.entityCapabilities id caps }

/-- `promote_entity` in mode `fork`. -/
def forkEntity (id newId : Id) (newSlug : Str) (reaped : List Str) (newIds : Nat → Id) :
    Option State :=
  match s.activeEntity? id with
  | none => none
  | some e =>
    if newSlug = [] then none
    else
      let existing := s.capabilityNames e
      let merged := existing ++ newNames existing reaped
      match insertEntity s ⟨newId, e.namespaceId, newSlug, e.presetSlug, false⟩ with
      | none => none
      | some s =>
        (upsertAll (s.orgOf e.namespaceId) s
            (withIds (merged.filter fun name => name ≠ []) newIds)).map fun (s, caps) =>
          { s with entityCapabilities := attachAll s.entityCapabilities newId caps }

def transmuteEntity (id newId : Id) (slug : Str) (newIds : Nat → Id) : Option State :=
  match s.activeEntity? id with
  | none => none
  | some e =>
    let names := (s.capabilityNames e).filter fun name => name ≠ []
    let geneRefs := s.geneRefs e
    let org := s.orgOf e.namespaceId
    match s.insertRow .baseClass (learnedRow newId slug org) with
    | none => none
    | some s =>
      (upsertAll org s (withIds names newIds)).map fun (s, caps) =>
        let genes := (s.resources .gene).rows.filter fun g =>
          !g.deleted && geneRefs.contains g.name
        { s with
          baseClassCapabilities := attachAll s.baseClassCapabilities newId caps
          baseClassAiGenes := attachAll s.baseClassAiGenes newId (genes.map ScopedRow.id) }

/-- `combine_capabilities`: a gene of the named capabilities, bound to what the request names. -/
def combineCapabilities (newId : Id) (names : List Str) (geneSlug : Str)
    (entityId baseClassId : Option Id) : Option State :=
  if names = [] ∨ names.any (fun name => (s.named? .capability name).isNone) ∨
      entityId.any (fun id => (s.activeEntity? id).isNone) ∨
      baseClassId.any (fun id => (s.active? .baseClass id).isNone) then none
  else
    (s.insertRow .gene ⟨newId, geneSlug, names, .org, .empty, false⟩).map fun s =>
      { s with
        entityAiGenes := match entityId with
          | some id => attach s.entityAiGenes id newId
          | none => s.entityAiGenes
        baseClassAiGenes := match baseClassId with
          | some id => attach s.baseClassAiGenes id newId
          | none => s.baseClassAiGenes }

/-! Clones. -/

def copyClass (source : Id) (copy : ScopedRow) : Option State :=
  (s.insertRow .baseClass copy).map fun s =>
    { s with
      baseClassAiGenes := cloneJunction s.baseClassAiGenes source copy.id
      baseClassCapabilities := cloneJunction s.baseClassCapabilities source copy.id }

/-- A copy of a system preset is the target organization's own; the route refuses it without a
target. -/
def cloneBaseClass (source newId : Id) (newSlug : Str) (targetOrgId : Option Id) : Option State :=
  match s.active? .baseClass source with
  | none => none
  | some b =>
    match b.scope, targetOrgId with
    | .system, none => none
    | .system, some org =>
      copyClass s source
        { b with id := newId, name := newSlug, scope := .org, ids := ⟨some org, none, none⟩ }
    | _, _ => copyClass s source { b with id := newId, name := newSlug }

def copyEntity (source : Id) (copy : Entity) : Option State :=
  (insertEntity s copy).map fun s =>
    { s with
      entityAiGenes := cloneJunction s.entityAiGenes source copy.id
      entityCapabilities := cloneJunction s.entityCapabilities source copy.id }

def cloneEntity (source newId : Id) (newSlug : Str) : Option State :=
  match s.activeEntity? source with
  | none => none
  | some e => copyEntity s source { e with id := newId, slug := newSlug }

end

def copyEntities (names : CloneNames) : State → List Entity → Option State
  | s, [] => some s
  | s, e :: es =>
    match copyEntity s e.id
        { e with id := names.entityId e.id, namespaceId := names.namespaceId e.namespaceId } with
    | some s => copyEntities names s es
    | none => none

/-- The copy of a class of the organization: a namespace that is not copied along is dropped. -/
def classCopy (names : CloneNames) (namespaceIds : List Id) (newOrgId : Id) (b : ScopedRow) :
    ScopedRow :=
  { b with
    id := names.baseClassId b.id
    name := names.baseClassSlug b.id
    ids :=
      { b.ids with
        organizationId := some newOrgId
        namespaceId := (b.ids.namespaceId.filter fun id => namespaceIds.contains id).map
          names.namespaceId } }

def copyClasses (names : CloneNames) (namespaceIds : List Id) (newOrgId : Id) :
    State → List ScopedRow → Option State
  | s, [] => some s
  | s, b :: bs =>
    match copyClass s b.id (classCopy names namespaceIds newOrgId b) with
    | some s => copyClasses names namespaceIds newOrgId s bs
    | none => none

section

variable (s : State)

def sourceClasses (orgId : Id) : List ScopedRow :=
  (s.resources .baseClass).rows.filter fun b =>
    !b.deleted && decide (b.scope ≠ .system ∧ b.ids.organizationId = some orgId)

def cloneOrganization (orgId newOrgId : Id) (newSlug : Str) (names : CloneNames) : Option State :=
  match (s.organizations.find? orgId).filter fun o => !o.deleted with
  | none => none
  | some _ => do
    let copied ← createOrganization s newOrgId newSlug
    let namespaces ← Market.copyNamespaces names newOrgId copied.namespaces
      (sourceNamespaces s orgId)
    let copied ← copyEntities names { copied with namespaces := namespaces }
      (sourceEntities s orgId)
    copyClasses names ((sourceNamespaces s orgId).map Namespace.id) newOrgId copied
      (sourceClasses s orgId)

/-! Seeds. -/

/-- A slug of the time before is renamed, in the class and in the entities that refer to it. -/
def ensureBuiltinBaseClass (newId : Id) (slug : Str) (legacy : Option Str) : Option State :=
  match s.named? .baseClass slug, legacy.bind (s.named? .baseClass) with
  | some _, _ => some s
  | none, some b =>
    some
      { s.setRows .baseClass ((s.resources .baseClass).update b.id (ScopedRow.patch (some slug) none)
          (ScopedRow.patch_id (some slug) none)) with
        entities := s.entities.updateWhere (fun e => !e.deleted && decide (e.presetSlug = legacy))
          (Entity.patch none (some (some slug))) (Entity.patch_id none (some (some slug))) }
  | none, none => s.insertRow .baseClass (learnedRow newId slug none)

/-- A `cmd-` capability for the base classes of the given slugs. -/
def ensureCommandCapability (newId : Id) (name : Str) (slugs : List Str) : Option State :=
  (upsertCapability s newId name none).map fun (s, cap) =>
    { s with
      baseClassCapabilities := (slugs.filterMap (s.named? .baseClass)).foldl
        (fun links b => attach links b.id cap) s.baseClassCapabilities }

def ensureKnowledgeSeed (newId : Id) (key : Str) : Option State :=
  if (s.resources .knowledgeEntry).rows.any fun r =>
      !r.deleted && decide (r.name = key) && decide (r.scope = .system) then some s
  else s.insertRow .knowledgeEntry (learnedRow newId key none)

end

/-! One request after the other. -/

inductive Request where
  | createOrganization (id : Id) (slug : Str)
  | createNamespace (id orgId : Id)
  | createEntity (id namespaceId : Id) (slug : Str) (presetSlug : Option Str)
  | updateEntity (id : Id) (slug : Option Str) (presetSlug : Option (Option Str))
  | deleteEntity (id : Id)
  | deleteNamespace (id : Id)
  | deleteOrganization (id : Id)
  | createMarketEntry (id : Id) (name : Str) (scope : Scope)
      (organizationId namespaceId currentOrgId : Option Id)
  | createAiGene (id : Id) (slug : Str) (inlined : List Str) (scope : Scope)
      (organizationId namespaceId currentOrgId : Option Id)
  | createBaseClass (id : Id) (slug : Str) (scope : Scope)
      (organizationId namespaceId currentOrgId : Option Id)
  | createKnowledgeEntry (id : Id) (key : Str) (scope : Scope) (ids : ScopeIds)
  | createKnowledgeDimension (id : Id) (slug : Str) (scope : Scope) (ids : ScopeIds)
      (currentOrgId : Option Id)
  | updateMarketEntry (id : Id) (name : Option Str)
  | updateAiGene (id : Id) (inlined : Option (List Str))
  | updateBaseClass (id : Id) (slug : Option Str)
  | updateKnowledgeEntry (id : Id) (key : Option Str)
  | updateKnowledgeDimension (id : Id) (slug : Option Str)
  | deleteRow (kind : Kind) (id : Id)
  | attachEntityCapability (id capabilityId : Id)
  | detachEntityCapability (id capabilityId : Id)
  | attachEntityAiGene (id geneId : Id)
  | detachEntityAiGene (id geneId : Id)
  | attachBaseClassCapability (id capabilityId : Id)
  | detachBaseClassCapability (id capabilityId : Id)
  | attachBaseClassAiGene (id geneId : Id)
  | detachBaseClassAiGene (id geneId : Id)
  | reap (names : List Str) (newIds : Nat → Id)
  | distill (id : Id) (names : List Str) (newIds : Nat → Id)
  | learn (targetSlug : Str) (scan : Nat) (names : List Str) (newIds : Nat → Id)
  | promote (id : Id) (reaped : List Str) (newIds : Nat → Id)
  | fork (id newId : Id) (newSlug : Str) (reaped : List Str) (newIds : Nat → Id)
  | transmute (id newId : Id) (slug : Str) (newIds : Nat → Id)
  | combine (newId : Id) (names : List Str) (geneSlug : Str) (entityId baseClassId : Option Id)
  | cloneBaseClass (source newId : Id) (newSlug : Str) (targetOrgId : Option Id)
  | cloneEntity (source newId : Id) (newSlug : Str)
  | cloneOrganization (orgId newOrgId : Id) (newSlug : Str) (names : CloneNames)
  | ensureBuiltinBaseClass (newId : Id) (slug : Str) (legacy : Option Str)
  | ensureCommandCapability (newId : Id) (name : Str) (slugs : List Str)
  | ensureKnowledgeSeed (newId : Id) (key : Str)

/-- `none` where the request is refused. -/
def step? (s : State) : Request → Option State
  | .createOrganization id slug => createOrganization s id slug
  | .createNamespace id orgId => createNamespace s id orgId
  | .createEntity id namespaceId slug presetSlug => createEntity s id namespaceId slug presetSlug
  | .updateEntity id slug presetSlug => updateEntity s id slug presetSlug
  | .deleteEntity id => deleteEntity s id
  | .deleteNamespace id => deleteNamespace s id
  | .deleteOrganization id => deleteOrganization s id
  | .createMarketEntry id name scope organizationId namespaceId currentOrgId =>
    createMarketEntry s id name scope organizationId namespaceId currentOrgId
  | .createAiGene id slug inlined scope organizationId namespaceId currentOrgId =>
    createAiGene s id slug inlined scope organizationId namespaceId currentOrgId
  | .createBaseClass id slug scope organizationId namespaceId currentOrgId =>
    createBaseClass s id slug scope organizationId namespaceId currentOrgId
  | .createKnowledgeEntry id key scope ids => createKnowledgeEntry s id key scope ids
  | .createKnowledgeDimension id slug scope ids currentOrgId =>
    createKnowledgeDimension s id slug scope ids currentOrgId
  | .updateMarketEntry id name => updateMarketEntry s id name
  | .updateAiGene id inlined => updateAiGene s id inlined
  | .updateBaseClass id slug => updateBaseClass s id slug
  | .updateKnowledgeEntry id key => updateKnowledgeEntry s id key
  | .updateKnowledgeDimension id slug => updateKnowledgeDimension s id slug
  | .deleteRow kind id => deleteRow s kind id
  | .attachEntityCapability id capabilityId => attachEntityCapability s id capabilityId
  | .detachEntityCapability id capabilityId => detachEntityCapability s id capabilityId
  | .attachEntityAiGene id geneId => attachEntityAiGene s id geneId
  | .detachEntityAiGene id geneId => detachEntityAiGene s id geneId
  | .attachBaseClassCapability id capabilityId => attachBaseClassCapability s id capabilityId
  | .detachBaseClassCapability id capabilityId => detachBaseClassCapability s id capabilityId
  | .attachBaseClassAiGene id geneId => attachBaseClassAiGene s id geneId
  | .detachBaseClassAiGene id geneId => detachBaseClassAiGene s id geneId
  | .reap names newIds => reapInstance s names newIds
  | .distill id names newIds => distillEntity s id names newIds
  | .learn targetSlug scan names newIds => routeLearningDirective s targetSlug scan names newIds
  | .promote id reaped newIds => promoteEntity s id reaped newIds
  | .fork id newId newSlug reaped newIds => forkEntity s id newId newSlug reaped newIds
  | .transmute id newId slug newIds => transmuteEntity s id newId slug newIds
  | .combine newId names geneSlug entityId baseClassId =>
    combineCapabilities s newId names geneSlug entityId baseClassId
  | .cloneBaseClass source newId newSlug targetOrgId =>
    cloneBaseClass s source newId newSlug targetOrgId
  | .cloneEntity source newId newSlug => cloneEntity s source newId newSlug
  | .cloneOrganization orgId newOrgId newSlug names =>
    cloneOrganization s orgId newOrgId newSlug names
  | .ensureBuiltinBaseClass newId slug legacy => ensureBuiltinBaseClass s newId slug legacy
  | .ensureCommandCapability newId name slugs => ensureCommandCapability s newId name slugs
  | .ensureKnowledgeSeed newId key => ensureKnowledgeSeed s newId key

def step (s : State) (r : Request) : State := (step? s r).getD s

end Eyot.Tenancy
