import Eyot.Library.Derived
import Eyot.Market.Catalog

/-! The requests that write the market, the genes, the base classes and the links of entities. -/

namespace Eyot.Market

structure Namespace where
  id : Id
  orgId : Id
  deleted : Bool

structure Organization where
  id : Id
  slug : Str
  deleted : Bool

/-- `registry` holds the slugs of the base classes that the process has cached. -/
structure State where
  catalog : Catalog
  entities : Table Entity.id
  namespaces : Table Namespace.id
  organizations : Table Organization.id
  registry : List Str

/-! The hash a row stores is derived from the catalog. -/

def Entity.setHash (hash : Str) (e : Entity) : Entity := { e with migrationHash := some hash }

def hashes (sha : Str → Str) : Derived Catalog Entity Str where
  derive := Catalog.computeEntityMigrationHash sha
  live e := !e.deleted
  stored := Entity.migrationHash
  store := Entity.setHash
  stored_store _ _ := rfl
  live_store _ _ := rfl
  derive_store _ _ _ := rfl

namespace Catalog

def links (c : Catalog) : List Link :=
  c.entityCapabilities ++ c.entityAiGenes ++ c.baseClassCapabilities ++ c.baseClassAiGenes

/-- What can be the id of a new row: none has it, and no link names it. -/
def Unused (c : Catalog) (id : Id) : Prop :=
  (id ∉ c.market.rows.map CapabilityMarketEntry.id ∧ id ∉ c.genes.rows.map AiGene.id ∧
    id ∉ c.baseClasses.rows.map BaseClass.id) ∧
    ∀ l ∈ c.links, l.parentId ≠ id ∧ l.refId ≠ id

instance (c : Catalog) (id : Id) : Decidable (c.Unused id) :=
  inferInstanceAs (Decidable (_ ∧ _))

def insertEntry (c : Catalog) (entry : CapabilityMarketEntry) : Option Catalog :=
  if c.Unused entry.id then
    (c.market.insert? entry).map fun market => { c with market := market }
  else none

def insertGene (c : Catalog) (gene : AiGene) : Option Catalog :=
  if c.Unused gene.id then (c.genes.insert? gene).map fun genes => { c with genes := genes }
  else none

def insertClass (c : Catalog) (baseClass : BaseClass) : Option Catalog :=
  if c.Unused baseClass.id then
    (c.baseClasses.insert? baseClass).map fun baseClasses => { c with baseClasses := baseClasses }
  else none

def entryWithName? (c : Catalog) (name : Str) : Option CapabilityMarketEntry :=
  c.market.rows.find? fun e => decide (e.name = name) && !e.deleted

def geneWithSlug? (c : Catalog) (slug : Str) : Option AiGene :=
  c.genes.rows.find? fun g => decide (g.slug = slug) && !g.deleted

end Catalog

/-! Capability market. -/

structure EntryPatch where
  name : Option Str
  type : Option Str
  description : Option (Option Str)
  configTemplate : Option (Option JsonObject)

def EntryPatch.apply (p : EntryPatch) (e : CapabilityMarketEntry) : CapabilityMarketEntry :=
  { e with
    name := p.name.getD e.name
    type := p.type.getD e.type
    description := p.description.getD e.description
    configTemplate := p.configTemplate.getD e.configTemplate }

theorem EntryPatch.apply_id (p : EntryPatch) : ∀ e, (p.apply e).id = e.id := fun _ => rfl

def CapabilityMarketEntry.softDelete (e : CapabilityMarketEntry) : CapabilityMarketEntry :=
  { e with deleted := true }

theorem CapabilityMarketEntry.softDelete_id :
    ∀ e : CapabilityMarketEntry, e.softDelete.id = e.id := fun _ => rfl

def createMarketEntry (c : Catalog) (id : Id) (name type : Str) (description : Option Str)
    (configTemplate : Option JsonObject) (scope : Scope) : Option Catalog :=
  if scope = .system ∨ (c.entryWithName? name).isSome then none
  else c.insertEntry ⟨id, name, type, description, configTemplate, scope, false⟩

/-- A name that another entry has breaks the unique index. -/
def updateMarketEntry (c : Catalog) (id : Id) (patch : EntryPatch) : Option Catalog :=
  match c.activeCapability? id with
  | none => none
  | some entry =>
    if entry.scope = .system ∨
        (c.entryWithName? (patch.apply entry).name).any (fun e => e.id ≠ id) then none
    else some { c with market := c.market.update id patch.apply patch.apply_id }

def deleteMarketEntry (c : Catalog) (id : Id) : Option Catalog :=
  match c.activeCapability? id with
  | none => none
  | some entry =>
    if entry.scope = .system then none
    else some
      { c with
        market := c.market.update id CapabilityMarketEntry.softDelete
          CapabilityMarketEntry.softDelete_id }

def MIRROR_TYPES : List Str :=
  ["skill".toList, "tool".toList, "mcp".toList, "lsp".toList, "command".toList]

/-- The entry of that name, made under `newId` if there is none. -/
def upsertCapability (c : Catalog) (newId : Id) (cap : CapDict) (scope : Scope) :
    Option (Catalog × Id) :=
  match c.entryWithName? cap.name with
  | some entry => some (c, entry.id)
  | none =>
    let type := if MIRROR_TYPES.contains cap.type then cap.type else "skill".toList
    (c.insertEntry ⟨newId, cap.name, type, cap.description, cap.configTemplate, scope, false⟩).map
      fun c => (c, newId)

/-! Genes. -/

/-- `manifest` is sent with or without a `capabilities` array; the request's own list wins. -/
structure GenePatch where
  manifest : Option (Option (List CapabilityInline))
  capabilities : Option (List CapabilityInline)

def manifestWithCapabilities (manifest capabilities : Option (List CapabilityInline)) :
    Option (List CapabilityInline) :=
  match capabilities with
  | some capabilities => some capabilities
  | none => manifest

def GenePatch.apply (p : GenePatch) (g : AiGene) : AiGene :=
  { g with
    capabilities := manifestWithCapabilities (p.manifest.getD g.capabilities) p.capabilities }

theorem GenePatch.apply_id (p : GenePatch) : ∀ g, (p.apply g).id = g.id := fun _ => rfl

def AiGene.softDelete (g : AiGene) : AiGene := { g with deleted := true }

theorem AiGene.softDelete_id : ∀ g : AiGene, g.softDelete.id = g.id := fun _ => rfl

def createAiGene (c : Catalog) (id : Id) (slug : Str)
    (manifest capabilities : Option (List CapabilityInline)) (scope : Scope) : Option Catalog :=
  if scope = .system ∨ (c.geneWithSlug? slug).isSome then none
  else c.insertGene ⟨id, slug, manifestWithCapabilities manifest capabilities, scope, false⟩

/-- The entities that `bump_entities_for_base_class` hashes again. -/
def ofBaseClass (slug : Str) (e : Entity) : Bool := e.presetSlug = some slug

/-- The entities that `bump_entities_for_gene` hashes again. -/
def ofGene (c : Catalog) (geneId : Id) (e : Entity) : Bool :=
  decide (geneId ∈ refs c.entityAiGenes e.id) ||
    c.baseClasses.rows.any fun b =>
      !b.deleted && decide (geneId ∈ refs c.baseClassAiGenes b.id) && ofBaseClass b.slug e

def nobody (_ : Entity) : Bool := false

/-- The catalog a request leaves, and the entities it hashes again. -/
abbrev Change := Catalog × (Entity → Bool)

def updateAiGene (c : Catalog) (id : Id) (patch : GenePatch) : Option Change :=
  match c.activeGene? id with
  | none => none
  | some gene =>
    if gene.scope = .system then none
    else
      let c' := { c with genes := c.genes.update id patch.apply patch.apply_id }
      some (c', if (patch.apply gene).capabilities = gene.capabilities then nobody
        else ofGene c' id)

def deleteAiGene (c : Catalog) (id : Id) : Option Catalog :=
  match c.activeGene? id with
  | none => none
  | some gene =>
    if gene.scope = .system then none
    else some { c with genes := c.genes.update id AiGene.softDelete AiGene.softDelete_id }

/-! Base classes. -/

def BaseClass.setSlug (slug : Str) (b : BaseClass) : BaseClass := { b with slug := slug }

theorem BaseClass.setSlug_id (slug : Str) : ∀ b : BaseClass, (b.setSlug slug).id = b.id :=
  fun _ => rfl

def BaseClass.softDelete (b : BaseClass) : BaseClass := { b with deleted := true }

theorem BaseClass.softDelete_id : ∀ b : BaseClass, b.softDelete.id = b.id := fun _ => rfl

def createBaseClass (c : Catalog) (id : Id) (slug : Str) (scope : Scope)
    (organizationId : Option Id) : Option Catalog :=
  if scope = .system ∨ (c.classWithSlug? slug).isSome then none
  else c.insertClass ⟨id, slug, scope, organizationId, false⟩

/-- Of the columns that can be patched only the slug is read elsewhere. A slug that an entity
refers to, deleted or not, is locked. -/
def updateBaseClass (c : Catalog) (entities : List Entity) (id : Id) (slug : Option Str) :
    Option Catalog :=
  match c.activeClass? id with
  | none => none
  | some baseClass =>
    if baseClass.scope = .system then none
    else
      let new := slug.getD baseClass.slug
      if new ≠ baseClass.slug ∧ ((c.classWithSlug? new).any (fun b => b.id ≠ id) ∨
          entities.any fun e => ofBaseClass baseClass.slug e) then none
      else some
        { c with
          baseClasses := c.baseClasses.update id (BaseClass.setSlug new) (BaseClass.setSlug_id new) }

def deleteBaseClass (c : Catalog) (id : Id) : Option Catalog :=
  match c.activeClass? id with
  | none => none
  | some baseClass =>
    if baseClass.scope = .system then none
    else some
      { c with
        baseClasses := c.baseClasses.update id BaseClass.softDelete BaseClass.softDelete_id }

def attachBaseClassAiGene (c : Catalog) (baseClassId geneId : Id) : Option Change :=
  match c.activeClass? baseClassId, c.activeGene? geneId with
  | some baseClass, some _ =>
    some ({ c with baseClassAiGenes := attach c.baseClassAiGenes baseClassId geneId },
      ofBaseClass baseClass.slug)
  | _, _ => none

/-- The route of the genes answers `already_attached` without another look at the entities. -/
def attachAiGeneToBaseClass (c : Catalog) (geneId baseClassId : Id) : Option Change :=
  match c.activeGene? geneId, c.activeClass? baseClassId with
  | some _, some _ =>
    if geneId ∈ refs c.baseClassAiGenes baseClassId then some (c, nobody)
    else attachBaseClassAiGene c baseClassId geneId
  | _, _ => none

def detachBaseClassAiGene (c : Catalog) (baseClassId geneId : Id) : Option Change :=
  match c.activeClass? baseClassId, c.activeGene? geneId with
  | some baseClass, some _ =>
    (detach c.baseClassAiGenes baseClassId geneId).map fun links =>
      ({ c with baseClassAiGenes := links }, ofBaseClass baseClass.slug)
  | _, _ => none

def attachBaseClassCapability (c : Catalog) (baseClassId capabilityId : Id) : Option Change :=
  match c.activeClass? baseClassId, c.activeCapability? capabilityId with
  | some baseClass, some _ =>
    some ({ c with baseClassCapabilities := attach c.baseClassCapabilities baseClassId capabilityId },
      ofBaseClass baseClass.slug)
  | _, _ => none

def detachBaseClassCapability (c : Catalog) (baseClassId capabilityId : Id) : Option Change :=
  match c.activeClass? baseClassId, c.activeCapability? capabilityId with
  | some baseClass, some _ =>
    (detach c.baseClassCapabilities baseClassId capabilityId).map fun links =>
      ({ c with baseClassCapabilities := links }, ofBaseClass baseClass.slug)
  | _, _ => none

/-- A slug that is taken breaks the unique index. -/
def copyClass (c : Catalog) (source : Id) (copy : BaseClass) : Option Catalog :=
  if (c.classWithSlug? copy.slug).isSome then none
  else
    (c.insertClass copy).map fun c =>
      { c with
        baseClassAiGenes := cloneJunction c.baseClassAiGenes source copy.id
        baseClassCapabilities := cloneJunction c.baseClassCapabilities source copy.id }

/-- `clone_base_class`. A copy of a system preset is the target organization's own. -/
def cloneBaseClass (c : Catalog) (source newId : Id) (newSlug : Str) (targetOrgId : Option Id) :
    Option Catalog :=
  match c.activeClass? source with
  | none => none
  | some baseClass =>
    copyClass c source <| match baseClass.scope with
      | .system => ⟨newId, newSlug, .org, targetOrgId, false⟩
      | scope => ⟨newId, newSlug, scope, baseClass.organizationId, false⟩

/-! Links of entities. -/

namespace State

variable (s : State)

def activeEntity? (id : Id) : Option Entity := (s.entities.find? id).filter fun e => !e.deleted

def slugTaken (namespaceId : Id) (slug : Str) : Bool :=
  s.entities.rows.any fun e =>
    !e.deleted && decide (e.namespaceId = namespaceId) && decide (e.slug = slug)

def attachEntityCapability (id capabilityId : Id) : Option Change :=
  match s.activeEntity? id, s.catalog.activeCapability? capabilityId with
  | some _, some _ =>
    some ({ s.catalog with
      entityCapabilities := attach s.catalog.entityCapabilities id capabilityId },
      fun e => e.id = id)
  | _, _ => none

def detachEntityCapability (id capabilityId : Id) : Option Change :=
  match s.activeEntity? id with
  | some _ =>
    (detach s.catalog.entityCapabilities id capabilityId).map fun links =>
      ({ s.catalog with entityCapabilities := links }, fun e => e.id = id)
  | none => none

def attachEntityAiGene (id geneId : Id) : Option Change :=
  match s.activeEntity? id, s.catalog.activeGene? geneId with
  | some _, some _ =>
    some ({ s.catalog with entityAiGenes := attach s.catalog.entityAiGenes id geneId },
      fun e => e.id = id)
  | _, _ => none

def detachEntityAiGene (id geneId : Id) : Option Change :=
  match s.activeEntity? id with
  | some _ =>
    (detach s.catalog.entityAiGenes id geneId).map fun links =>
      ({ s.catalog with entityAiGenes := links }, fun e => e.id = id)
  | none => none

/-! Learning. -/

/-- `"org" if .. else "system"`, by the namespace of the entity. -/
def learnedScope (e : Entity) : Scope :=
  if (s.namespaces.find? e.namespaceId).isSome then .org else .system

end State

def CapDict.inline (entry : CapabilityMarketEntry) : CapabilityInline :=
  ⟨entry.name, some entry.type, entry.description⟩

/-- `combine_capabilities`: a gene of the named entries, bound to what the request names. -/
def combineCapabilities (s : State) (newId : Id) (names : List Str) (geneSlug : Str)
    (entityId baseClassId : Option Id) : Option Catalog :=
  match names.mapM s.catalog.entryWithName? with
  | none => none
  | some entries =>
    if names = [] ∨ (s.catalog.geneWithSlug? geneSlug).isSome ∨
        entityId.any (fun id => (s.activeEntity? id).isNone) ∨
        baseClassId.any (fun id => (s.catalog.activeClass? id).isNone) then none
    else
      (s.catalog.insertGene ⟨newId, geneSlug, some (entries.map CapDict.inline), .org, false⟩).map
        fun c =>
          { c with
            entityAiGenes := match entityId with
              | some id => attach c.entityAiGenes id newId
              | none => c.entityAiGenes
            baseClassAiGenes := match baseClassId with
              | some id => attach c.baseClassAiGenes id newId
              | none => c.baseClassAiGenes }

/-- `cap.get("type") or "skill"` -/
def CapDict.typed (cap : CapDict) : CapDict :=
  { cap with type := (truthy (some cap.type)).getD "skill".toList }

/-- The entries of the named capabilities, in a catalog that has them all; `newIds` are the ids of
the rows that have to be made. -/
def upsertAll (c : Catalog) (scope : Scope) : List (CapDict × Id) → Option (Catalog × List Id)
  | [] => some (c, [])
  | (cap, newId) :: caps =>
    if cap.name = [] then upsertAll c scope caps
    else
      match upsertCapability c newId cap.typed scope with
      | none => none
      | some (c, entryId) => (upsertAll c scope caps).map fun r => (r.1, entryId :: r.2)

def withIds (caps : List CapDict) (newIds : Nat → Id) : List (CapDict × Id) :=
  caps.zipIdx.map fun cap => (cap.1, newIds cap.2)

def attachAll (links : List Link) (parent : Id) (entries : List Id) : List Link :=
  entries.foldl (fun links entry => attach links parent entry) links

/-- The slugs of `load_entity_ai_gene_dicts`. -/
def Catalog.geneRefs (c : Catalog) (e : Entity) : List Str :=
  (c.explicitGenes e.id ++ c.inheritedGenes e.presetSlug).map AiGene.slug

/-- `transmute_entity`: a base class with what the entity has. -/
def transmuteEntity (s : State) (id newId : Id) (slug : Str) (newIds : Nat → Id) :
    Option Catalog :=
  match s.activeEntity? id with
  | none => none
  | some entity =>
    if (s.catalog.classWithSlug? slug).isSome then none
    else
      let caps := s.catalog.loadEntityCapabilityDicts entity
      let geneRefs := s.catalog.geneRefs entity
      let scope := s.learnedScope entity
      let org := (s.namespaces.find? entity.namespaceId).map Namespace.orgId
      match s.catalog.insertClass ⟨newId, slug, scope, org, false⟩ with
      | none => none
      | some c =>
        (upsertAll c scope (withIds caps newIds)).map fun (c, entries) =>
          let genes := c.genes.rows.filter fun g => !g.deleted && geneRefs.contains g.slug
          { c with
            baseClassCapabilities := attachAll c.baseClassCapabilities newId entries
            baseClassAiGenes := attachAll c.baseClassAiGenes newId (genes.map AiGene.id) }

/-! Requests that write the catalog, and entities at most by hashing them again.  A request that
the permission checks turn down, or that asks for a preview, is not made here. -/

inductive CatalogRequest where
  | createMarketEntry (id : Id) (name type : Str) (description : Option Str)
      (configTemplate : Option JsonObject) (scope : Scope)
  | updateMarketEntry (id : Id) (patch : EntryPatch)
  | deleteMarketEntry (id : Id)
  | createAiGene (id : Id) (slug : Str) (manifest capabilities : Option (List CapabilityInline))
      (scope : Scope)
  | updateAiGene (id : Id) (patch : GenePatch)
  | deleteAiGene (id : Id)
  | createBaseClass (id : Id) (slug : Str) (scope : Scope) (organizationId : Option Id)
  | updateBaseClass (id : Id) (slug : Option Str)
  | deleteBaseClass (id : Id)
  | attachAiGeneToBaseClass (geneId baseClassId : Id)
  | attachBaseClassAiGene (baseClassId geneId : Id)
  | detachBaseClassAiGene (baseClassId geneId : Id)
  | attachBaseClassCapability (baseClassId capabilityId : Id)
  | detachBaseClassCapability (baseClassId capabilityId : Id)
  | attachEntityCapability (id capabilityId : Id)
  | detachEntityCapability (id capabilityId : Id)
  | attachEntityAiGene (id geneId : Id)
  | detachEntityAiGene (id geneId : Id)
  | combine (newId : Id) (names : List Str) (geneSlug : Str) (entityId baseClassId : Option Id)
  | transmute (id newId : Id) (slug : Str) (newIds : Nat → Id)
  | cloneBaseClass (source newId : Id) (newSlug : Str) (targetOrgId : Option Id)

/-- `none` where the request is refused. -/
def CatalogRequest.change? (s : State) : CatalogRequest → Option Change
  | createMarketEntry id name type description configTemplate scope =>
    (Market.createMarketEntry s.catalog id name type description configTemplate scope).map
      (·, nobody)
  | updateMarketEntry id patch => (Market.updateMarketEntry s.catalog id patch).map (·, nobody)
  | deleteMarketEntry id => (Market.deleteMarketEntry s.catalog id).map (·, nobody)
  | createAiGene id slug manifest capabilities scope =>
    (Market.createAiGene s.catalog id slug manifest capabilities scope).map (·, nobody)
  | updateAiGene id patch => Market.updateAiGene s.catalog id patch
  | deleteAiGene id => (Market.deleteAiGene s.catalog id).map (·, nobody)
  | createBaseClass id slug scope organizationId =>
    (Market.createBaseClass s.catalog id slug scope organizationId).map (·, nobody)
  | updateBaseClass id slug =>
    (Market.updateBaseClass s.catalog s.entities.rows id slug).map (·, nobody)
  | deleteBaseClass id => (Market.deleteBaseClass s.catalog id).map (·, nobody)
  | attachAiGeneToBaseClass geneId baseClassId =>
    Market.attachAiGeneToBaseClass s.catalog geneId baseClassId
  | attachBaseClassAiGene baseClassId geneId =>
    Market.attachBaseClassAiGene s.catalog baseClassId geneId
  | detachBaseClassAiGene baseClassId geneId =>
    Market.detachBaseClassAiGene s.catalog baseClassId geneId
  | attachBaseClassCapability baseClassId capabilityId =>
    Market.attachBaseClassCapability s.catalog baseClassId capabilityId
  | detachBaseClassCapability baseClassId capabilityId =>
    Market.detachBaseClassCapability s.catalog baseClassId capabilityId
  | attachEntityCapability id capabilityId => s.attachEntityCapability id capabilityId
  | detachEntityCapability id capabilityId => s.detachEntityCapability id capabilityId
  | attachEntityAiGene id geneId => s.attachEntityAiGene id geneId
  | detachEntityAiGene id geneId => s.detachEntityAiGene id geneId
  | combine newId names geneSlug entityId baseClassId =>
    (combineCapabilities s newId names geneSlug entityId baseClassId).map (·, nobody)
  | transmute id newId slug newIds => (transmuteEntity s id newId slug newIds).map (·, nobody)
  | cloneBaseClass source newId newSlug targetOrgId =>
    (Market.cloneBaseClass s.catalog source newId newSlug targetOrgId).map (·, nobody)

/-- Whether the request loads the registry again. -/
def CatalogRequest.reloads : CatalogRequest → Bool
  | createBaseClass .. | updateBaseClass .. | deleteBaseClass .. => true
  | _ => false

end Eyot.Market
