import Eyot.Market.Overlay
import Eyot.Market.Frames

/-! The market with all the columns that make up what an entity is, and the requests that copy its
rows. -/

namespace Eyot.Market

structure EntryRow extends CapabilityMarketEntry where
  organizationId : Option Id

structure GeneRow extends AiGene where
  organizationId : Option Id

def EntryRow.key (r : EntryRow) : Id := r.id
def GeneRow.key (r : GeneRow) : Id := r.id
def ClassRow.key (r : ClassRow) : Id := r.id
def EntityRow.key (r : EntityRow) : Id := r.id

structure Store where
  market : Table EntryRow.key
  genes : Table GeneRow.key
  baseClasses : Table ClassRow.key
  entities : Table EntityRow.key
  namespaces : Table Namespace.id
  organizations : Table Organization.id
  entityCapabilities : List Link
  entityAiGenes : List Link
  baseClassCapabilities : List Link
  baseClassAiGenes : List Link

theorem EntryRow.key_eq (r : EntryRow) : r.toCapabilityMarketEntry.id = r.key := rfl
theorem GeneRow.key_eq (r : GeneRow) : r.toAiGene.id = r.key := rfl
theorem ClassRow.key_eq (r : ClassRow) : r.toBaseClass.id = r.key := rfl

namespace Store

variable (s : Store)

/-- What of it the capabilities of entities come from. -/
def catalog : Catalog where
  market := s.market.map EntryRow.toCapabilityMarketEntry EntryRow.key_eq
  genes := s.genes.map GeneRow.toAiGene GeneRow.key_eq
  baseClasses := s.baseClasses.map ClassRow.toBaseClass ClassRow.key_eq
  entityCapabilities := s.entityCapabilities
  entityAiGenes := s.entityAiGenes
  baseClassCapabilities := s.baseClassCapabilities
  baseClassAiGenes := s.baseClassAiGenes

def activeEntity? (id : Id) : Option EntityRow := (s.entities.find? id).filter fun e => !e.deleted

def activeClass? (id : Id) : Option ClassRow := (s.baseClasses.find? id).filter fun b => !b.deleted

theorem classWithSlug?_catalog (slug : Str) :
    s.catalog.classWithSlug? slug =
      (classWithSlug? s.baseClasses.rows slug).map ClassRow.toBaseClass :=
  List.find?_map

end Store

/-! What an entity is. -/

inductive GeneSource where
  | extraAdded | fromBaseClass
  deriving DecidableEq

namespace Catalog

variable (c : Catalog)

def loadEntityGeneRefs (entityId : Id) : List Str :=
  sortBy id ((c.explicitGenes entityId).map AiGene.slug)

def loadEntityAiGeneDicts (entity : Entity) : List (Str × GeneSource) :=
  let explicit := c.loadEntityGeneRefs entity.id
  let inherited := sortBy id ((c.inheritedGenes entity.presetSlug).map AiGene.slug)
  (explicit.map fun slug => (slug, .extraAdded)) ++
    (inherited.filter fun slug => !explicit.contains slug).map fun slug => (slug, .fromBaseClass)

def loadBaseClassCapabilityDicts (baseClassId : Id) : List CapDict :=
  (sortBy CapabilityMarketEntry.name
    ((refs c.baseClassCapabilities baseClassId).filterMap c.activeCapability?)).map capabilityToDict

end Catalog

namespace Store

variable (s : Store)

/-- The slugs it has knowledge of; Python takes them as a set. -/
def computeHasKnowledge (entity : EntityRow) : List Str :=
  entity.hasKnowledge.getD [] ++
    match (truthy entity.presetSlug).bind (classWithSlug? s.baseClasses.rows) with
    | some baseClass => baseClass.hasKnowledge.getD []
    | none => []

section

variable {ν : Type} [LinearOrder ν] (number : Str → ν)

/-- `none` where a manifest cannot be read. -/
def resolveInstanceAgentConfig (entity : EntityRow) : Option Members :=
  let capabilities := (s.catalog.loadEntityCapabilityDicts entity.toEntity).map fun c =>
    c.toCapability.json
  let geneRefs := (s.catalog.loadEntityGeneRefs entity.id).map Json.str
  match (truthy entity.presetSlug).bind (candidateClass? s.baseClasses.rows) with
  | some preset =>
    match preset.manifest with
    | some manifest =>
      (resolveEntityConfig number entity (some manifest) capabilities geneRefs).map fun resolved =>
        setItem (setItem resolved "baseclass_slug".toList (.str preset.slug))
          "baseclass_name".toList (.str (shownName preset.displayName preset.name))
    | none => resolveEntityConfig number entity none capabilities geneRefs
  | none => resolveEntityConfig number entity none capabilities geneRefs

end

end Store

/-- The effective configuration of an entity. -/
structure Effective where
  capabilities : List CapDict
  genes : List (Str × GeneSource)
  config : Option Members
  knowledge : Set Str

def Store.effective {ν : Type} [LinearOrder ν] (number : Str → ν) (s : Store) (entity : EntityRow) :
    Effective where
  capabilities := s.catalog.loadEntityCapabilityDicts entity.toEntity
  genes := s.catalog.loadEntityAiGeneDicts entity.toEntity
  config := s.resolveInstanceAgentConfig number entity
  knowledge := {slug | slug ∈ s.computeHasKnowledge entity}

/-! Copies. -/

namespace Store

variable (s : Store)

/-- A row like another one, with links of its own. -/
def copyEntity (source : Id) (copy : EntityRow) : Option Store :=
  if s.catalog.Unused copy.id then
    (s.entities.insert? copy).map fun entities =>
      { s with
        entities := entities
        entityAiGenes := cloneJunction s.entityAiGenes source copy.id
        entityCapabilities := cloneJunction s.entityCapabilities source copy.id }
  else none

/-- A slug that is taken breaks the unique index. -/
def copyClass (source : Id) (copy : ClassRow) : Option Store :=
  if (classWithSlug? s.baseClasses.rows copy.slug).isSome then none
  else if s.catalog.Unused copy.id then
    (s.baseClasses.insert? copy).map fun baseClasses =>
      { s with
        baseClasses := baseClasses
        baseClassAiGenes := cloneJunction s.baseClassAiGenes source copy.id
        baseClassCapabilities := cloneJunction s.baseClassCapabilities source copy.id }
  else none

def slugTaken (namespaceId : Id) (slug : Str) : Bool :=
  s.entities.rows.any fun e =>
    !e.deleted && decide (e.namespaceId = namespaceId) && decide (e.slug = slug)

/-- The row that `clone_entity` adds for another one. -/
def clonedEntity (e : EntityRow) (newId : Id) (newName newSlug : Str) : EntityRow :=
  { e with
    id := newId
    name := newName
    slug := newSlug
    isCerebellum := false
    migrationHash := none
    hasKnowledge := none }

def cloneEntity (source newId : Id) (newName newSlug : Str) : Option (Store × EntityRow) :=
  match s.activeEntity? source with
  | none => none
  | some e =>
    if s.slugTaken e.namespaceId newSlug then none
    else
      let copy := clonedEntity e newId newName newSlug
      (s.copyEntity source copy).map (·, copy)

/-- The row that `clone_base_class` adds for another one. A copy of a system preset is the target
organization's own. -/
def clonedClass (b : ClassRow) (newId : Id) (newName newSlug : Str) (targetOrgId : Option Id) :
    ClassRow :=
  let copy := { b with id := newId, name := newName, slug := newSlug, hasKnowledge := none }
  match b.scope with
  | .system => { copy with scope := .org, organizationId := targetOrgId }
  | _ => copy

def cloneBaseClass (source newId : Id) (newName newSlug : Str) (targetOrgId : Option Id) :
    Option (Store × ClassRow) :=
  match s.activeClass? source with
  | none => none
  | some b =>
    let copy := clonedClass b newId newName newSlug targetOrgId
    (s.copyClass source copy).map (·, copy)

end Store

end Eyot.Market
