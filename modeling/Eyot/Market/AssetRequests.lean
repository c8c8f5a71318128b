import Eyot.Library.Run
import Eyot.Market.OrganizationClones

/-! Updates and deletions of the capabilities, the genes and the base classes of an organization. -/

namespace Eyot.Market

def isSlugChar (c : Char) : Bool := c.isDigit || c.isLower

/-- `SLUG_PATTERN`; `$` also matches before a last line break. -/
def matchesSlugPattern (value : Str) : Bool :=
  let body := if value.getLast? = some '\n' then value.dropLast else value
  (body.splitOn '-').all fun segment => !segment.isEmpty && segment.all isSlugChar

structure KebabSlug where
  text : Str
  valid : matchesSlugPattern text = true

def MIRROR_KEYS : List Str := ["skills".toList, "tools".toList, "commands".toList]

theorem wellFormed_filter {kvs : Members} (p : Str × Json Str → Bool)
    (h : (Json.obj kvs).wellFormed = true) : (Json.obj (kvs.filter p)).wellFormed = true := by
  rw [Json.wellFormed, Bool.and_eq_true, decide_eq_true_eq, Json.wellFormedMembers_iff] at h ⊢
  exact ⟨h.1.sublist (List.filter_sublist.map _), fun kv hkv => h.2 kv (List.mem_of_mem_filter hkv)⟩

def stripManifestMirror (manifest : JsonObject) : JsonObject :=
  ⟨manifest.members.filter fun kv => !MIRROR_KEYS.contains kv.1,
    wellFormed_filter _ manifest.wellFormed⟩

/-- A field that is not sent is `none`; a slug or a name that is null is left alone. -/
structure ClassPatch where
  slug : Option KebabSlug
  name : Option Str
  displayName : Option (Option Str)
  manifest : Option (Option JsonObject)
  hasKnowledge : Option (Option (List Str))

def ClassPatch.apply (p : ClassPatch) (b : ClassRow) : ClassRow :=
  { b with
    slug := (p.slug.map KebabSlug.text).getD b.slug
    name := p.name.getD b.name
    displayName := p.displayName.getD b.displayName
    manifest := (p.manifest.map fun manifest => manifest.map stripManifestMirror).getD b.manifest
    hasKnowledge := p.hasKnowledge.getD b.hasKnowledge }

theorem ClassPatch.apply_key (p : ClassPatch) (b : ClassRow) : (p.apply b).key = b.key := rfl

def ClassRow.softDelete (b : ClassRow) : ClassRow := { b with deleted := true }

theorem ClassRow.softDelete_key (b : ClassRow) : b.softDelete.key = b.key := rfl

def EntryRow.patch (p : EntryPatch) (r : EntryRow) : EntryRow :=
  { r with toCapabilityMarketEntry := p.apply r.toCapabilityMarketEntry }

theorem EntryRow.patch_key (p : EntryPatch) (r : EntryRow) : (r.patch p).key = r.key := rfl

def EntryRow.softDelete (r : EntryRow) : EntryRow := { r with deleted := true }

theorem EntryRow.softDelete_key (r : EntryRow) : r.softDelete.key = r.key := rfl

def GeneRow.patch (p : GenePatch) (g : GeneRow) : GeneRow :=
  { g with toAiGene := p.apply g.toAiGene }

theorem GeneRow.patch_key (p : GenePatch) (g : GeneRow) : (g.patch p).key = g.key := rfl

def GeneRow.softDelete (g : GeneRow) : GeneRow := { g with deleted := true }

theorem GeneRow.softDelete_key (g : GeneRow) : g.softDelete.key = g.key := rfl

/-- `bump_entity_migration_hash` -/
def EntityRow.bump (sha : Str → Str) (c : Catalog) (e : EntityRow) : EntityRow :=
  { e with migrationHash := some (c.computeEntityMigrationHash sha e.toEntity) }

theorem EntityRow.bump_key (sha : Str → Str) (c : Catalog) (e : EntityRow) :
    (e.bump sha c).key = e.key := rfl

inductive AssetRequest where
  | updateMarketEntry (id : Id) (patch : EntryPatch)
  | deleteMarketEntry (id : Id)
  | updateAiGene (id : Id) (patch : GenePatch)
  | deleteAiGene (id : Id)
  | updateBaseClass (id : Id) (patch : ClassPatch)
  | deleteBaseClass (id : Id)

namespace Store

variable (s : Store)

def activeEntry? (id : Id) : Option EntryRow := (s.market.find? id).filter fun r => !r.deleted

def activeGene? (id : Id) : Option GeneRow := (s.genes.find? id).filter fun g => !g.deleted

/-- An entity refers to the slug, deleted or not. -/
def slugInUse (slug : Str) : Bool := s.entities.rows.any fun e => ofBaseClass slug e.toEntity

/-- Another active base class has the slug. -/
def classSlugTaken (id : Id) (slug : Str) : Bool :=
  s.baseClasses.rows.any fun b => decide (b.slug = slug) && !b.deleted && decide (b.id ≠ id)

def entryNameTaken (id : Id) (name : Str) : Bool :=
  s.market.rows.any fun r => decide (r.name = name) && !r.deleted && decide (r.id ≠ id)

def mayPatchEntry (entry : EntryRow) (patch : EntryPatch) : Bool :=
  decide (entry.scope ≠ .system) && !s.entryNameTaken entry.id (entry.patch patch).name

def mayPatchClass (b : ClassRow) (patch : ClassPatch) : Bool :=
  decide (b.scope ≠ .system) &&
    (decide ((patch.apply b).slug = b.slug) ||
      !s.classSlugTaken b.id (patch.apply b).slug && !s.slugInUse b.slug)

/-- The organization of the row a request is about. -/
def owner? : AssetRequest → Option Id
  | .updateMarketEntry id _ | .deleteMarketEntry id => (s.market.find? id).bind (·.organizationId)
  | .updateAiGene id _ | .deleteAiGene id => (s.genes.find? id).bind (·.organizationId)
  | .updateBaseClass id _ | .deleteBaseClass id =>
    (s.baseClasses.find? id).bind (·.organizationId)

/-- `bump_entities_for_gene` -/
def bumpEntitiesForGene (sha : Str → Str) (id : Id) : Store :=
  { s with
    entities := s.entities.updateWhere (fun e => !e.deleted && ofGene s.catalog id e.toEntity)
      (EntityRow.bump sha s.catalog) (EntityRow.bump_key sha s.catalog) }

/-- `none` where the request is refused. -/
def change? (sha : Str → Str) : AssetRequest → Option Store
  | .updateMarketEntry id patch =>
    match s.activeEntry? id with
    | some entry =>
      if s.mayPatchEntry entry patch then
        some { s with
          market := s.market.update id (EntryRow.patch patch) (EntryRow.patch_key patch) }
      else none
    | none => none
  | .deleteMarketEntry id =>
    match s.activeEntry? id with
    | some entry =>
      if entry.scope ≠ .system then
        some { s with market := s.market.update id EntryRow.softDelete EntryRow.softDelete_key }
      else none
    | none => none
  | .updateAiGene id patch =>
    match s.activeGene? id with
    | some gene =>
      if gene.scope ≠ .system then
        let s' : Store :=
          { s with genes := s.genes.update id (GeneRow.patch patch) (GeneRow.patch_key patch) }
        some <|
          if (gene.patch patch).capabilities = gene.capabilities then s'
          else s'.bumpEntitiesForGene sha id
      else none
    | none => none
  | .deleteAiGene id =>
    match s.activeGene? id with
    | some gene =>
      if gene.scope ≠ .system then
        some { s with genes := s.genes.update id GeneRow.softDelete GeneRow.softDelete_key }
      else none
    | none => none
  | .updateBaseClass id patch =>
    match s.activeClass? id with
    | some b =>
      if s.mayPatchClass b patch then
        some { s with baseClasses := s.baseClasses.update id patch.apply patch.apply_key }
      else none
    | none => none
  | .deleteBaseClass id =>
    match s.activeClass? id with
    | some b =>
      if b.scope ≠ .system then
        some { s with
          baseClasses := s.baseClasses.update id ClassRow.softDelete ClassRow.softDelete_key }
      else none
    | none => none

/-- A request on what belongs to an organization. -/
def stepOwned (sha : Str → Str) (orgId : Id) (r : AssetRequest) : Store :=
  if s.owner? r = some orgId then (s.change? sha r).getD s else s

end Store

end Eyot.Market
