import Eyot.Data.Rows
import Eyot.Market.MigrationHash

/-! The capability market, the genes, the base classes and what links them to entities, and the
capabilities an entity has from all of them. -/

namespace Eyot.Market

inductive Scope where
  | system | org | namespaced
  deriving DecidableEq

structure CapabilityMarketEntry where
  id : Id
  name : Str
  type : Str
  description : Option Str
  configTemplate : Option JsonObject
  scope : Scope
  deleted : Bool

/-- An item of `manifest["capabilities"]`. -/
structure CapabilityInline where
  name : Str
  type : Option Str
  description : Option Str
  deriving DecidableEq

/-- Of the manifest the `capabilities` array is kept, `none` where it is no list. -/
structure AiGene where
  id : Id
  slug : Str
  capabilities : Option (List CapabilityInline)
  scope : Scope
  deleted : Bool

structure BaseClass where
  id : Id
  slug : Str
  scope : Scope
  organizationId : Option Id
  deleted : Bool

structure Entity where
  id : Id
  namespaceId : Id
  name : Str
  slug : Str
  presetSlug : Option Str
  systemPrompt : Option Str
  isCerebellum : Bool
  migrationHash : Option Str
  deleted : Bool

/-! Junction rows. -/

structure Link where
  parentId : Id
  refId : Id
  deleted : Bool

def Link.softDelete (parent ref : Id) (l : Link) : Link :=
  if l.parentId = parent ∧ l.refId = ref then { l with deleted := true } else l

def refs (links : List Link) (parent : Id) : List Id :=
  (links.filter fun l => !l.deleted && decide (l.parentId = parent)).map Link.refId

/-- Idempotent. -/
def attach (links : List Link) (parent ref : Id) : List Link :=
  if ref ∈ refs links parent then links else links ++ [⟨parent, ref, false⟩]

/-- Soft-delete the link; there has to be one. -/
def detach (links : List Link) (parent ref : Id) : Option (List Link) :=
  if ref ∈ refs links parent then some (links.map (Link.softDelete parent ref)) else none

/-- `_clone_junction` -/
def cloneJunction (links : List Link) (source target : Id) : List Link :=
  links ++ (refs links source).map fun ref => ⟨target, ref, false⟩

theorem refs_append (links more : List Link) (parent : Id) :
    refs (links ++ more) parent = refs links parent ++ refs more parent := by
  simp [refs]

theorem refs_attach_of_ne (links : List Link) {parent other : Id} (h : other ≠ parent) (ref : Id) :
    refs (attach links parent ref) other = refs links other := by
  rw [attach]
  split
  · rfl
  · rw [refs_append]
    simp [refs, h.symm]

theorem refs_eq_nil {links : List Link} {parent : Id} (h : ∀ l ∈ links, l.parentId ≠ parent) :
    refs links parent = [] := by
  rw [refs, List.map_eq_nil_iff, List.filter_eq_nil_iff]
  intro l hl
  simp [h l hl]

theorem mem_refs {links : List Link} {parent ref : Id} (h : ref ∈ refs links parent) :
    ∃ l ∈ links, l.refId = ref := by
  obtain ⟨l, hl, rfl⟩ := List.mem_map.mp h
  exact ⟨l, List.mem_of_mem_filter hl, rfl⟩

/-! The tables. -/

structure Catalog where
  market : Table CapabilityMarketEntry.id
  genes : Table AiGene.id
  baseClasses : Table BaseClass.id
  entityCapabilities : List Link
  entityAiGenes : List Link
  baseClassCapabilities : List Link
  baseClassAiGenes : List Link

namespace Catalog

def activeCapability? (c : Catalog) (id : Id) : Option CapabilityMarketEntry :=
  (c.market.find? id).filter fun e => !e.deleted

def activeGene? (c : Catalog) (id : Id) : Option AiGene :=
  (c.genes.find? id).filter fun g => !g.deleted

def activeClass? (c : Catalog) (id : Id) : Option BaseClass :=
  (c.baseClasses.find? id).filter fun b => !b.deleted

def classWithSlug? (c : Catalog) (slug : Str) : Option BaseClass :=
  c.baseClasses.rows.find? fun b => decide (b.slug = slug) && !b.deleted

end Catalog

/-! Capability dicts. -/

structure CapDict where
  name : Str
  type : Str
  description : Option Str
  configTemplate : Option JsonObject

namespace CapDict

def members (c : CapDict) : List (Str × Json Str) :=
  [("name".toList, .str c.name), ("type".toList, .str c.type)] ++
    (c.description.toList.map fun d => ("description".toList, .str d)) ++
    c.configTemplate.toList.map fun t => ("config_template".toList, t.json)

theorem members_wellFormed (c : CapDict) : (Json.obj c.members).wellFormed = true := by
  obtain ⟨name, type, description, configTemplate⟩ := c
  have hkeys : ((members ⟨name, type, description, configTemplate⟩).map Prod.fst).Nodup := by
    cases description with
    | none => cases configTemplate <;> exact of_decide_eq_true rfl
    | some d => cases configTemplate <;> exact of_decide_eq_true rfl
  rw [Json.wellFormed, Bool.and_eq_true, decide_eq_true_eq, Json.wellFormedMembers_iff]
  refine ⟨hkeys, ?_⟩
  intro kv hkv
  simp only [members, List.mem_append, List.mem_cons, List.not_mem_nil, or_false, List.mem_map,
    Option.mem_toList] at hkv
  rcases hkv with ((rfl | rfl) | ⟨d, -, rfl⟩) | ⟨t, -, rfl⟩
  · rfl
  · rfl
  · rfl
  · exact t.wellFormed

def toCapability (c : CapDict) : Capability := ⟨c.members, c.members_wellFormed⟩

end CapDict

/-- A text that is true in Python. -/
def truthy (s : Option Str) : Option Str := s.filter fun s => s ≠ []

def capabilityToDict (cap : CapabilityMarketEntry) : CapDict where
  name := cap.name
  type := cap.type
  description := truthy cap.description
  configTemplate := cap.configTemplate.filter fun t => !t.members.isEmpty

def geneInlineToDict (item : CapabilityInline) : CapDict where
  name := item.name
  type := (truthy item.type).getD "skill".toList
  description := truthy item.description
  configTemplate := none

/-! Effective capabilities. -/

/-- `d[k] = v` -/
def setItem {β : Type} (d : List (Str × β)) (k : Str) (v : β) : List (Str × β) :=
  if d.any fun kv => kv.1 = k then d.map fun kv => if kv.1 = k then (k, v) else kv
  else d ++ [(k, v)]

def setDefault {β : Type} (d : List (Str × β)) (k : Str) (v : β) : List (Str × β) :=
  if d.any fun kv => kv.1 = k then d else d ++ [(k, v)]

/-- The capabilities inlined in the genes, those attached to the entity first. -/
def expandGenes (explicit inherited : List AiGene) : List CapDict :=
  let genes := inherited.foldl (fun d g => setDefault d g.slug g.capabilities)
    (explicit.foldl (fun d g => setItem d g.slug g.capabilities) [])
  genes.flatMap fun kv =>
    ((kv.2.getD []).filter fun item => item.name ≠ []).map geneInlineToDict

def mergeByName (merged : List CapDict) (cap : CapDict) : List CapDict :=
  if merged.any fun m => m.name = cap.name then merged else merged ++ [cap]

namespace Catalog

def junctionCapabilities (c : Catalog) (entityId : Id) : List CapDict :=
  (sortBy CapabilityMarketEntry.name
    ((refs c.entityCapabilities entityId).filterMap c.activeCapability?)).map capabilityToDict

def explicitGenes (c : Catalog) (entityId : Id) : List AiGene :=
  (refs c.entityAiGenes entityId).filterMap c.activeGene?

def genesOfClass (c : Catalog) (baseClassId : Id) : List AiGene :=
  (refs c.baseClassAiGenes baseClassId).filterMap c.activeGene?

def inheritedGenes (c : Catalog) (presetSlug : Option Str) : List AiGene :=
  match (truthy presetSlug).bind c.classWithSlug? with
  | some baseClass => c.genesOfClass baseClass.id
  | none => []

def loadEntityCapabilityDicts (c : Catalog) (entity : Entity) : List CapDict :=
  let geneCaps := expandGenes (c.explicitGenes entity.id) (c.inheritedGenes entity.presetSlug)
  sortBy CapDict.name (geneCaps.foldl mergeByName (c.junctionCapabilities entity.id))

def effective (c : Catalog) (entity : Entity) : List Capability :=
  (c.loadEntityCapabilityDicts entity).map CapDict.toCapability

def computeEntityMigrationHash (sha : Str → Str) (c : Catalog) (entity : Entity) : Str :=
  computeMigrationHash sha (some (c.effective entity)) entity.systemPrompt

end Catalog

end Eyot.Market
