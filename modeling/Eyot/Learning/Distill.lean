import Eyot.Data.Errors
import Eyot.Library.GetOrAdd
import Eyot.Library.StableSort
import Eyot.Market.CatalogRequests
import Eyot.Routing.DirectiveRouter

/-! The two ways in which the memory of an entity is distilled into the capability market: a slash
directive, and the endpoint with its heuristic engine. -/

namespace Eyot.Learning

open Market (Scope truthy MIRROR_TYPES Namespace)

structure Memory where
  entityId : Id
  kind : Str
  key : Option Str
  content : Option Str
  createdAt : Time
  deleted : Bool

inductive CreatedVia where
  | reap | promote | manual | distill
  deriving DecidableEq

structure CapabilityMarketEntry where
  name : Str
  type : Str
  scope : Scope
  organizationId : Option Id
  namespaceId : Option Id
  description : Option Str
  requiredKnowledge : Option (List Str)
  createdVia : CreatedVia
  sourceEntitySlug : Option Str
  deleted : Bool

def CapabilityMarketEntry.isActive (e : CapabilityMarketEntry) : Bool := !e.deleted

/-- `uniqueName` is `uq_capability_market_name`. -/
structure Store where
  entities : Table Entity.id
  namespaces : Table Namespace.id
  memories : List Memory
  market : List CapabilityMarketEntry
  uniqueName : UniqueOn CapabilityMarketEntry.isActive CapabilityMarketEntry.name market

namespace Store

variable (s : Store)

def activeEntity? (id : Id) : Option Entity :=
  (s.entities.find? id).filter fun e => e.deletedAt.isNone

def activeMemories (entityId : Id) : List Memory :=
  s.memories.filter fun m => decide (m.entityId = entityId) && !m.deleted

def orgOf (e : Entity) : Option Id := (s.namespaces.find? e.namespaceId).map Namespace.orgId

end Store

/-! Capability market. -/

/-- The arguments of `upsert_capability` that its callers here pass. -/
structure Draft where
  name : Str
  capType : Str
  scope : Scope
  organizationId : Option Id
  createdVia : CreatedVia
  description : Option Str
  requiredKnowledge : Option (List Str)
  sourceEntitySlug : Option Str

def Draft.row (d : Draft) : CapabilityMarketEntry where
  name := d.name
  type := if MIRROR_TYPES.contains d.capType then d.capType else "skill".toList
  scope := d.scope
  organizationId := d.organizationId
  namespaceId := none
  description := d.description
  requiredKnowledge := d.requiredKnowledge
  createdVia := d.createdVia
  sourceEntitySlug := d.sourceEntitySlug
  deleted := false

def upsertCapability (s : Store) (d : Draft) : CapabilityMarketEntry × Store :=
  let r := getOrAdd CapabilityMarketEntry.isActive CapabilityMarketEntry.name s.market d.row
  (r.1, { s with market := r.2, uniqueName := s.uniqueName.getOrAdd d.row })

def upsertCapabilities (s : Store) : List Draft → List CapabilityMarketEntry × Store
  | [] => ([], s)
  | d :: ds =>
    let (cap, s) := upsertCapability s d
    let (caps, s) := upsertCapabilities s ds
    (cap :: caps, s)

/-- What either way makes of a memory. -/
structure CapabilityCandidate where
  name : Str
  type : Str
  description : Option Str
  requiredKnowledge : Option (List Str)

/-- An organization id is no empty text. -/
def scopeOf (orgId : Option Id) : Scope := if orgId.any (· ≠ "") then .org else .system

def distillDraft (s : Store) (e : Entity) (c : CapabilityCandidate) : Draft where
  name := c.name
  capType := c.type
  scope := scopeOf (s.orgOf e)
  organizationId := s.orgOf e
  createdVia := .distill
  description := c.description
  requiredKnowledge := c.requiredKnowledge
  sourceEntitySlug := some e.slug

/-! The slash directive. -/

def isSlugChar (c : Char) : Bool := pythonText.isLower c || pythonText.isDigit c

/-- `re.sub(r"[^a-z0-9]+", "-", text)`; `inRun` says that the run has its hyphen already. -/
def subNonAlnum (inRun : Bool) : Str → Str
  | [] => []
  | c :: text =>
    if isSlugChar c then c :: subNonAlnum false text
    else if inRun then subNonAlnum true text
    else '-' :: subNonAlnum true text

section

-- `str.lower`; nothing here depends on the letters it knows.
variable (lower : Str → Str)

def slugifyCapabilityName (text : Str) : Str :=
  let slug := Scan.strip (· = '-') (subNonAlnum false (pythonText.strip (lower text)))
  if slug.isEmpty then "capability".toList else slug.take 200

def knowledgeSlugsForMemory (key : Option Str) : Option (List Str) :=
  match truthy key with
  | none => none
  | some key =>
    let slug := lower (pythonText.strip (key.takeWhile (· ≠ '-')))
    if slug.isEmpty then none else some [slug]

def seedText (entry : Memory) : Str := ((truthy entry.key).or (truthy entry.content)).getD entry.kind

def memoryCandidate (entry : Memory) : CapabilityCandidate where
  name := slugifyCapabilityName lower (seedText entry)
  type := "skill".toList
  description := some ((((truthy entry.content).or (truthy entry.key)).getD entry.kind).take 200)
  requiredKnowledge := knowledgeSlugsForMemory lower entry.key

/-- The memories that the directive reads. -/
def oldestMemories (s : Store) (entityId : Id) (limit : Nat) : List Memory :=
  (sortBy Memory.createdAt (s.activeMemories entityId)).take limit

def distillMemoryCandidates (s : Store) (entityId : Id) : List CapabilityCandidate :=
  (oldestMemories s entityId 10).map (memoryCandidate lower)

/-- `_route_learning_directive` of an entity it has found. -/
def distillDirective (s : Store) (target : Entity) : List CapabilityMarketEntry × Store :=
  upsertCapabilities s ((distillMemoryCandidates lower s target.id).map (distillDraft s target))

/-- The distill flow that the router calls. -/
def distiller (s : Store) : Routing.Distiller := fun target =>
  .ok ((distillDirective lower s target).1.map fun cap => (cap.name, String.ofList cap.type))

end

/-! The endpoint. -/

structure DistillRequest where
  memoryKindFilter : Option (List Str)
  sourcePresetSlug : Option Str

/-- The entries of the kinds asked for; an empty list of kinds asks for all. -/
def DistillRequest.select (request : DistillRequest) (entries : List Memory) : List Memory :=
  match request.memoryKindFilter with
  | none | some [] => entries
  | some kinds => entries.filter fun e => kinds.contains e.kind

structure AggregatedMemoryCount where
  experience : Nat
  lesson : Nat
  decision : Nat
  problem : Nat
  notepad : Nat
  total : Nat

structure DistillResult where
  capabilityCandidates : List CapabilityCandidate
  geneSuggestion : Option Str
  aggregatedMemory : AggregatedMemoryCount
  sourceEntityId : Id
  sourcePresetSlug : Option Str

/-- `^[a-z][a-z0-9-]+$`, where `$` also stands before a last newline. -/
def isKebabCase (value : Str) : Bool :=
  match if value.getLast? = some '\n' then value.dropLast else value with
  | [] => false
  | c :: rest =>
    pythonText.isLower c && !rest.isEmpty && rest.all fun c => isSlugChar c || c = '-'

def truncateContent (text : Str) (maxChars : Nat) : Str :=
  if text.length ≤ maxChars then text else text.take maxChars ++ "...".toList

def extractKeyPrefix (key : Str) : Str := key.takeWhile (· ≠ '-')

def ofKind (kind : String) (e : Memory) : Bool := e.kind = kind.toList

def aggregateMemoryCounts (entries : List Memory) : AggregatedMemoryCount :=
  let count (kind : String) := entries.countP (ofKind kind)
  { experience := count "experience"
    lesson := count "lesson"
    decision := count "decision"
    problem := count "problem"
    notepad := count "notepad"
    total := count "experience" + count "lesson" + count "decision" + count "problem" +
      count "notepad" }

def isCandidateSource (e : Memory) : Bool := ofKind "lesson" e || ofKind "decision" e

/-- The key under which an entry is distilled. -/
def candidateKey? (e : Memory) : Option Str :=
  if isCandidateSource e then (truthy e.key).filter isKebabCase else none

def capabilityCandidate (e : Memory) (key : Str) : CapabilityCandidate where
  name := key
  type := "skill".toList
  description := some (truncateContent ((truthy e.content).getD key) 200)
  requiredKnowledge :=
    some (if (extractKeyPrefix key).isEmpty then [] else [extractKeyPrefix key])

def MAX_COMMANDS : Nat := 10

/-- The loop over the entries, with the candidates it has found. -/
def capabilityCandidates (candidates : List CapabilityCandidate) :
    List Memory → List CapabilityCandidate
  | [] => candidates
  | e :: entries =>
    match candidateKey? e with
    | none => capabilityCandidates candidates entries
    | some key =>
      if candidates.any fun c => c.name = key then capabilityCandidates candidates entries
      else if MAX_COMMANDS ≤ candidates.length + 1 then candidates ++ [capabilityCandidate e key]
      else capabilityCandidates (candidates ++ [capabilityCandidate e key]) entries

def countPrefix (counts : List (Str × Nat)) (e : Memory) : List (Str × Nat) :=
  match if isCandidateSource e then (truthy e.key).map extractKeyPrefix else none with
  | none | some [] => counts
  | some p => Market.setItem counts p (((counts.find? fun kv => kv.1 = p).map Prod.snd).getD 0 + 1)

def prefixCounts (entries : List Memory) : List (Str × Nat) := entries.foldl countPrefix []

/-- `max(counts, key=counts.get)`, the first of the greatest. -/
def geneSuggestion (counts : List (Str × Nat)) : Option Str :=
  (counts.foldl
    (fun (best : Option (Str × Nat)) kv =>
      if best.any fun b => kv.2 ≤ b.2 then best else some kv) none).map Prod.fst

/-- The entries of an entity without order are read as `scan`. -/
def distill (s : Store) (scan : List Memory) (entityId : Id) (request : DistillRequest) :
    Except Failure DistillResult :=
  match s.entities.find? entityId with
  | none => .error (.eyot (NotFoundError "entity.not_found" "errors.entity.not_found"
      s!"Entity '{entityId}' not found"))
  | some _ =>
    let entries := request.select scan
    if entries.isEmpty then
      .error (.eyot (ValidationError "learning.no_memory" "errors.learning.no_memory"
        "No memory entries for distillation"))
    else .ok {
      capabilityCandidates := capabilityCandidates [] entries
      geneSuggestion := geneSuggestion (prefixCounts entries)
      aggregatedMemory := aggregateMemoryCounts entries
      sourceEntityId := entityId
      sourcePresetSlug := request.sourcePresetSlug }

structure DistillResultOut where
  capabilityCandidates : List CapabilityMarketEntry
  capabilityMarketCreated : Nat
  geneSuggestion : Option Str
  aggregatedMemory : AggregatedMemoryCount
  sourceEntityId : Id
  sourcePresetSlug : Option Str

/-- The names among the candidates that are counted as created. -/
def countCreated (existingNames : List Str) : List CapabilityCandidate → Nat
  | [] => 0
  | c :: cs =>
    if existingNames.contains c.name then countCreated existingNames cs
    else countCreated (existingNames ++ [c.name]) cs + 1

/-- `distill_entity` with the heuristic engine; `permission` is what the check of the caller's
role comes to. -/
def distillEntity (permission : Except Failure Unit) (s : Store) (scan : List Memory)
    (entityId : Id) (request : DistillRequest) : Except Failure (DistillResultOut × Store) :=
  match s.activeEntity? entityId with
  | none => .error (.eyot (NotFoundError "entity.not_found" "errors.entity.not_found"
      s!"Entity '{entityId}' not found"))
  | some emp => do
    permission
    let result ← distill s scan entityId request
    let names := result.capabilityCandidates.map CapabilityCandidate.name
    let existing := (s.market.filter fun e => e.isActive && names.contains e.name).map
      CapabilityMarketEntry.name
    let (created, s) :=
      upsertCapabilities s (result.capabilityCandidates.map (distillDraft s emp))
    return ({
      capabilityCandidates := created
      capabilityMarketCreated := countCreated existing result.capabilityCandidates
      geneSuggestion := result.geneSuggestion
      aggregatedMemory := result.aggregatedMemory
      sourceEntityId := entityId
      sourcePresetSlug := result.sourcePresetSlug }, s)

end Eyot.Learning
