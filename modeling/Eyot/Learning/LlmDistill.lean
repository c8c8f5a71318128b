import Eyot.Data.PyJson
import Eyot.Learning.Distill

/-! Distillation by a language model: what the model replies is walked as the JSON of a
manifest, or stands back for a manifest made by heuristics. -/

namespace Eyot.Learning.Llm

abbrev PyValue := Json PyStr

/-- The exceptions that no handler of the endpoint knows. -/
inductive PyError where
  | recursionError | attributeError | typeError | keyError | dbapiError | validationError
  deriving DecidableEq

inductive Raised where
  | eyot (e : EyotError)
  | python (e : PyError)
  deriving DecidableEq

/-! The manifest. -/

def MIN_PROMPT_CHARS : Nat := 50

def MAX_PROMPT_CHARS : Nat := 200

/-- What the loop over the memories has found. -/
structure Gathered where
  commands : List Str
  skills : List Str
  longest : Str

/-- The loop ends with the tenth command. -/
def gather (g : Gathered) : List Memory → Gathered
  | [] => g
  | m :: memories =>
    let kind := if m.kind.isEmpty then "experience".toList else m.kind
    let key := m.key.getD []
    let content := m.content.getD []
    let isNew := (kind = "lesson".toList || kind = "decision".toList) && isKebabCase key &&
      !g.commands.contains key
    let commands := if isNew then g.commands ++ [key] else g.commands
    if isNew && MAX_COMMANDS ≤ commands.length then { g with commands := commands }
    else
      gather
        { commands := commands
          skills :=
            if (extractKeyPrefix key).isEmpty || g.skills.contains (extractKeyPrefix key) then
              g.skills
            else g.skills ++ [extractKeyPrefix key]
          longest :=
            if kind = "lesson".toList && g.longest.length < content.length then content
            else g.longest }
        memories

def texts (ss : List Str) : PyValue := .arr (ss.map fun s => .str (PyStr.ofStr s))

def manifestOf (commands skills : List Str) (prompt : Str) : PyValue :=
  .obj [(py "commands", texts commands), (py "skills", texts skills), (py "tools", .arr []),
    (py "prompt", .str (PyStr.ofStr prompt)), (py "model", .str (py "tbd"))]

def heuristicManifest (memories : List Memory) : PyValue :=
  let g := gather ⟨[], [], []⟩ memories
  manifestOf g.commands (sortBy id g.skills)
    (if MIN_PROMPT_CHARS ≤ g.longest.length then truncateContent g.longest MAX_PROMPT_CHARS else [])

/-- The lines that fence the reply are dropped. -/
def parseResponse (depth : Nat) (content : PyStr) : Except PyJson.LoadsError PyValue :=
  let text := pyText.strip content
  PyJson.loads depth <|
    if pyText.startsWith "```" text then
      pyText.join "\n" ((pyText.lines text).filter fun line => !pyText.startsWith "```" line)
    else text

/-- `LLMDistiller.distill`, with the reply of the model; without memories it is not asked. -/
def distillManifest (depth : Nat) (memories : List Memory) (reply : PyStr) :
    Except PyError PyValue :=
  if memories.isEmpty then .ok (manifestOf [] [] [])
  else
    match parseResponse depth reply with
    | .ok manifest => .ok manifest
    | .error .valueError => .ok (heuristicManifest memories)
    | .error .recursionError => .error .recursionError

/-! From the manifest to candidates. -/

section Python

-- The number a numeral is read as, by which Python compares it, and whether JSON can write it.
variable {ν : Type} [DecidableEq ν] (number : PyStr → ν) (isFinite : ν → Bool)

def truthy : PyValue → Bool
  | .null => false
  | .bool b => b
  | .num t => number t ≠ number (py "0")
  | .str s => !s.isEmpty
  | .arr vs => !vs.isEmpty
  | .obj kvs => !kvs.isEmpty

/-- `v or d`. -/
def orElse (v d : PyValue) : PyValue := if truthy number v then v else d

def isHashable : PyValue → Bool
  | .arr _ | .obj _ => false
  | _ => true

/-- What Python finds a name by; `True` is the number one. -/
def nameKey : PyValue → PyStr ⊕ ν
  | .str s => .inl s
  | .num t => .inr (number t)
  | .bool true => .inr (number (py "1"))
  | .bool false => .inr (number (py "0"))
  | _ => .inl []

def member (kvs : List (PyStr × PyValue)) (k : String) : PyValue :=
  (Dict.get? kvs (py k)).getD .null

/-- `manifest.get(k)`. -/
def pyGet (manifest : PyValue) (k : String) : Except PyError PyValue :=
  match manifest with
  | .obj kvs => .ok (member kvs k)
  | _ => .error .attributeError

/-- `(v or [])[:10]`; the characters of a text are texts. -/
def firstTen (v : PyValue) : Except PyError (List PyValue) :=
  match orElse number v (.arr []) with
  | .arr vs => .ok (vs.take 10)
  | .str s => .ok ((s.take 10).map fun c => .str [c])
  | .obj _ => .error .keyError
  | _ => .error .typeError

/-- `v[0] if v else None`. -/
def firstOf (v : PyValue) : Except PyError PyValue :=
  if truthy number v then
    match v with
    | .arr (w :: _) => .ok w
    | .str (c :: _) => .ok (.str [c])
    | .obj _ => .error .keyError
    | _ => .error .typeError
  else .ok .null

structure LlmCandidate where
  name : PyValue
  type : Str
  description : Option PyValue
  configTemplate : Option PyValue
  requiredKnowledge : List Str

def commandCandidate (name : PyValue) : LlmCandidate := ⟨name, "command".toList, none, none, []⟩

def toolCandidate (name : PyValue) : LlmCandidate := ⟨name, "tool".toList, none, none, []⟩

def skillCandidate (prompt name : PyValue) : LlmCandidate where
  name := name
  type := "skill".toList
  description := if truthy number prompt then some prompt else none
  configTemplate := if truthy number prompt then some (.obj [(py "prompt", prompt)]) else none
  requiredKnowledge := []

def addCandidates (make : PyValue → LlmCandidate) (candidates : List LlmCandidate) :
    List PyValue → Except PyError (List LlmCandidate)
  | [] => .ok candidates
  | name :: names =>
    if truthy number name then
      if isHashable name then
        if candidates.any fun c => nameKey number c.name = nameKey number name then
          addCandidates make candidates names
        else addCandidates make (candidates ++ [make name]) names
      else .error .typeError
    else addCandidates make candidates names

def manifestToCandidates (manifest : PyValue) : Except PyError (List LlmCandidate) := do
  let prompt := orElse number (← pyGet manifest "prompt") (.str [])
  let commands ← addCandidates number commandCandidate []
    (← firstTen number (← pyGet manifest "commands"))
  let skills ← addCandidates number (skillCandidate number prompt) commands
    (← firstTen number (← pyGet manifest "skills"))
  addCandidates number toolCandidate skills (← firstTen number (← pyGet manifest "tools"))

structure LlmResult where
  capabilityCandidates : List LlmCandidate
  geneSuggestion : PyValue
  aggregatedMemory : AggregatedMemoryCount
  sourceEntityId : Id
  sourcePresetSlug : Option Str

def resultFromLlmManifest (entries : List Memory) (entityId : Id) (request : DistillRequest)
    (manifest : PyValue) : Except Raised LlmResult :=
  if entries.isEmpty then
    .error (.eyot (ValidationError "learning.no_memory" "errors.learning.no_memory"
      "No memory entries for distillation"))
  else Except.mapError Raised.python do
    let skills := orElse number (← pyGet manifest "skills") (.arr [])
    return {
      capabilityCandidates := ← manifestToCandidates number manifest
      geneSuggestion := ← firstOf number skills
      aggregatedMemory := aggregateMemoryCounts entries
      sourceEntityId := entityId
      sourcePresetSlug := request.sourcePresetSlug }

/-! Persistence. -/

/-- A parameter for a text column. -/
def textColumn : PyValue → Except PyError Str
  | .str t => if t.isStorable then .ok t.toStr else .error .dbapiError
  | _ => .error .dbapiError

def nullableColumn : Option PyValue → Except PyError (Option Str)
  | none => .ok none
  | some v => (textColumn v).map some

mutual
/-- A JSONB column takes the value. -/
def jsonbTakes : PyValue → Bool
  | .null | .bool _ => true
  | .num t => isFinite (number t)
  | .str t => t.isStorable
  | .arr vs => jsonbTakesAll vs
  | .obj kvs => jsonbTakesMembers kvs

def jsonbTakesAll : List PyValue → Bool
  | [] => true
  | v :: vs => jsonbTakes v && jsonbTakesAll vs

def jsonbTakesMembers : List (PyStr × PyValue) → Bool
  | [] => true
  | (k, v) :: kvs => k.isStorable && jsonbTakes v && jsonbTakesMembers kvs
end

/-- A row of `capability_market` with its configuration. -/
structure ConfiguredEntry extends CapabilityMarketEntry where
  configTemplate : Option PyValue

def ConfiguredEntry.isLive (e : ConfiguredEntry) : Bool := e.isActive

/-- `uniqueName` is `uq_capability_market_name`. -/
structure CapabilityMarket where
  rows : List ConfiguredEntry
  uniqueName : UniqueOn ConfiguredEntry.isLive (fun e => e.name) rows

/-- Of the entity whose memory is distilled. -/
structure Origin where
  organizationId : Option Id
  slug : Str

def NAME_LENGTH : Nat := 255

def newRow (origin : Origin) (c : LlmCandidate) : Except PyError ConfiguredEntry := do
  let name ← textColumn c.name
  let description ← nullableColumn c.description
  if NAME_LENGTH < name.length then .error .dbapiError
  else if c.configTemplate.any fun v => !jsonbTakes number isFinite v then .error .dbapiError
  else return {
    name := name
    type := if Market.MIRROR_TYPES.contains c.type then c.type else "skill".toList
    scope := scopeOf origin.organizationId
    organizationId := origin.organizationId
    namespaceId := none
    description := description
    requiredKnowledge := some c.requiredKnowledge
    createdVia := .distill
    sourceEntitySlug := some origin.slug
    deleted := false
    configTemplate := c.configTemplate }

def upsert (origin : Origin) (market : CapabilityMarket) (c : LlmCandidate) :
    Except PyError (ConfiguredEntry × CapabilityMarket) := do
  let name ← textColumn c.name
  match firstUnder ConfiguredEntry.isLive (fun e => e.name) market.rows name with
  | some cap => return (cap, market)
  | none =>
    let cap ← newRow number isFinite origin c
    let r := getOrAdd ConfiguredEntry.isLive (fun e => e.name) market.rows cap
    return (r.1, ⟨r.2, market.uniqueName.getOrAdd cap⟩)

def upsertAll (origin : Origin) (market : CapabilityMarket) :
    List LlmCandidate → Except PyError (List ConfiguredEntry × CapabilityMarket)
  | [] => .ok ([], market)
  | c :: cs => do
    let (cap, market) ← upsert number isFinite origin market c
    let (caps, market) ← upsertAll origin market cs
    return (cap :: caps, market)

/-- The names that are counted as created. -/
def countNew (existing : List Str) : List Str → Nat
  | [] => 0
  | name :: names =>
    if existing.contains name then countNew existing names
    else countNew (existing ++ [name]) names + 1

/-- The field `gene_suggestion` of the response. -/
def geneField : PyValue → Except PyError (Option PyStr)
  | .null => .ok none
  | .str t => .ok (some t)
  | _ => .error .validationError

structure LlmDistillOut where
  capabilityCandidates : List ConfiguredEntry
  capabilityMarketCreated : Nat
  geneSuggestion : Option PyStr
  aggregatedMemory : AggregatedMemoryCount
  sourceEntityId : Id
  sourcePresetSlug : Option Str

/-- The second half of `distill_entity`: the rows, the event and the response. -/
def persist (origin : Origin) (market : CapabilityMarket) (result : LlmResult) :
    Except PyError (LlmDistillOut × CapabilityMarket) := do
  let names ← result.capabilityCandidates.mapM fun c => textColumn c.name
  let existing := (market.rows.filter fun e => e.isLive && names.contains e.name).map
    fun e => e.name
  let (caps, market) ← upsertAll number isFinite origin market result.capabilityCandidates
  if !jsonbTakes number isFinite result.geneSuggestion then .error .dbapiError
  else
    return ({
      capabilityCandidates := caps
      capabilityMarketCreated := countNew existing names
      geneSuggestion := ← geneField result.geneSuggestion
      aggregatedMemory := result.aggregatedMemory
      sourceEntityId := result.sourceEntityId
      sourcePresetSlug := result.sourcePresetSlug }, market)

/-- The engine `llm` of `distill_entity`, up to its result. -/
def distillByLlm (depth : Nat) (entries : List Memory) (entityId : Id) (request : DistillRequest)
    (reply : PyStr) : Except Raised LlmResult := do
  let manifest ← (distillManifest depth entries reply).mapError Raised.python
  resultFromLlmManifest number entries entityId request manifest

end Python

end Eyot.Learning.Llm
