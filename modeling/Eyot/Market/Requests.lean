import Eyot.Market.CatalogRequests

/-! The requests that write entities, and all requests one after the other. -/

namespace Eyot.Market

/-- A field that is not sent is `none`. -/
structure EntityPatch where
  slug : Option Str
  name : Option Str
  presetSlug : Option (Option Str)
  systemPrompt : Option (Option Str)
  isCerebellum : Option Bool

def EntityPatch.apply (p : EntityPatch) (e : Entity) : Entity :=
  { e with
    slug := p.slug.getD e.slug
    name := p.name.getD e.name
    presetSlug := p.presetSlug.getD e.presetSlug
    systemPrompt := p.systemPrompt.getD e.systemPrompt
    isCerebellum := p.isCerebellum.getD e.isCerebellum }

theorem EntityPatch.apply_id (p : EntityPatch) : ∀ e, (p.apply e).id = e.id := fun _ => rfl

def Entity.softDelete (e : Entity) : Entity := { e with deleted := true }

theorem Entity.softDelete_id : ∀ e : Entity, e.softDelete.id = e.id := fun _ => rfl

def LEGACY_PRESET_ALIASES : List (Str × Str) :=
  [("mi-shi".toList, "fox".toList), ("an-xing".toList, "beaver".toList),
    ("an-ying".toList, "sparrow".toList), ("zhu-jin".toList, "coyote".toList),
    ("jiu-ri".toList, "lion".toList)]

namespace State

variable (s : State)

/-- `registry.get(slug)` finds a base class. -/
def registered (slug : Str) : Bool :=
  s.registry.contains slug ||
    LEGACY_PRESET_ALIASES.any fun (legacy, animal) =>
      legacy = slug && s.registry.contains animal || animal = slug && s.registry.contains legacy

def reload : State :=
  { s with registry := (s.catalog.baseClasses.rows.filter fun b => !b.deleted).map BaseClass.slug }

def insertEntity (e : Entity) : Option State :=
  if s.catalog.Unused e.id then
    (s.entities.insert? e).map fun entities => { s with entities := entities }
  else none

/-- Another entity of the namespace is its cerebellum. -/
def cerebellumTaken (namespaceId id : Id) : Bool :=
  s.entities.rows.any fun e =>
    !e.deleted && decide (e.namespaceId = namespaceId) && e.isCerebellum && decide (e.id ≠ id)

end State

/-- An entity as `create_entity` builds it, before it is hashed. -/
structure NewEntity where
  id : Id
  namespaceId : Id
  name : Str
  slug : Str
  presetSlug : Option Str
  systemPrompt : Option Str
  isCerebellum : Bool

def NewEntity.row (n : NewEntity) : Entity :=
  ⟨n.id, n.namespaceId, n.name, n.slug, n.presetSlug, n.systemPrompt, n.isCerebellum, none, false⟩

section

variable (sha : Str → Str) (s : State)

def createEntity (n : NewEntity) : Option State :=
  if (truthy n.presetSlug).any (fun slug => !s.registered slug) ∨
      s.slugTaken n.namespaceId n.slug ∨
      n.isCerebellum ∧ s.cerebellumTaken n.namespaceId n.id then none
  else (s.insertEntity ((hashes sha).refresh s.catalog n.row)).map State.reload

/-- The guards of `update_entity`; `referenced` says that an instance or a message refers to the
slug of the entity. -/
def patchAccepted (e : Entity) (patch : EntityPatch) (referenced : Bool) : Bool :=
  (patch.presetSlug.join.all fun slug => s.registered slug) &&
    !(patch.isCerebellum = some true && !e.isCerebellum && s.cerebellumTaken e.namespaceId e.id) &&
    patch.slug.all fun slug =>
      slug = e.slug || !s.slugTaken e.namespaceId slug && !referenced

def updateEntity (id : Id) (patch : EntityPatch) (referenced : Bool) : Option State :=
  match s.activeEntity? id with
  | none => none
  | some e =>
    if patchAccepted s e patch referenced then
      some (State.reload { s with entities := s.entities.update id patch.apply patch.apply_id })
    else none

/-- Refused while the entity has instances. -/
def deleteEntity (id : Id) (hasInstances : Bool) : Option State :=
  match s.activeEntity? id with
  | none => none
  | some _ =>
    if hasInstances then none
    else some (State.reload
      { s with entities := s.entities.update id Entity.softDelete Entity.softDelete_id })

theorem refresh_id (c : Catalog) : ∀ e, ((hashes sha).refresh c e).id = e.id := fun _ => rfl

/-- The back-fill of `create_instance`. -/
def introduce (id : Id) : Option State :=
  match s.activeEntity? id with
  | none => none
  | some e =>
    if (truthy e.migrationHash).isSome then some s
    else some
      { s with
        entities := s.entities.update id ((hashes sha).refresh s.catalog)
          (refresh_id sha s.catalog) }

/-- The reaped capabilities of an instance that are new to the entity. -/
def newCapabilities (existing reaped : List CapDict) : List CapDict :=
  let reaped := if reaped.isEmpty then existing else reaped
  (reaped.foldl
    (fun (acc : List Str × List CapDict) cap =>
      if cap.name.isEmpty || acc.1.contains cap.name then acc else (acc.1 ++ [cap.name], acc.2 ++ [cap]))
    ((existing.map CapDict.name).filter fun name => name ≠ [], [])).2

def joinNames (separator : Str) (names : List Str) : Str := separator.intercalate names

/-- The prompt that a promotion writes. -/
def regeneratedPrompt (e : Entity) (caps : List CapDict) : Str :=
  let names := sortBy id ((caps.map CapDict.name).filter fun name => name ≠ []).dedup
  let seed := (sha (e.slug ++ '|' :: joinNames ",".toList names)).take 12
  "你是眷族「".toList ++ e.name ++ "」，由炼化晋升而来（seed=".toList ++ seed ++
    "）。已接入能力：".toList ++ joinNames ", ".toList names ++ "。".toList

def promoted (c : Catalog) (prompt : Option Str) (e : Entity) : Entity :=
  (hashes sha).refresh c { e with systemPrompt := prompt }

theorem promoted_id (c : Catalog) (prompt : Option Str) :
    ∀ e, (promoted sha c prompt e).id = e.id := fun _ => rfl

/-- `promote_entity` in mode `update`. -/
def promoteEntity (id : Id) (reaped : List CapDict) (includePromptRegen : Bool)
    (newIds : Nat → Id) : Option State :=
  match s.activeEntity? id with
  | none => none
  | some e =>
    let existing := s.catalog.loadEntityCapabilityDicts e
    let new := newCapabilities existing reaped
    let prompt := if includePromptRegen then some (regeneratedPrompt sha e (existing ++ new))
      else e.systemPrompt
    (upsertAll s.catalog (s.learnedScope e) (withIds new newIds)).map fun (c, entries) =>
      let c := { c with entityCapabilities := attachAll c.entityCapabilities id entries }
      { s with
        catalog := c
        entities := s.entities.update id (promoted sha c prompt) (promoted_id sha c prompt) }

/-- `promote_entity` in mode `fork`. -/
def forkEntity (id newId : Id) (newName newSlug : Str) (reaped : List CapDict)
    (includePromptRegen : Bool) (newIds : Nat → Id) : Option State :=
  match s.activeEntity? id with
  | none => none
  | some e =>
    if newName = [] ∨ newSlug = [] ∨ s.slugTaken e.namespaceId newSlug then none
    else
      let existing := s.catalog.loadEntityCapabilityDicts e
      let merged := existing ++ newCapabilities existing reaped
      let prompt := if includePromptRegen then some (regeneratedPrompt sha e merged)
        else e.systemPrompt
      let row : Entity := ⟨newId, e.namespaceId, newName, newSlug, e.presetSlug, prompt, false,
        none, false⟩
      match upsertAll s.catalog (s.learnedScope e) (withIds merged newIds) with
      | none => none
      | some (c, entries) =>
        if newId ∈ c.links.map Link.parentId then none
        else
          let c := { c with entityCapabilities := attachAll c.entityCapabilities newId entries }
          (s.entities.insert? ((hashes sha).refresh c row)).map fun entities =>
            { s with catalog := c, entities := entities }

/-! Clones. -/

/-- A row like another one, with links of its own; it is not hashed. -/
def copyEntity (source : Id) (copy : Entity) : Option State :=
  (s.insertEntity copy).map fun s =>
    { s with
      catalog := { s.catalog with
        entityAiGenes := cloneJunction s.catalog.entityAiGenes source copy.id
        entityCapabilities := cloneJunction s.catalog.entityCapabilities source copy.id } }

def cloneEntity (source newId : Id) (newName newSlug : Str) : Option State :=
  match s.activeEntity? source with
  | none => none
  | some e =>
    if s.slugTaken e.namespaceId newSlug then none
    else copyEntity s source { e with
      id := newId, name := newName, slug := newSlug, isCerebellum := false, migrationHash := none }

end

/-- The ids and slugs that a clone of an organization gives its rows, by the ids they are copied
from. -/
structure CloneNames where
  namespaceId : Id → Id
  entityId : Id → Id
  baseClassId : Id → Id
  baseClassSlug : Id → Str

def copyNamespaces (names : CloneNames) (orgId : Id) (table : Table Namespace.id) :
    List Namespace → Option (Table Namespace.id)
  | [] => some table
  | n :: ns =>
    match table.insert? ⟨names.namespaceId n.id, orgId, false⟩ with
    | some table => copyNamespaces names orgId table ns
    | none => none

def copyEntities (names : CloneNames) (s : State) : List Entity → Option State
  | [] => some s
  | e :: es =>
    match copyEntity s e.id { e with
        id := names.entityId e.id
        namespaceId := names.namespaceId e.namespaceId
        migrationHash := none } with
    | some s => copyEntities names s es
    | none => none

def copyClasses (names : CloneNames) (orgId : Id) (c : Catalog) : List BaseClass → Option Catalog
  | [] => some c
  | b :: bs =>
    match copyClass c b.id ⟨names.baseClassId b.id, names.baseClassSlug b.id, b.scope, some orgId,
        false⟩ with
    | some c => copyClasses names orgId c bs
    | none => none

section

variable (s : State) (orgId : Id)

def sourceNamespaces : List Namespace :=
  s.namespaces.rows.filter fun n => !n.deleted && decide (n.orgId = orgId)

def sourceEntities : List Entity :=
  s.entities.rows.filter fun e =>
    !e.deleted && decide (e.namespaceId ∈ (sourceNamespaces s orgId).map Namespace.id)

def sourceClasses : List BaseClass :=
  s.catalog.baseClasses.rows.filter fun b =>
    !b.deleted && decide (b.scope ≠ .system ∧ b.organizationId = some orgId)

def cloneOrganization (newOrgId : Id) (newSlug : Str) (names : CloneNames) : Option State :=
  match (s.organizations.find? orgId).filter fun o => !o.deleted with
  | none => none
  | some _ =>
    if s.organizations.rows.any fun o => !o.deleted && decide (o.slug = newSlug) then none
    else do
      let organizations ← s.organizations.insert? ⟨newOrgId, newSlug, false⟩
      let namespaces ← copyNamespaces names newOrgId s.namespaces (sourceNamespaces s orgId)
      let copied ← copyEntities names { s with organizations, namespaces } (sourceEntities s orgId)
      let catalog ← copyClasses names newOrgId copied.catalog (sourceClasses s orgId)
      return { copied with catalog }

end

/-! One request after the other. -/

inductive Request where
  | catalog (r : CatalogRequest)
  | createEntity (n : NewEntity)
  | updateEntity (id : Id) (patch : EntityPatch) (referenced : Bool)
  | deleteEntity (id : Id) (hasInstances : Bool)
  | introduce (id : Id)
  | promote (id : Id) (reaped : List CapDict) (includePromptRegen : Bool) (newIds : Nat → Id)
  | fork (id newId : Id) (newName newSlug : Str) (reaped : List CapDict)
      (includePromptRegen : Bool) (newIds : Nat → Id)
  | cloneEntity (source newId : Id) (newName newSlug : Str)
  | cloneOrganization (orgId newOrgId : Id) (newSlug : Str) (names : CloneNames)

section

variable (sha : Str → Str) (s : State)

/-- The new catalog, with the hashes that the request computes again. -/
def State.change (change : Change) : State :=
  { s with
    catalog := change.1
    entities := s.entities.updateWhere (fun e => !e.deleted && change.2 e)
      ((hashes sha).refresh change.1) (refresh_id sha change.1) }

/-- `none` where the request is refused. -/
def step? : Request → Option State
  | .catalog r =>
    (r.change? s).map fun change =>
      if r.reloads then (s.change sha change).reload else s.change sha change
  | .createEntity n => createEntity sha s n
  | .updateEntity id patch referenced => updateEntity s id patch referenced
  | .deleteEntity id hasInstances => deleteEntity s id hasInstances
  | .introduce id => introduce sha s id
  | .promote id reaped includePromptRegen newIds =>
    promoteEntity sha s id reaped includePromptRegen newIds
  | .fork id newId newName newSlug reaped includePromptRegen newIds =>
    forkEntity sha s id newId newName newSlug reaped includePromptRegen newIds
  | .cloneEntity source newId newName newSlug => cloneEntity s source newId newName newSlug
  | .cloneOrganization orgId newOrgId newSlug names =>
    cloneOrganization s orgId newOrgId newSlug names

def step (r : Request) : State := (step? sha s r).getD s

end

end Eyot.Market
