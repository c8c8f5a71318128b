import Eyot.Data.Errors
import Eyot.Data.Rows
import Eyot.Library.FirstWins
import Eyot.Library.Grouped
import Eyot.Library.Table
import Mathlib.Data.Prod.Lex

/-! The legacy agents of the hubs are made into entities and instances. -/

namespace Eyot.Cerebellum

structure CerebellumAgent where
  id : Id
  centralHubId : Id
  baseSlug : Str
  systemPrompt : Option Str
  loopStatus : Str
  heartbeatAt : Option Time
  name : Str
  createdAt : Time
  deletedAt : Option Time

structure CentralHub where
  id : Id
  workspaceId : Id
  deletedAt : Option Time

structure Entity where
  id : Id
  namespaceId : Id
  name : Str
  slug : Str
  presetSlug : Option Str
  systemPrompt : Option Str
  isCerebellum : Bool
  deletedAt : Option Time

/-- The audit event of an agent that another one came before. -/
structure MergedEvent where
  id : Id
  type : String
  actorType : String
  resourceType : String
  resourceId : Id
  agentId : Id
  namespaceId : Id
  workspaceId : Id

def CerebellumAgent.isLive (a : CerebellumAgent) : Bool := a.deletedAt.isNone

def Entity.isActive (e : Entity) : Bool := e.deletedAt.isNone

def Entity.place (e : Entity) : Id × Str := (e.namespaceId, e.slug)

def Entity.isActiveCerebellum (e : Entity) : Bool := e.isCerebellum && e.deletedAt.isNone

def isActiveInstance (i : Instance) : Bool := i.deletedAt.isNone

def placeOfInstance (i : Instance) : Id × Id := (i.workspaceId, i.entityId)

/-- The partial unique indexes of entities and instances; a namespace id is no empty text. -/
structure Db where
  agents : Table CerebellumAgent.id
  hubs : Table CentralHub.id
  workspaces : Table Workspace.id
  entities : Table Entity.id
  instances : Table Instance.id
  events : Table MergedEvent.id
  uniqueSlug : UniqueOn Entity.isActive Entity.place entities.rows
  uniqueCerebellum : UniqueOn Entity.isActiveCerebellum Entity.namespaceId entities.rows
  uniqueInstance : UniqueOn isActiveInstance placeOfInstance instances.rows
  namespaceIds : ∀ w ∈ workspaces.rows, w.namespaceId ≠ ""

namespace Db

variable (db : Db)

def insertEntity (e : Entity) : Except Failure Db :=
  match db.entities.insert? e with
  | none => .error .integrityError
  | some t =>
    if hunique : UniqueOn Entity.isActive Entity.place t.rows ∧
        UniqueOn Entity.isActiveCerebellum Entity.namespaceId t.rows then
      .ok { db with entities := t, uniqueSlug := hunique.1, uniqueCerebellum := hunique.2 }
    else .error .integrityError

def insertInstance (i : Instance) : Except Failure Db :=
  match db.instances.insert? i with
  | none => .error .integrityError
  | some t =>
    if hunique : UniqueOn isActiveInstance placeOfInstance t.rows then
      .ok { db with instances := t, uniqueInstance := hunique }
    else .error .integrityError

def insertEvent (e : MergedEvent) : Except Failure Db :=
  match db.events.insert? e with
  | none => .error .integrityError
  | some t => .ok { db with events := t }

end Db

def LEGACY_STATUS_MAP : List (String × InstanceStatus) :=
  [("running", .running), ("idle", .running), ("restarting", .restarting), ("failed", .failed),
    ("paused", .pending), ("interrupted", .pending), ("completed", .pending)]

def mapLegacyLoopStatus (loopStatus : Str) : InstanceStatus :=
  ((LEGACY_STATUS_MAP.find? fun kv => kv.1.toList = loopStatus).map Prod.snd).getD .creating

def numberedSlug (base : Str) (n : Nat) : Str := base ++ '-' :: (toString (n + 2)).toList

def uniqueSlug (db : Db) (namespaceId : Id) (base : Str) : Str :=
  let existing := (db.entities.rows.filter fun e =>
    e.namespaceId = namespaceId && e.deletedAt.isNone).map Entity.slug
  if existing.contains base then firstFree existing (numberedSlug base) else base

/-- `v or d`. -/
def textOr (v d : Str) : Str := if v = [] then d else v

/-- A text that is there and not empty. -/
def truthy (v : Option Str) : Option Str := v.filter (· ≠ [])

/-- An agent, and where its hub leads. -/
structure Placed where
  agent : CerebellumAgent
  workspaceId : Id
  namespaceId : Id

/-- The workspace may be a deleted one. -/
def placeOf (db : Db) (agent : CerebellumAgent) : Option Placed := do
  let hub ← (db.hubs.find? agent.centralHubId).filter fun h => h.deletedAt.isNone
  let workspace ← db.workspaces.find? hub.workspaceId
  if workspace.namespaceId = "" then none
  else some ⟨agent, hub.workspaceId, workspace.namespaceId⟩

/-- Latest heartbeat, then latest creation, then highest id. -/
def rank (a : CerebellumAgent) : Time ×ₗ Time ×ₗ Id :=
  toLex (a.heartbeatAt.getD 0, toLex (a.createdAt, a.id))

def tiebreak (group : List Placed) : List Placed :=
  sortBy (fun p => OrderDual.toDual (rank p.agent)) group

structure Report where
  scanned : Nat
  entitiesCreated : Nat
  instancesCreated : Nat
  merged : Nat
  orphaned : Nat

/-- What is drawn for an entity by its namespace, and for an instance and an event by the agent. -/
structure Uuids where
  ofEntity : Id → Id
  ofInstance : Id → Id
  ofEvent : Id → Id
  entity_inj : Function.Injective ofEntity
  instance_inj : Function.Injective ofInstance
  event_inj : Function.Injective ofEvent

section

variable (uuids : Uuids) (now : Time)

def newEntity (db : Db) (namespaceId : Id) (winner : CerebellumAgent) : Entity where
  id := uuids.ofEntity namespaceId
  namespaceId := namespaceId
  name := textOr winner.name "cerebellum".toList
  slug := uniqueSlug db namespaceId "cerebellum".toList
  presetSlug := some (textOr winner.baseSlug "cerebellum-baseclass".toList)
  systemPrompt := truthy winner.systemPrompt
  isCerebellum := true
  deletedAt := none

def backfill (winner : CerebellumAgent) (e : Entity) : Entity :=
  if truthy e.systemPrompt = none ∧ truthy winner.systemPrompt ≠ none then
    { e with systemPrompt := winner.systemPrompt }
  else e

theorem backfill_id (winner : CerebellumAgent) (e : Entity) : (backfill winner e).id = e.id := by
  unfold backfill
  split <;> rfl

theorem backfill_place (winner : CerebellumAgent) (e : Entity) :
    (backfill winner e).place = e.place := by
  unfold backfill
  split <;> rfl

theorem backfill_namespaceId (winner : CerebellumAgent) (e : Entity) :
    (backfill winner e).namespaceId = e.namespaceId := by
  unfold backfill
  split <;> rfl

theorem backfill_isActive (winner : CerebellumAgent) (e : Entity) :
    (backfill winner e).isActive = e.isActive := by
  unfold backfill
  split <;> rfl

theorem backfill_isActiveCerebellum (winner : CerebellumAgent) (e : Entity) :
    (backfill winner e).isActiveCerebellum = e.isActiveCerebellum := by
  unfold backfill
  split <;> rfl

def Db.backfillEntity (db : Db) (id : Id) (winner : CerebellumAgent) : Db :=
  { db with
    entities := db.entities.update id (backfill winner) (backfill_id winner)
    uniqueSlug := by
      refine db.uniqueSlug.map ?_ ?_
      · intro e _ h
        split at h
        · exact backfill_isActive winner e ▸ h
        · exact h
      · intro e _ e' _ _ _ h
        have hplace : ∀ e, (if decide (e.id = id) then backfill winner e else e).place = e.place := by
          intro e
          split
          · exact backfill_place winner e
          · rfl
        rwa [hplace, hplace] at h
    uniqueCerebellum := by
      refine db.uniqueCerebellum.map ?_ ?_
      · intro e _ h
        split at h
        · exact backfill_isActiveCerebellum winner e ▸ h
        · exact h
      · intro e _ e' _ _ _ h
        have hns : ∀ e, (if decide (e.id = id) then backfill winner e else e).namespaceId =
            e.namespaceId := by
          intro e
          split
          · exact backfill_namespaceId winner e
          · rfl
        rwa [hns, hns] at h }

/-- The cerebellum of a namespace. -/
def cerebellumOf? (db : Db) (namespaceId : Id) : Option Entity :=
  db.entities.rows.find? fun e => e.namespaceId = namespaceId && e.isActiveCerebellum

/-- The entity of a namespace, and whether it has been made. -/
def ensureEntity (db : Db) (namespaceId : Id) (winner : CerebellumAgent) :
    Except Failure (Db × Id × Bool) :=
  match cerebellumOf? db namespaceId with
  | none => do
    let db' ← db.insertEntity (newEntity uuids db namespaceId winner)
    return (db', uuids.ofEntity namespaceId, true)
  | some e => .ok (db.backfillEntity e.id winner, e.id, false)

def newInstance (entityId : Id) (p : Placed) : Instance where
  id := uuids.ofInstance p.agent.id
  entityId := entityId
  workspaceId := p.workspaceId
  status := mapLegacyLoopStatus p.agent.loopStatus
  deletedAt := none

def hasInstance (db : Db) (entityId workspaceId : Id) : Bool :=
  db.instances.rows.any fun i =>
    i.entityId = entityId && i.workspaceId = workspaceId && i.deletedAt.isNone

def ensureInstance (entityId : Id) (p : Placed) (db : Db) : Except Failure Db :=
  if hasInstance db entityId p.workspaceId then .ok db
  else db.insertInstance (newInstance uuids entityId p)

def mergedEvent (entityId : Id) (p : Placed) : MergedEvent where
  id := uuids.ofEvent p.agent.id
  type := "cerebellum.migration_merged"
  actorType := "system"
  resourceType := "entity"
  resourceId := entityId
  agentId := p.agent.id
  namespaceId := p.namespaceId
  workspaceId := p.workspaceId

def recordMerge (entityId winnerId : Id) (p : Placed) (db : Db) : Except Failure Db :=
  if p.agent.id = winnerId then .ok db else db.insertEvent (mergedEvent uuids entityId p)

/-- The body of the loop over the agents of a namespace. -/
def migrateAgent (entityId winnerId : Id) (acc : Db × Report) (p : Placed) :
    Except Failure (Db × Report) := do
  let (db, report) := acc
  let db₁ ← ensureInstance uuids entityId p db
  let db₂ ← recordMerge uuids entityId winnerId p db₁
  return (db₂, { report with
    instancesCreated :=
      report.instancesCreated + if hasInstance db entityId p.workspaceId then 0 else 1
    merged := report.merged + if p.agent.id = winnerId then 0 else 1 })

def softDelete (a : CerebellumAgent) : CerebellumAgent := { a with deletedAt := some now }

def deleteAgents (db : Db) (group : List Placed) : Db :=
  { db with
    agents := group.foldl
      (fun agents p => agents.update p.agent.id (softDelete now) fun _ => rfl) db.agents }

/-- The body of the loop over the namespaces; no group is empty. -/
def migrateGroup (acc : Db × Report) (group : Id × List Placed) : Except Failure (Db × Report) :=
  match tiebreak group.2 with
  | [] => .ok acc
  | winner :: rest => do
    let (db, report) := acc
    let (db, entityId, created) ← ensureEntity uuids db group.1 winner.agent
    let report := if created then { report with entitiesCreated := report.entitiesCreated + 1 }
      else report
    let (db, report) ← (winner :: rest).foldlM (migrateAgent uuids entityId winner.agent.id)
      (db, report)
    return (deleteAgents now db (winner :: rest), report)

def migrateCerebellum (db : Db) : Except Failure (Db × Report) :=
  let agents := db.agents.rows.filter CerebellumAgent.isLive
  let placed := agents.filterMap (placeOf db)
  let report : Report :=
    { scanned := agents.length
      entitiesCreated := 0
      instancesCreated := 0
      merged := 0
      orphaned := agents.countP fun a => (placeOf db a).isNone }
  (grouped Placed.namespaceId placed).foldlM (migrateGroup uuids now) (db, report)

end

end Eyot.Cerebellum
