import Eyot.Brainstem.Runner

/-! The requests that create and delete schedules and what they belong to, and ticks between
them. -/

namespace Eyot.Brainstem

open Market (Namespace)

/-- Who sends a request: the atoms that are asked for are granted to them or not. -/
structure Caller where
  superAdmin : Bool
  granted : Bool

structure BrainstemScheduleCreate where
  cronExpr : Str
  actionPayload : Option JsonObject
  enabled : Bool

/-- A field that is not sent is `none`; any may be sent as null. -/
structure BrainstemScheduleUpdate where
  cronExpr : Option (Option Str)
  actionPayload : Option (Option JsonObject)
  enabled : Option (Option Bool)

/-- The ids of new rows and the time come with the request. -/
inductive Move where
  | createNamespace (ns : Namespace)
  | deleteNamespace (id : Id)
  | createWorkspace (id namespaceId hubId : Id)
  | deleteWorkspace (id : Id) (now : Time)
  | createInstance (i : Instance)
  | deleteInstance (c : Caller) (id : Id) (now : Time)
  | deleteMembership (instanceId : Id) (now : Time)
  | createHub (workspaceId hubId : Id)
  | createSchedule (c : Caller) (workspaceId hubId id : Id) (body : BrainstemScheduleCreate)
      (now : Time)
  | updateSchedule (c : Caller) (workspaceId hubId id : Id) (body : BrainstemScheduleUpdate)
      (now : Time)
  | deleteSchedule (c : Caller) (workspaceId hubId id : Id)
  | tick (now : Time) (locked : List Id)

namespace Db

variable (db : Db)

def activeWorkspace? (id : Id) : Option Workspace :=
  (db.workspaces.find? id).filter fun w => w.deletedAt.isNone

def activeNamespace? (id : Id) : Option Namespace :=
  (db.namespaces.find? id).filter fun n => !n.deleted

def activeInstance? (id : Id) : Option Instance :=
  (db.instances.find? id).filter fun i => i.deletedAt.isNone

/-- A super-admin passes whatever the workspace is; others are checked where it is. -/
def requireWorkspacePermission (c : Caller) (workspaceId : Id) : Bool :=
  c.superAdmin || c.granted && (db.activeWorkspace? workspaceId).any fun w =>
    (db.activeNamespace? w.namespaceId).isSome

def createWorkspace (id namespaceId hubId : Id) : Option Db := do
  let workspaces ← db.workspaces.insert? ⟨id, namespaceId, none⟩
  let hubs ← db.hubs.insert? ⟨hubId, id, false⟩
  return { db with workspaces := workspaces, hubs := hubs }

/-- The instances and the hubs of the workspace go with it; its schedules stay. -/
def deleteWorkspace (id : Id) (now : Time) : Option Db := do
  let _ ← db.activeWorkspace? id
  return { db with
    instances := db.instances.updateWhere (fun i => i.workspaceId = id && i.deletedAt.isNone)
      (fun i => { i with deletedAt := some now }) fun _ => rfl
    hubs := db.hubs.updateWhere (fun h => h.workspaceId = id && !h.deleted)
      (fun h => { h with deleted := true }) fun _ => rfl
    workspaces := db.workspaces.update id (fun w => { w with deletedAt := some now }) fun _ => rfl }

def removeInstance (id : Id) (now : Time) : Db :=
  { db with
    instances := db.instances.update id
      (fun i => { i with status := .deleting, deletedAt := some now }) fun _ => rfl }

def deleteInstance (c : Caller) (id : Id) (now : Time) : Option Db := do
  let i ← db.activeInstance? id
  if db.requireWorkspacePermission c i.workspaceId && i.status ≠ .deleting then
    return db.removeInstance id now
  else none

/-- With the seat goes the instance that has it. -/
def deleteMembership (instanceId : Id) (now : Time) : Option Db :=
  (db.activeInstance? instanceId).map fun i => db.removeInstance i.id now

def getOrCreateCentralHub (workspaceId newId : Id) : Option (CentralHub × Db) :=
  match db.hubs.rows.find? fun h => h.workspaceId = workspaceId && !h.deleted with
  | some hub => some (hub, db)
  | none =>
    if (db.workspaces.find? workspaceId).isSome then
      (db.hubs.insert? ⟨newId, workspaceId, false⟩).map fun hubs =>
        (⟨newId, workspaceId, false⟩, { db with hubs := hubs })
    else none

def activeSchedule? (hub : CentralHub) (id : Id) : Option BrainstemSchedule :=
  (db.schedules.find? id).filter fun s => decide (s.centralHubId = hub.id) && !s.deleted

end Db

section

variable {ν : Type} (X : Outside ν)

/-- The row with the fields that are sent; `none` where one of them must not be null. -/
def BrainstemScheduleUpdate.apply (body : BrainstemScheduleUpdate) (now : Time)
    (s : BrainstemSchedule) : Option BrainstemSchedule := do
  let cronExpr ← body.cronExpr.getD (some s.cronExpr)
  let enabled ← body.enabled.getD (some s.enabled)
  let next ← if body.cronExpr.isSome then (computeNextRunAt X cronExpr now).toOption
    else some s.nextRunAt
  return { s with
    cronExpr := cronExpr
    actionPayload := body.actionPayload.getD s.actionPayload
    enabled := enabled
    nextRunAt := next }

namespace Db

variable (db : Db)

def createSchedule (c : Caller) (workspaceId hubId id : Id) (body : BrainstemScheduleCreate)
    (now : Time) : Option Db :=
  if db.requireWorkspacePermission c workspaceId then do
    let (hub, db) ← db.getOrCreateCentralHub workspaceId hubId
    let next ← (computeNextRunAt X body.cronExpr now).toOption
    let schedules ← db.schedules.insert?
      ⟨id, hub.id, body.cronExpr, body.actionPayload, body.enabled, none, next, false⟩
    return { db with schedules := schedules }
  else none

/-- The row as it is written, in place of the one with its id. -/
def putSchedule (s : BrainstemSchedule) : Db :=
  { db with
    schedules := db.schedules.updateWhere (fun r => r.id = s.id)
      (fun r => if r.id = s.id then s else r) fun r => by split <;> simp_all }

def updateSchedule (c : Caller) (workspaceId hubId id : Id) (body : BrainstemScheduleUpdate)
    (now : Time) : Option Db :=
  if db.requireWorkspacePermission c workspaceId then do
    let (hub, db) ← db.getOrCreateCentralHub workspaceId hubId
    let s ← db.activeSchedule? hub id
    let s ← body.apply X now s
    return db.putSchedule s
  else none

def deleteSchedule (c : Caller) (workspaceId hubId id : Id) : Option Db :=
  if db.requireWorkspacePermission c workspaceId then do
    let (hub, db) ← db.getOrCreateCentralHub workspaceId hubId
    let s ← db.activeSchedule? hub id
    return db.putSchedule { s with deleted := true }
  else none

end Db

end

section

variable {ν : Type} [LinearOrder ν] (X : Outside ν)

/-- What a request commits; `none` where it is refused. -/
def Db.request (db : Db) : Move → Option Db
  | .createNamespace ns =>
    (db.namespaces.insert? ns).map fun namespaces => { db with namespaces := namespaces }
  | .deleteNamespace id =>
    some { db with
      namespaces := db.namespaces.update id (fun n => { n with deleted := true }) fun _ => rfl }
  | .createWorkspace id namespaceId hubId => db.createWorkspace id namespaceId hubId
  | .deleteWorkspace id now => db.deleteWorkspace id now
  | .createInstance i =>
    (db.instances.insert? i).map fun instances => { db with instances := instances }
  | .deleteInstance c id now => db.deleteInstance c id now
  | .deleteMembership instanceId now => db.deleteMembership instanceId now
  | .createHub workspaceId hubId => (db.getOrCreateCentralHub workspaceId hubId).map Prod.snd
  | .createSchedule c workspaceId hubId id body now =>
    db.createSchedule X c workspaceId hubId id body now
  | .updateSchedule c workspaceId hubId id body now =>
    db.updateSchedule X c workspaceId hubId id body now
  | .deleteSchedule c workspaceId hubId id => db.deleteSchedule c workspaceId hubId id
  | .tick now locked => some (tick X db now locked)

def step (db : Db) (m : Move) : Db := (db.request X m).getD db

end

end Eyot.Brainstem
