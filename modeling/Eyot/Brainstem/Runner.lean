import Eyot.Market.CatalogRequests
import Eyot.Market.Manifest
import Eyot.Routing.MessageRouter

/-! The runner of scheduled tasks: one tick fires every schedule that is due, all of them in one
transaction, through the inject queue. -/

namespace Eyot.Brainstem

open Market (Namespace)
open Market.Manifest (truthy isHashable)
open Routing (DeliveryMode InjectKind)

structure CentralHub where
  id : Id
  workspaceId : Id
  deleted : Bool

structure BrainstemSchedule where
  id : Id
  centralHubId : Id
  cronExpr : Str
  actionPayload : Option JsonObject
  enabled : Bool
  lastRunAt : Option Time
  nextRunAt : Option Time
  deleted : Bool

/-- A row of the inject queue. Which schedule it was queued for is noted beside it. -/
structure Delivery where
  scheduleId : Id
  instanceId : Id
  kind : InjectKind
  deliveryMode : DeliveryMode
  payload : JsonObject
  expiresAt : Time

/-- The payload of `schedule.fired`, beside the schedule that it is about. -/
structure ScheduleFired where
  scheduleId : Id
  cronExpr : Str
  nextRunAt : Option Time

structure Db where
  namespaces : Table Namespace.id
  workspaces : Table Workspace.id
  hubs : Table CentralHub.id
  instances : Table Instance.id
  schedules : Table BrainstemSchedule.id
  queue : List Delivery
  events : List ScheduleFired

/-- What `croniter` raises: an error that is a `ValueError`, or anything else. -/
inductive CronError where
  | valueError
  | other
  deriving DecidableEq

/-- What a tick takes from outside: the number a numeral is read as, `str` of values that are no
texts, and the next time of a cron expression, which comes after the base. -/
structure Outside (ν : Type) where
  number : Str → ν
  str : Json Str → Str
  croniter : Str → Time → Except CronError Time
  croniter_after : ∀ expr base t, croniter expr base = .ok t → base < t

inductive TickFailure where
  | failure (f : Failure)
  | typeError
  | validationError
  | cron
  deriving DecidableEq

/-! One schedule. -/

section Fire

variable {ν : Type} [LinearOrder ν] (X : Outside ν)

/-- `compute_next_run_at`; a malformed expression gives none. -/
def computeNextRunAt (cronExpr : Str) (base : Time) : Except TickFailure (Option Time) :=
  match X.croniter cronExpr base with
  | .ok t => .ok (some t)
  | .error .valueError => .ok none
  | .error .other => .error .cron

/-- `dict(schedule.action_payload or {})` -/
def BrainstemSchedule.payload (s : BrainstemSchedule) : JsonObject := s.actionPayload.getD ⟨[], rfl⟩

def get? (payload : JsonObject) (key : String) : Option (Json Str) := payload.json.get? key.toList

/-- A member that counts as true. -/
def member? (payload : JsonObject) (key : String) : Option (Json Str) :=
  (get? payload key).filter fun v => truthy X.number v

def payloadTldr (payload : JsonObject) : Str :=
  let compact := payload.json.dumpsUnicode.take 200
  if compact.isEmpty then "scheduled task".toList else compact

def instanceIdOf (v : Json Str) : Id :=
  match v with
  | .str s => String.ofList s
  | v => String.ofList (X.str v)

/-- Membership in a set asks for the hash. -/
def deliveryModeOf (payload : JsonObject) : Except TickFailure DeliveryMode :=
  match get? payload "delivery_mode" with
  | none => .ok .wake
  | some v =>
    if isHashable v then
      match v with
      | .str s =>
        if s = "notify".toList then .ok .notify
        else if s = "soft_inject".toList then .ok .softInject
        else .ok .wake
      | _ => .ok .wake
    else .error .typeError

def tldrOf (payload : JsonObject) : Json Str :=
  (member? X payload "tldr").getD (.str (payloadTldr payload))

def textLength : Option (Json Str) → Nat
  | some (.str s) => s.length
  | _ => 0

def listStringLength : Option (Json Str) → Nat
  | some (.arr items) => (items.map fun item => textLength (some item)).sum
  | _ => 0

/-- A report that is no dict has no members. -/
def reportProseLength (report : Json Str) : Nat :=
  listStringLength (report.get? "changes".toList) +
    listStringLength (report.get? "validation".toList) +
    listStringLength (report.get? "blockers".toList)

def computeProseLength (payload : JsonObject) : Nat :=
  textLength (get? payload "text") + textLength (get? payload "body") +
    ((get? payload "report").map reportProseLength).getD 0

/-- `validate_tldr`, whose errors are those of the router. -/
def validateTldr (tldr : Str) (proseLength : Nat) : Except TickFailure Unit :=
  match Routing.validateTldr (some tldr) proseLength with
  | .ok () => .ok ()
  | .error f => .error (.failure f)

/-- `enqueue_inject`; the queue refuses an instance that has no row. -/
def enqueueInject (instances : Table Instance.id) (now : Time) (scheduleId instanceId : Id)
    (mode : DeliveryMode) (payload : JsonObject) (tldr : Json Str) : Except TickFailure Delivery :=
  match tldr with
  | .str tldr => do
    validateTldr tldr 0
    validateTldr tldr (computeProseLength payload)
    if (instances.find? instanceId).isSome then
      .ok ⟨scheduleId, instanceId, .collabInject, mode, payload, now + Routing.defaultTtl⟩
    else .error (.failure .integrityError)
  | _ => .error .validationError

/-- `_fire_schedule`; a schedule without an instance queues nothing. -/
def fireSchedule (instances : Table Instance.id) (now : Time) (s : BrainstemSchedule) :
    Except TickFailure (Option Delivery) :=
  match member? X s.payload "instance_id" with
  | none => .ok none
  | some instanceId => do
    let mode ← deliveryModeOf s.payload
    let d ← enqueueInject instances now s.id (instanceIdOf X instanceId) mode s.payload
      (tldrOf X s.payload)
    return some d

/-! All that are due. -/

def BrainstemSchedule.isDue (now : Time) (s : BrainstemSchedule) : Bool :=
  s.enabled && (s.nextRunAt.any fun t => t ≤ now) && !s.deleted

/-- `FOR UPDATE SKIP LOCKED`; the locked rows are those of other ticks. -/
def dueSchedules (db : Db) (now : Time) (locked : List Id) : List BrainstemSchedule :=
  sortBy (fun s => s.nextRunAt.getD 0)
    (db.schedules.rows.filter fun s => s.isDue now && !locked.contains s.id)

def BrainstemSchedule.ran (now : Time) (next : Option Time) (r : BrainstemSchedule) :
    BrainstemSchedule :=
  { r with lastRunAt := some now, nextRunAt := next }

def Db.fired (db : Db) (now : Time) (s : BrainstemSchedule) (d : Option Delivery)
    (next : Option Time) : Db :=
  { db with
    schedules := db.schedules.update s.id (BrainstemSchedule.ran now next) fun _ => rfl
    queue := db.queue ++ d.toList
    events := db.events ++ [⟨s.id, s.cronExpr, next⟩] }

def fireOne (now : Time) (db : Db) (s : BrainstemSchedule) : Except TickFailure Db := do
  let d ← fireSchedule X db.instances now s
  let next ← computeNextRunAt X s.cronExpr now
  return db.fired now s d next

def fireAll (now : Time) (db : Db) (due : List BrainstemSchedule) : Except TickFailure Db :=
  due.foldlM (fireOne X now) db

/-- `_tick_in_session`, with the number of schedules that it fired. -/
def tickInSession (db : Db) (now : Time) (locked : List Id) : Except TickFailure (Db × Nat) := do
  let due := dueSchedules db now locked
  let db ← fireAll X now db due
  return (db, due.length)

/-- A tick that raises is rolled back, and the loop goes on to the next one. -/
def tick (db : Db) (now : Time) (locked : List Id) : Db :=
  match tickInSession X db now locked with
  | .ok (db, _) => db
  | .error _ => db

end Fire

end Eyot.Brainstem
