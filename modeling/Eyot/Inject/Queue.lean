import Eyot.Library.Paging
import Eyot.Routing.MessageRouter
import Mathlib.Data.Prod.Lex

/-! The inject queue: the rows of `instance_inject_queue` and the calls that move them. -/

namespace Eyot.Inject

open Routing (DeliveryMode InjectKind validateTldr)

inductive InjectStatus where
  | pending | delivered | acked | failed | expired
  deriving DecidableEq

structure InstanceInjectQueue where
  id : Id
  instanceId : Id
  kind : InjectKind
  deliveryMode : DeliveryMode
  payload : Json Str
  status : InjectStatus
  expiresAt : Time
  ackedAt : Option Time
  errorMessage : Option Str
  createdAt : Time
  updatedAt : Time
  deletedAt : Option Time

abbrev Queue := Table InstanceInjectQueue.id

namespace InstanceInjectQueue

def isPending (r : InstanceInjectQueue) : Bool := r.status = .pending && r.deletedAt.isNone

def isOverdue (now : Time) (r : InstanceInjectQueue) : Bool := r.isPending && r.expiresAt ≤ now

def isSelectable (instanceId : Id) (now : Time) (r : InstanceInjectQueue) : Bool :=
  r.instanceId = instanceId && r.isPending && now < r.expiresAt

/-- `ORDER BY created_at, id`. -/
def sortKey (r : InstanceInjectQueue) : Time ×ₗ Id := toLex (r.createdAt, r.id)

def setStatus (status : InjectStatus) (now : Time) (r : InstanceInjectQueue) :
    InstanceInjectQueue :=
  { r with status := status, updatedAt := now }

theorem setStatus_id (status : InjectStatus) (now : Time) (r : InstanceInjectQueue) :
    (r.setStatus status now).id = r.id := rfl

def ack (now : Time) (r : InstanceInjectQueue) : InstanceInjectQueue :=
  { r with status := .acked, ackedAt := some now, updatedAt := now }

theorem ack_id (now : Time) (r : InstanceInjectQueue) : (r.ack now).id = r.id := rfl

def fail (errorMessage : Str) (now : Time) (r : InstanceInjectQueue) : InstanceInjectQueue :=
  { r with status := .failed, errorMessage := some errorMessage, updatedAt := now }

theorem fail_id (errorMessage : Str) (now : Time) (r : InstanceInjectQueue) :
    (r.fail errorMessage now).id = r.id := rfl

def softDelete (now : Time) (r : InstanceInjectQueue) : InstanceInjectQueue :=
  { r with deletedAt := some now, updatedAt := now }

theorem softDelete_id (now : Time) (r : InstanceInjectQueue) : (r.softDelete now).id = r.id := rfl

end InstanceInjectQueue

/-- An audit event of the queue. The actor is the system, the resource the instance; the
payload begins with the queue row, its kind and its mode. -/
structure InjectEvent where
  type : String
  resourceId : Id
  queueId : Id
  kind : InjectKind
  deliveryMode : DeliveryMode
  details : List (String × Json Str)

def harnessInjectRequested : String := "harness.inject_requested"

def harnessInjectApplied : String := "harness.inject_applied"

def harnessInjectFailed : String := "harness.inject_failed"

def InstanceInjectQueue.event (r : InstanceInjectQueue) (type : String)
    (details : List (String × Json Str)) : InjectEvent :=
  ⟨type, r.instanceId, r.id, r.kind, r.deliveryMode, details⟩

inductive QueueError where
  | refused (f : Failure)
  | stringDataRightTruncation

def stringLength (value : Option (Json Str)) : Nat := ((value.bind Json.asStr?).getD []).length

def listStringLength : Option (Json Str) → Nat
  | some (.arr items) => (items.filterMap Json.asStr?).flatten.length
  | _ => 0

def reportProseLength (report : Option (Json Str)) : Nat :=
  listStringLength (report.bind (Json.get? "changes".toList))
    + listStringLength (report.bind (Json.get? "validation".toList))
    + listStringLength (report.bind (Json.get? "blockers".toList))

def computeProseLength (payload : Json Str) : Nat :=
  stringLength (payload.get? "text".toList) + stringLength (payload.get? "body".toList)
    + reportProseLength (payload.get? "report".toList)

def optionalText : Option Str → Json Str
  | none => .null
  | some t => .str t

/-- One call of `enqueue_inject`, with the clock, the identifier drawn for the row, and
whether the instance its foreign key names is there. -/
structure Enqueue where
  now : Time
  queueId : Id
  instanceExists : Bool
  instanceId : Id
  kind : InjectKind
  deliveryMode : DeliveryMode
  payload : Json Str
  tldr : Option Str

def Enqueue.row (e : Enqueue) : InstanceInjectQueue where
  id := e.queueId
  instanceId := e.instanceId
  kind := e.kind
  deliveryMode := e.deliveryMode
  payload := e.payload
  status := .pending
  expiresAt := e.now + Routing.defaultTtl
  ackedAt := none
  errorMessage := none
  createdAt := e.now
  updatedAt := e.now
  deletedAt := none

/-- The learning-side event that goes with two kinds of inject. -/
def Enqueue.learning (e : Enqueue) (type ids : String) : InjectEvent :=
  e.row.event type
    [(ids, (e.payload.get? ids.toList).getD (.arr [])), ("tldr", optionalText e.tldr)]

def Enqueue.events (e : Enqueue) : List InjectEvent :=
  e.row.event harnessInjectRequested [("tldr", optionalText e.tldr)] ::
    match e.kind with
    | .capabilityInject => [e.learning "learning.capability_injected" "capability_ids"]
    | .geneInject => [e.learning "learning.gene_injected" "gene_ids"]
    | _ => []

def validate (tldr : Option Str) (proseLength : Nat) : Except QueueError Unit :=
  (validateTldr tldr proseLength).mapError .refused

def enqueueInject (q : Queue) (e : Enqueue) : Except QueueError (Queue × List InjectEvent) := do
  validate e.tldr 0
  validate e.tldr (computeProseLength e.payload)
  if !e.instanceExists then
    throw (.refused .integrityError)
  match q.insert? e.row with
  | none => throw (.refused .integrityError)
  | some q' => return (q', e.events)

def expireOverdue (q : Queue) (now : Time) (p : InstanceInjectQueue → Bool) : Queue :=
  q.updateWhere (fun r => p r && r.isOverdue now) (·.setStatus .expired now)
    (InstanceInjectQueue.setStatus_id .expired now)

def pendingRows (q : Queue) (instanceId : Id) (now : Time) (limit : Nat) :
    List InstanceInjectQueue :=
  Window.first InstanceInjectQueue.sortKey limit (q.rows.filter (·.isSelectable instanceId now))

def setDelivered (q : Queue) (now : Time) (rows : List InstanceInjectQueue) : Queue :=
  q.updateWhere (fun r => r.id ∈ rows.map InstanceInjectQueue.id) (·.setStatus .delivered now)
    (InstanceInjectQueue.setStatus_id .delivered now)

def pollPendingInjects (q : Queue) (now : Time) (instanceId : Id) (limit : Nat) :
    Queue × List InstanceInjectQueue :=
  let q := expireOverdue q now fun r => r.instanceId = instanceId
  let rows := pendingRows q instanceId now limit
  (setDelivered q now rows, rows.map (·.setStatus .delivered now))

def ackedModes : List DeliveryMode := [.softInject, .wake]

def InstanceInjectQueue.isAckable (queueIds : List Id) (r : InstanceInjectQueue) : Bool :=
  r.id ∈ queueIds && r.deletedAt.isNone && r.status = .delivered

def ackInjects (q : Queue) (now : Time) (queueIds : List Id) : Queue × Nat × List InjectEvent :=
  let acked := q.rows.filter (·.isAckable queueIds)
  (q.updateWhere (·.isAckable queueIds) (·.ack now) (InstanceInjectQueue.ack_id now),
    acked.length,
    (acked.filter fun r => r.deliveryMode ∈ ackedModes).map (·.event harnessInjectApplied []))

/-- The length of the column `error_message`. -/
def errorMessageLength : Nat := 2000

def markInjectFailed (q : Queue) (now : Time) (queueId : Id) (errorMessage : Str) :
    Except QueueError (Queue × List InjectEvent) :=
  match (q.find? queueId).filter fun r => r.deletedAt.isNone with
  | none => .ok (q, [])
  | some r =>
    if errorMessage.length > errorMessageLength then .error .stringDataRightTruncation
    else .ok (q.update queueId (·.fail errorMessage now) (InstanceInjectQueue.fail_id errorMessage now),
      [r.event harnessInjectFailed [("error_message", .str errorMessage)]])

def sweepExpired (q : Queue) (now : Time) : Queue := expireOverdue q now fun _ => true

def completedStatuses : List InjectStatus := [.acked, .failed, .expired]

def completedSweepAge : Time := 7 * 24 * 3600

def InstanceInjectQueue.isOldCompleted (now : Time) (r : InstanceInjectQueue) : Bool :=
  r.status ∈ completedStatuses && r.updatedAt + completedSweepAge < now && r.deletedAt.isNone

def sweepOldCompleted (q : Queue) (now : Time) : Queue :=
  q.updateWhere (·.isOldCompleted now) (·.softDelete now) (InstanceInjectQueue.softDelete_id now)

end Eyot.Inject
