import Eyot.Routing.Effects
import Eyot.Slash.Directive
import Eyot.Topology.Passages

/-! Delivery of one directive to the instances of its target, gated by passages. -/

namespace Eyot.Routing

open Slash (Directive)

def tldrMaxChars : Nat := 200

def proseThresholdChars : Nat := 240

def textLength : Option Value → Nat
  | some (.text s) => s.length
  | _ => 0

/-- The texts under `text` and `body`; no payload of the router holds a nested report. -/
def computeProseLength (payload : Payload) : Nat :=
  textLength (payload.get? "text") + textLength (payload.get? "body")

def validateTldr (tldr : Option Str) (proseLength : Nat) : Except Failure Unit :=
  let tooLong := tldr.filter fun t => t.length > tldrMaxChars
  match tooLong with
  | some t => .error (.eyot ⟨"internal.tldr_too_long", "errors.internal.tldr_too_long",
      s!"tldr exceeds {tldrMaxChars} characters", 400,
      [("max_length", tldrMaxChars), ("actual_length", t.length)]⟩)
  | none =>
    if proseLength > proseThresholdChars && (tldr.map pythonText.strip).getD [] = [] then
      .error (.eyot ⟨"internal.tldr_required", "errors.internal.tldr_required",
        s!"tldr is required when prose exceeds {proseThresholdChars} characters", 400,
        [("prose_length", proseLength), ("threshold", proseThresholdChars)]⟩)
    else .ok ()

def defaultTtl : Time := 3600

def optionalText : Option Str → Value
  | none => .null
  | some t => .text t

/-- The learning-side event that goes with two kinds of inject. -/
def emitLearning (row : InstanceInjectQueue) (tldr : Option Str) (type ids : String) : Routed Unit :=
  emit
    { type := type
      actorType := "system"
      actorId := none
      resourceType := "instance"
      resourceId := row.instanceId
      payload :=
        [("queue_id", .id row.id), ("kind", .word row.kind.value),
          ("delivery_mode", .word row.deliveryMode.value),
          (ids, (row.payload.get? ids).getD (.texts [])), ("tldr", optionalText tldr)] }

def enqueueInject (env : Surroundings) (instanceId : Id) (kind : InjectKind)
    (deliveryMode : DeliveryMode) (payload : Payload) (tldr : Option Str) :
    Routed InstanceInjectQueue := do
  .ofExcept (validateTldr tldr 0)
  .ofExcept (validateTldr tldr (computeProseLength payload))
  let row : InstanceInjectQueue :=
    { id := env.queueId instanceId
      instanceId := instanceId
      kind := kind
      deliveryMode := deliveryMode
      payload := payload
      status := "pending"
      expiresAt := env.now + defaultTtl }
  .tell (.inject row)
  emit
    { type := "harness.inject_requested"
      actorType := "system"
      actorId := none
      resourceType := "instance"
      resourceId := instanceId
      payload :=
        [("queue_id", .id row.id), ("kind", .word kind.value),
          ("delivery_mode", .word deliveryMode.value), ("tldr", optionalText tldr)] }
  match kind with
  | .capabilityInject => emitLearning row tldr "learning.capability_injected" "capability_ids"
  | .geneInject => emitLearning row tldr "learning.gene_injected" "gene_ids"
  | _ => pure ()
  return row

/-- One transcript row, if the workspace is there. -/
def appendComposerMessage (db : Db) (workspaceId : Id) (role : String) (content : Str)
    (targetEntity : Option Str) (instanceId turnId : Option Id) (status : String)
    (authorUserId : Option Id) : Routed (Option ComposerMessage) :=
  match (db.workspaces.find? workspaceId).filter fun w => w.deletedAt.isNone with
  | none => pure none
  | some w => do
    let row : ComposerMessage :=
      { namespaceId := w.namespaceId
        workspaceId := workspaceId
        role := role
        content := content
        targetEntity := targetEntity
        instanceId := instanceId
        turnId := turnId
        status := status
        authorUserId := authorUserId }
    .tell (.composerMessage row)
    return some row

def turnTextForDirective (directive : Directive Char) (generalText : Option Str) : Str :=
  let general := pythonText.strip (generalText.getD [])
  let args := pythonText.strip (pythonText.join " " directive.args)
  if directive.cmd ≠ [] then
    if general ≠ [] then general else if args ≠ [] then args else directive.cmd
  else if args ≠ [] then args
  else general

def deliveryModeForInstance (db : Db) (instanceId : Id) : Except Failure DeliveryMode := do
  let state ← scalarOneOrNone (db.loopStates.rows.filter fun s =>
    s.instanceId = instanceId && s.deletedAt.isNone)
  return if state.any fun s => s.loopStatus = .running then .softInject else .wake

/-- The active passage that links two memberships, in either orientation. -/
def findActivePassageBetween (db : Db) (workspaceId membershipA membershipB : Id) :
    Option Passage :=
  let (lo, hi) := Topology.normalizeEndpoints membershipA membershipB
  db.passages.rows.find? fun p =>
    p.workspaceId = workspaceId && p.isActive && p.deletedAt.isNone && Topology.joins p lo hi

def scheduleUserTurn (env : Surroundings) (db : Db) (workspaceId instanceId : Id)
    (targetEntity text : Str) (cmd : Option Str) (fromMembershipId : Id) : Routed Id := do
  let turnId := env.turnId instanceId
  let fromUserId := (db.memberships.find? fromMembershipId).bind Membership.userId
  let _ ← appendComposerMessage db workspaceId "user" text (some targetEntity) (some instanceId)
    (some turnId) "completed" fromUserId
  let _ ← appendComposerMessage db workspaceId "assistant" [] (some targetEntity)
    (some instanceId) (some turnId) "responding" none
  .tell (.turn ⟨turnId, instanceId, workspaceId, targetEntity, "responding", text, fromUserId⟩)
  emit
    { type := "harness.control_sent"
      actorType := "membership"
      actorId := some fromMembershipId
      resourceType := "instance"
      resourceId := instanceId
      payload :=
        [("action", .word "user_turn"), ("instance_id", .id instanceId), ("turn_id", .id turnId),
          ("text", .text text), ("cmd", optionalText cmd), ("target_entity", .text targetEntity),
          ("workspace_id", .id workspaceId)] }
  if env.isConnected instanceId then
    .tell (.viaTunnel turnId instanceId true)
    if env.sends instanceId then
      .tell (.chatRequest ⟨instanceId, turnId, text, cmd, targetEntity, workspaceId⟩)
      return turnId
    .tell (.viaTunnel turnId instanceId false)
  .tell (.streamTask turnId instanceId)
  return turnId

structure MessageDeliveryResult where
  targetEntity : Str
  delivered : Bool
  reason : Option String
  instanceId : Option Id
  turnId : Option Id
  deriving DecidableEq

def templateReply (targetEntity : Str) : Str :=
  '@' :: targetEntity ++ " 尚未连接通道，消息已转交小脑。请先在拓扑中连接通道后再试。".toList

/-- The arguments of a routing call that do not change from instance to instance. -/
structure Delivery where
  fromMembershipId : Id
  workspaceId : Id
  directive : Directive Char
  targetEntity : Str
  generalText : Option Str
  senderIsUser : Bool
  authorUserId : Option Id

def Delivery.text (d : Delivery) : Str := turnTextForDirective d.directive d.generalText

def deliveryBlocked (d : Delivery) (resourceType : String) (resourceId : Id) (payload : Payload) :
    Event where
  type := "messaging.delivery_blocked"
  actorType := "membership"
  actorId := some d.fromMembershipId
  resourceType := resourceType
  resourceId := resourceId
  payload := [("target_entity", .text d.targetEntity), ("cmd", .text d.directive.cmd),
    ("workspace_id", .id d.workspaceId)] ++ payload

def optionalId : Option Id → Value
  | none => .null
  | some i => .id i

/-- The router only gets here with an instance. -/
def routeToCerebellum (env : Surroundings) (db : Db) (d : Delivery) (instanceId : Id)
    (toMembershipId : Option Id) : Routed MessageDeliveryResult := do
  emit (deliveryBlocked d "instance" instanceId
    [("instance_id", .id instanceId), ("to_membership_id", optionalId toMembershipId),
      ("reason_detail", .word "routed_to_cerebellum"), ("text", .text d.text)])
  let _ ← appendComposerMessage db d.workspaceId "user" d.text (some d.targetEntity)
    (some instanceId) none "completed" d.authorUserId
  let _ ← appendComposerMessage db d.workspaceId "assistant" (templateReply d.targetEntity)
    (some d.targetEntity) (some instanceId) none "completed" none
  let _ ← enqueueInject env instanceId .cerebellumRoute .notify
    [("text", .text d.text), ("target_entity", .text d.targetEntity),
      ("from_membership_id", .id d.fromMembershipId)] (some (d.text.take 200))
  return ⟨d.targetEntity, false, some "routed_to_cerebellum", some instanceId, none⟩

/-- Delivery along a passage: an event, an inject and a chat turn. -/
def deliver (env : Surroundings) (db : Db) (d : Delivery) (instanceId toMembershipId : Id)
    (passage : Passage) : Routed MessageDeliveryResult := do
  emit
    { type := "messaging.message_sent"
      actorType := "membership"
      actorId := some d.fromMembershipId
      resourceType := "instance"
      resourceId := instanceId
      payload :=
        [("target_entity", .text d.targetEntity), ("cmd", .text d.directive.cmd),
          ("args", .texts d.directive.args), ("workspace_id", .id d.workspaceId),
          ("instance_id", .id instanceId), ("to_membership_id", .id toMembershipId),
          ("passage_id", .id passage.id), ("general_text", optionalText d.generalText)] }
  let deliveryMode ← .ofExcept (deliveryModeForInstance db instanceId)
  let _ ← enqueueInject env instanceId .collabInject deliveryMode
    [("target_entity", .text d.targetEntity), ("cmd", .text d.directive.cmd),
      ("args", .texts d.directive.args), ("text", .text d.text),
      ("passage_id", .id passage.id)] (some (d.text.take 200))
  let turnId ← scheduleUserTurn env db d.workspaceId instanceId d.targetEntity d.text
    (if d.directive.cmd = [] then none else some d.directive.cmd) d.fromMembershipId
  return ⟨d.targetEntity, true, none, some instanceId, some turnId⟩

/-- The body of the loop over the instances of the target. -/
def routeToInstance (env : Surroundings) (db : Db) (d : Delivery) (instance_ : Instance) :
    Routed MessageDeliveryResult := do
  let toMembership ← .ofExcept (scalarOneOrNone (db.memberships.rows.filter fun m =>
    m.instanceId = some instance_.id && m.workspaceId = d.workspaceId && m.deletedAt.isNone))
  match toMembership with
  | none =>
    if d.senderIsUser then routeToCerebellum env db d instance_.id none
    else
      emit (deliveryBlocked d "instance" instance_.id
        [("instance_id", .id instance_.id), ("reason_detail", .word "target_membership_missing")])
      return ⟨d.targetEntity, false, some "not_neighbor", some instance_.id, none⟩
  | some toMembership =>
    match findActivePassageBetween db d.workspaceId d.fromMembershipId toMembership.id with
    | none =>
      if d.senderIsUser then routeToCerebellum env db d instance_.id (some toMembership.id)
      else
        emit (deliveryBlocked d "membership" toMembership.id
          [("instance_id", .id instance_.id), ("to_membership_id", .id toMembership.id)])
        return ⟨d.targetEntity, false, some "not_neighbor", some instance_.id, none⟩
    | some passage => deliver env db d instance_.id toMembership.id passage

def isActiveInstance (entityId workspaceId : Id) (i : Instance) : Bool :=
  i.entityId = entityId && i.workspaceId = workspaceId &&
    i.status ∈ [.running, .pending, .creating, .deploying] && i.deletedAt.isNone

def senderOf (db : Db) (fromMembershipId : Id) : Option Membership :=
  (db.memberships.find? fromMembershipId).filter fun m => m.deletedAt.isNone && m.userId.isSome

def deliveryFor (db : Db) (fromMembershipId workspaceId : Id) (directive : Directive Char)
    (targetEntity : Str) (generalText : Option Str) : Delivery where
  fromMembershipId := fromMembershipId
  workspaceId := workspaceId
  directive := directive
  targetEntity := targetEntity
  generalText := generalText
  senderIsUser := (senderOf db fromMembershipId).isSome
  authorUserId := (senderOf db fromMembershipId).bind Membership.userId

def routeMessage (env : Surroundings) (db : Db) (fromMembershipId workspaceId : Id)
    (directive : Directive Char) (generalText : Option Str) :
    Routed (List MessageDeliveryResult) :=
  match directive.targetEntity with
  | none => pure []
  | some targetEntity => do
    let entity ← .ofExcept (scalarOneOrNone (db.entities.rows.filter fun e =>
      e.slug = targetEntity && e.deletedAt.isNone))
    match entity with
    | none => return [⟨targetEntity, false, some "entity_not_found", none, none⟩]
    | some entity =>
      let instances := db.instances.rows.filter (isActiveInstance entity.id workspaceId)
      if instances.isEmpty then
        return [⟨targetEntity, false, some "no_active_instance", none, none⟩]
      else
        Traced.collect (routeToInstance env db
          (deliveryFor db fromMembershipId workspaceId directive targetEntity generalText)) instances

end Eyot.Routing
