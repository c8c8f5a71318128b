import Eyot.Routing.MessageRouter
import Eyot.Slash.Backend

/-! Routing of a whole turn: each directive goes to the harness, to the distiller or to the
instances of its target. -/

namespace Eyot.Routing

open Slash (Directive Turn)

def controlCommands : List String := ["/interrupt", "/pause", "/resume", "/status", "/snapshot"]

def isControlCommand (cmd : Str) : Bool := controlCommands.any fun c => c.toList = cmd

def learningCommands : List String := ["/distill", "/consolidate", "/reflect"]

def isLearningCommand (cmd : Str) : Bool := learningCommands.any fun c => c.toList = cmd

structure DirectiveResult where
  directiveRaw : Str
  targetEntity : Option Str
  cmd : Str
  results : List MessageDeliveryResult
  createdCapabilities : List (Str × String)
  engineUsed : String
  deriving DecidableEq

def emptyResult (directive : Directive Char) : DirectiveResult :=
  ⟨directive.rawText, directive.targetEntity, directive.cmd, [], [], "heuristic"⟩

/-- `scalars().first()` of the entities with a slug. -/
def findEntity (db : Db) (targetSlug : Str) : Option Entity :=
  db.entities.rows.find? fun e => e.slug = targetSlug && e.deletedAt.isNone

def findActiveInstance (db : Db) (entityId workspaceId : Id) : Option Instance :=
  db.instances.rows.find? (isActiveInstance entityId workspaceId)

def systemEvent (type resourceType : String) (resourceId : Id) (payload : Payload) : Event where
  type := type
  actorType := "system"
  actorId := none
  resourceType := resourceType
  resourceId := resourceId
  payload := payload

def triggerOnMention (entityId workspaceId : Id) : Routed Unit :=
  emit (systemEvent "messaging.activation_triggered" "entity" entityId
    [("trigger", .word "on_mention"), ("workspace_id", .id workspaceId)])

def getStateOr404 (db : Db) (instanceId : Id) : Except Failure InstanceLoopState :=
  match db.loopStates.rows.find? fun s => s.instanceId = instanceId && s.deletedAt.isNone with
  | some state => .ok state
  | none => .error (.eyot (NotFoundError "loop_state.not_found" "errors.loop_state.not_found"
      s!"No InstanceLoopState for instance '{instanceId}'"))

def setLoopStatus (db : Db) (instanceId : Id) (newStatus : LoopStatus) (eventType : String) :
    Routed Db := do
  let state ← .ofExcept (getStateOr404 db instanceId)
  emit (systemEvent eventType "instance" instanceId [])
  return { db with
    loopStates := db.loopStates.update state.id (fun s => { s with loopStatus := newStatus })
      fun _ => rfl }

def handleInterrupt (db : Db) (instanceId : Id) : Routed Db := do
  let db ← setLoopStatus db instanceId .interrupted "harness.interrupted"
  emit (systemEvent "harness.control_sent" "instance" instanceId
    [("action", .word "kill"), ("instance_id", .id instanceId)])
  return db

def handlePause (db : Db) (instanceId : Id) : Routed Db :=
  setLoopStatus db instanceId .paused "harness.paused"

def handleResume (db : Db) (instanceId : Id) : Routed Db :=
  setLoopStatus db instanceId .running "harness.resumed"

/-- `/status` and `/snapshot` do nothing here. -/
def handleControl (db : Db) (cmd : Str) (instanceId : Id) : Routed Db :=
  if cmd = "/interrupt".toList then handleInterrupt db instanceId
  else if cmd = "/pause".toList then handlePause db instanceId
  else if cmd = "/resume".toList then handleResume db instanceId
  else pure db

def routeControlDirective (db : Db) (workspaceId : Id) (directive : Directive Char) :
    Routed (DirectiveResult × Db) :=
  match directive.targetEntity with
  | none => pure (emptyResult directive, db)
  | some targetSlug =>
    match findEntity db targetSlug with
    | none => pure (emptyResult directive, db)
    | some targetEntity =>
      match findActiveInstance db targetEntity.id workspaceId with
      | none => pure (emptyResult directive, db)
      | some instance_ => do
        let db ← handleControl db directive.cmd instance_.id
        return (emptyResult directive, db)

/-- The distill flow up to its event: the name and type of each capability it creates from the
memory of an entity. -/
abbrev Distiller := Entity → Except Failure (List (Str × String))

def routeLearningDirective (distill : Distiller) (db : Db) (directive : Directive Char)
    (fromUserId : Id) : Routed DirectiveResult :=
  match directive.targetEntity with
  | none => pure (emptyResult directive)
  | some targetSlug =>
    match findEntity db targetSlug with
    | none => pure (emptyResult directive)
    | some targetEntity => do
      let created ← .ofExcept (distill targetEntity)
      if created.isEmpty then return emptyResult directive
      else
        emit
          { type := "learning.distillation_completed"
            actorType := "user"
            actorId := some fromUserId
            resourceType := "entity"
            resourceId := targetEntity.id
            payload :=
              [("entity_id", .id targetEntity.id), ("source_entity_slug", .text targetEntity.slug),
                ("capability_names", .texts (created.map Prod.fst)),
                ("capability_count", .number created.length),
                ("engine_used", .word "heuristic")] }
        return { emptyResult directive with createdCapabilities := created }

def triggerIfDelivered (targetEntity : Option Entity) (workspaceId : Id)
    (r : MessageDeliveryResult) : Routed Unit :=
  match targetEntity with
  | some e => if r.delivered then triggerOnMention e.id workspaceId else pure ()
  | none => pure ()

def routeToTarget (env : Surroundings) (db : Db) (senderId workspaceId : Id)
    (generalText : Option Str) (directive : Directive Char) : Routed DirectiveResult := do
  let targetEntity := (directive.targetEntity.filter (· ≠ [])).bind (findEntity db)
  if targetEntity.any fun e => (findActiveInstance db e.id workspaceId).isNone then
    return emptyResult directive
  else
    let deliveryResults ← routeMessage env db senderId workspaceId directive generalText
    let _ ← Traced.collect (triggerIfDelivered targetEntity workspaceId) deliveryResults
    return { emptyResult directive with results := deliveryResults }

/-- One round of the loop over the directives; `k` counts them. -/
def routeDirective (env : Nat → Surroundings) (distill : Distiller) (workspaceId fromUserId : Id)
    (senderId : Id) (generalText : Option Str) (state : Nat × Db) (directive : Directive Char) :
    Routed (DirectiveResult × Nat × Db) := do
  let (k, db) := state
  if isControlCommand directive.cmd then
    let (result, db) ← routeControlDirective db workspaceId directive
    return (result, k + 1, db)
  else if isLearningCommand directive.cmd then
    let result ← routeLearningDirective distill db directive fromUserId
    return (result, k + 1, db)
  else
    let result ← routeToTarget (env k) db senderId workspaceId generalText directive
    return (result, k + 1, db)

def findSender (db : Db) (workspaceId fromUserId : Id) : Option Membership :=
  db.memberships.rows.find? fun m =>
    m.userId = some fromUserId && m.workspaceId = workspaceId && m.deletedAt.isNone

def routeTurn (env : Nat → Surroundings) (distill : Distiller) (db : Db) (rawText : Str)
    (workspaceId fromUserId : Id) : Routed (List DirectiveResult) :=
  let turn := Slash.Backend.parseTurn pythonText rawText
  match findSender db workspaceId fromUserId with
  | none => pure []
  | some sender =>
    Traced.mapAccum (routeDirective env distill workspaceId fromUserId sender.id turn.generalText)
      (0, db) turn.directives

end Eyot.Routing
