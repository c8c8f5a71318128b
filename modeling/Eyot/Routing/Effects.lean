import Eyot.Data.Errors
import Eyot.Data.Rows
import Eyot.Library.Traced

/-! What message routing leaves behind: audit events, transcript rows, inject queue rows and
chat turns. -/

namespace Eyot.Routing

/-- A member of a JSON payload; identifiers are kept apart from texts. -/
inductive Value where
  | null
  | id (i : Id)
  | text (s : Str)
  | word (s : String)
  | number (n : Nat)
  | texts (ss : List Str)
  deriving DecidableEq

abbrev Payload := List (String × Value)

def Payload.get? (payload : Payload) (key : String) : Option Value :=
  (payload.find? fun kv => kv.1 = key).map Prod.snd

inductive DeliveryMode where
  | notify | softInject | wake
  deriving DecidableEq

def DeliveryMode.value : DeliveryMode → String
  | .notify => "notify"
  | .softInject => "soft_inject"
  | .wake => "wake"

inductive InjectKind where
  | collabInject | geneInject | capabilityInject | cerebellumRoute
  deriving DecidableEq

def InjectKind.value : InjectKind → String
  | .collabInject => "collab_inject"
  | .geneInject => "gene_inject"
  | .capabilityInject => "capability_inject"
  | .cerebellumRoute => "cerebellum_route"

structure Event where
  type : String
  actorType : String
  actorId : Option Id
  resourceType : String
  resourceId : Id
  payload : Payload
  deriving DecidableEq

structure ComposerMessage where
  namespaceId : Id
  workspaceId : Id
  role : String
  content : Str
  targetEntity : Option Str
  instanceId : Option Id
  turnId : Option Id
  status : String
  authorUserId : Option Id
  deriving DecidableEq

structure InstanceInjectQueue where
  id : Id
  instanceId : Id
  kind : InjectKind
  deliveryMode : DeliveryMode
  payload : Payload
  status : String
  expiresAt : Time
  deriving DecidableEq

structure ComposerTurnState where
  turnId : Id
  instanceId : Id
  workspaceId : Id
  targetEntity : Str
  status : String
  text : Str
  fromUserId : Option Id
  deriving DecidableEq

/-- The frame `chat.request` on the tunnel of an instance. -/
structure ChatRequest where
  instanceId : Id
  turnId : Id
  text : Str
  cmd : Option Str
  targetEntity : Str
  workspaceId : Id
  deriving DecidableEq

inductive Effect where
  | event (e : Event)
  | composerMessage (row : ComposerMessage)
  | inject (row : InstanceInjectQueue)
  | turn (state : ComposerTurnState)
  | viaTunnel (turnId instanceId : Id) (value : Bool)
  | chatRequest (frame : ChatRequest)
  | streamTask (turnId instanceId : Id)
  deriving DecidableEq

/-- The instance an effect is about. -/
def Effect.instance? : Effect → Option Id
  | .event e =>
    if e.resourceType = "instance" then some e.resourceId
    else
      match e.payload.get? "instance_id" with
      | some (.id i) => some i
      | _ => none
  | .composerMessage row => row.instanceId
  | .inject row => some row.instanceId
  | .turn state => some state.instanceId
  | .viaTunnel _ instanceId _ => some instanceId
  | .chatRequest frame => some frame.instanceId
  | .streamTask _ instanceId => some instanceId

abbrev Routed := Traced Effect Failure

def emit (e : Event) : Routed Unit := .tell (.event e)

/-- What routing finds outside the database and its arguments: the clock, the identifiers drawn
for the turn and the queue row of an instance, and the tunnels. -/
structure Surroundings where
  now : Time
  turnId : Id → Id
  queueId : Id → Id
  isConnected : Id → Bool
  sends : Id → Bool

/-- `scalar_one_or_none`. -/
def scalarOneOrNone {α : Type} : List α → Except Failure (Option α)
  | [] => .ok none
  | [r] => .ok (some r)
  | _ => .error .multipleResultsFound

theorem scalarOneOrNone_eq_ok {α : Type} {l : List α} {o : Option α}
    (h : scalarOneOrNone l = .ok o) : l = o.toList := by
  unfold scalarOneOrNone at h
  split at h
  · obtain rfl := Except.ok.inj h
    rfl
  · obtain rfl := Except.ok.inj h
    rfl
  · cases h

end Eyot.Routing
