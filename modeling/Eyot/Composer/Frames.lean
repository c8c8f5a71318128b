import Eyot.Data.PyStr
import Eyot.Data.Rows

/-! The chat frames of the backend, and how the hub makes them of the messages of a tunnel. -/

namespace Eyot.Composer

/-- What `json.loads` gives. -/
abbrev Value := Json PyStr

/-- The truth value of Python. -/
def truthy : Value → Bool
  | .null => false
  | .bool b => b
  | .num t => t ∉ [py "0", py "0.0", py "-0.0"]
  | .str s => s ≠ []
  | .arr vs => !vs.isEmpty
  | .obj kvs => !kvs.isEmpty

/-- What is left of a member after `or`. -/
def whenTrue (v : Option Value) : Option Value := v.filter truthy

/-- A member that a frame leaves out when it is null. -/
def notNull : Option Value → Option Value
  | some .null => none
  | v => v

inductive FrameType where
  | chunk | done | error | activity
  deriving DecidableEq

def FrameType.value : FrameType → String
  | .chunk => "chat.response.chunk"
  | .done => "chat.response.done"
  | .error => "chat.response.error"
  | .activity => "chat.response.activity"

def FrameType.isTerminal : FrameType → Bool
  | .done | .error => true
  | .chunk | .activity => false

/-- A frame as the hub hands it on; the turn it goes to fills in its own identifiers. -/
structure HostFrame where
  type : FrameType
  token : Option Value
  message : Option Value
  targetEntity : Option Value
  status : Option Value
  text : Option Value
  kind : Option Value
  toolName : Option Value
  delta : Option Value

/-- A frame of a turn, as subscribers get it. -/
structure Frame where
  type : FrameType
  turnId : Id
  instanceId : Id
  targetEntity : Value
  token : Option Value
  message : Option Value
  status : Option Value
  text : Option Value
  kind : Option Value
  toolName : Option Value
  delta : Option Value
  finishReason : Option Value

/-- A message of a tunnel. -/
structure TunnelMessage where
  type : PyStr
  turnId : Option Value
  payload : List (PyStr × Value)

namespace TunnelMessage

def get? (m : TunnelMessage) (key : String) : Option Value := (Json.obj m.payload).get? (py key)

/-- The turn a message names. What Python prints for a value that is no text is no identifier. -/
def namedTurn (m : TunnelMessage) : Option PyStr :=
  (whenTrue m.turnId <|> whenTrue (m.get? "turn_id")).bind Json.asStr?

def frameType? (m : TunnelMessage) : Option FrameType :=
  [FrameType.chunk, .done, .error, .activity].find? fun t => py t.value = m.type

/-- The frame of a message: the members the hub knows for its type. -/
def hostFrame (m : TunnelMessage) (type : FrameType) : HostFrame :=
  match type with
  | .chunk | .done | .error =>
    { type := type
      token := notNull (m.get? "token")
      message := notNull (m.get? "message")
      targetEntity := notNull (m.get? "target_entity")
      status := notNull (m.get? "status")
      text := none
      kind := none
      toolName := none
      delta := none }
  | .activity =>
    { type := type
      token := none
      message := none
      targetEntity := notNull (m.get? "target_entity")
      status := notNull (m.get? "status")
      text := none
      kind := notNull (m.get? "kind")
      toolName := notNull (m.get? "tool_name")
      delta := notNull (m.get? "delta") }

/-- `ingest_host_frame`: the turn and the frame for it, if the message is a chat frame. -/
def chatFrame? (m : TunnelMessage) : Option (PyStr × HostFrame) := do
  let type ← m.frameType?
  let turnId ← m.namedTurn
  return (turnId, m.hostFrame type)

/-- The hub knows no text: the payload of a done frame does not get past it. -/
theorem hostFrame_text (m : TunnelMessage) (type : FrameType) : (m.hostFrame type).text = none := by
  cases type with
  | _ => rfl

end TunnelMessage

end Eyot.Composer
