import Eyot.Host.Js

/-! The bridge of an instance host: chat requests of the tunnel go to `pi`, and what `pi`
reports goes back as response frames. -/

namespace Eyot.Host

/-- A prompt line on the standard input of a child. -/
structure Prompt where
  child : Nat
  id : Units
  message : Units
  deriving DecidableEq

/-- The children are numbered in the order they are spawned in. -/
structure PiRpc where
  child : Option Nat
  started : Bool
  spawned : Nat
  prompts : List Prompt
  deriving DecidableEq

namespace PiRpc

def running (pi : PiRpc) : Bool := pi.child.isSome

/-- `spawnError` is what `spawn` throws, if it throws. -/
def start (pi : PiRpc) (spawnError : Option Units) : PiRpc × Option Units :=
  if pi.started then (pi, none)
  else
    match spawnError with
    | some err => ({ pi with started := true }, some err)
    | none =>
      ({ pi with child := some pi.spawned, started := true, spawned := pi.spawned + 1 }, none)

def prompt (pi : PiRpc) (writable : Bool) (message id : Units) : PiRpc × Bool :=
  match pi.child with
  | none => (pi, false)
  | some child =>
    if writable then ({ pi with prompts := pi.prompts ++ [⟨child, id, message⟩] }, true)
    else (pi, false)

def kill (pi : PiRpc) : PiRpc :=
  if pi.running then { pi with child := none, started := false } else pi

/-- Whichever child it was that exited. -/
def onExit (pi : PiRpc) : PiRpc := { pi with child := none, started := false }

end PiRpc

structure ActiveTurn where
  turnId : Units
  targetEntity : Option Units
  sawText : Bool
  replyText : Units
  deriving DecidableEq

inductive ActivityKind where
  | thinking | toolUse
  deriving DecidableEq

inductive ActivityStatus where
  | start | delta | finish
  deriving DecidableEq

/-- The `chat.response` frames; the status in a payload goes with the type of the frame. -/
inductive Frame where
  | chunk (turnId token : Units) (targetEntity : Option Units)
  | activity (turnId : Units) (kind : ActivityKind) (status : ActivityStatus)
      (toolName : Option Value) (delta targetEntity : Option Units)
  | done (turnId : Units) (targetEntity : Option Units) (text : Units)
  | error (turnId message : Units) (targetEntity : Option Units)

namespace Frame

def turnId : Frame → Units
  | chunk turnId .. | activity turnId .. | done turnId .. | error turnId .. => turnId

def isTerminal : Frame → Bool
  | done .. | error .. => true
  | chunk .. | activity .. => false

end Frame

/-- The text of the last assistant message that has one. -/
def lastAssistantText (messages : List Value) : Units :=
  (messages.reverse.findSome? fun m =>
    if str? (m.member "role") = some (units "assistant") then
      (str? (m.member "content")).filter (· ≠ [])
    else none).getD []

def extractAssistantText (evt : Value) : Units :=
  let nonempty (v : Option Value) : Option Units := (str? v).filter (· ≠ [])
  let ame := evt.member "assistantMessageEvent"
  match nonempty (ame.bind (Json.member "text")) <|> nonempty (evt.member "text") <|>
    nonempty (evt.member "content") with
  | some text => text
  | none =>
    match (evt.member "message").bind (Json.member "content") with
    | some (.str text) => text
    | some (.arr parts) => (parts.map fun p => (str? (p.member "text")).getD []).flatten
    | _ =>
      match evt.member "messages" with
      | some (.arr messages) => lastAssistantText messages
      | _ => []

/-- What an event of `pi` says to the bridge. -/
inductive Report where
  | failed (message : Units)
  | textDelta (delta : Units)
  | fullText (full : Units)
  | activity (kind : ActivityKind) (status : ActivityStatus) (toolName : Option Value)
      (delta : Option Units)
  | agentEnd (full : Units)
  | silent

def readResponse (evt : Value) : Report :=
  if truthy (evt.member "success") then .silent
  else
    match evt.member "error" with
    | some (.str err) => .failed err
    | err => .failed (stringify ((present err).getD (.str (units "turn_rejected"))))

def readMessageUpdate (evt : Value) : Report :=
  let ame := evt.member "assistantMessageEvent"
  let type := str? (ame.bind (Json.member "type"))
  let delta := str? (ame.bind (Json.member "delta"))
  if type = some (units "text_delta") && delta.any (· ≠ []) then .textDelta (delta.getD [])
  else if type = some (units "thinking_start") then .activity .thinking .start none none
  else if type = some (units "thinking_end") then .activity .thinking .finish none none
  else if type = some (units "thinking_delta") && delta.isSome then
    .activity .thinking .delta none delta
  else if type = some (units "toolcall_start") then
    .activity .toolUse .start (ame.bind (Json.member "toolName")) none
  else if type = some (units "toolcall_delta") && delta.isSome then
    .activity .toolUse .delta none delta
  else if type = some (units "toolcall_end") then .activity .toolUse .finish none none
  else .fullText (extractAssistantText evt)

/-- A tool event is dropped where its tool name has no text. -/
def readToolExecution (evt : Value) (status : ActivityStatus) (delta : Option Units) : Report :=
  match toStr ((present (evt.member "toolName")).getD (.str [])) with
  | some toolName => .activity .toolUse status (some (.str toolName)) delta
  | none => .silent

def partialText (evt : Value) : Option Units :=
  match present (evt.member "partialResult") with
  | some (.str s) => some s
  | v => v.map stringify

def readError (evt : Value) : Report :=
  match toStr ((present (evt.member "message")).getD
    ((present (evt.member "error")).getD (.str (units "host_error")))) with
  | some message => .failed message
  | none => .silent

def readEvent (evt : Value) : Report :=
  let type := str? (evt.member "type")
  if type = some (units "response") then readResponse evt
  else if type = some (units "message_update") then readMessageUpdate evt
  else if type = some (units "message") || type = some (units "agent_message") then
    .fullText (extractAssistantText evt)
  else if type = some (units "tool_execution_start") then readToolExecution evt .start none
  else if type = some (units "tool_execution_update") then
    readToolExecution evt .delta (partialText evt)
  else if type = some (units "tool_execution_end") then readToolExecution evt .finish none
  else if type = some (units "agent_end") then .agentEnd (extractAssistantText evt)
  else if type = some (units "error") || type = some (units "agent_error") then readError evt
  else .silent

def ActiveTurn.chunk (turn : ActiveTurn) (token : Units) : Frame :=
  .chunk turn.turnId token turn.targetEntity

def ActiveTurn.error (turn : ActiveTurn) (message : Units) : Frame :=
  .error turn.turnId message turn.targetEntity

def ActiveTurn.done (turn : ActiveTurn) : Frame :=
  .done turn.turnId turn.targetEntity turn.replyText

/-- The frames the bridge sends for the active turn, and what becomes of the turn. -/
def react (turn : ActiveTurn) : Report → List Frame × Option ActiveTurn
  | .failed message => ([turn.error message], none)
  | .textDelta delta =>
    ([turn.chunk delta],
      some { turn with sawText := true, replyText := turn.replyText ++ delta })
  | .fullText full =>
    if full.length > turn.replyText.length then
      ([turn.chunk (full.drop turn.replyText.length)],
        some { turn with sawText := true, replyText := full })
    else ([], some turn)
  | .activity kind status toolName delta =>
    ([.activity turn.turnId kind status toolName delta turn.targetEntity], some turn)
  | .agentEnd full =>
    if !turn.sawText && full ≠ [] then
      ([turn.chunk full, ActiveTurn.done { turn with sawText := true, replyText := full }], none)
    else ([turn.done], none)
  | .silent => ([], some turn)

structure ChatBridge where
  pi : PiRpc
  active : Option ActiveTurn
  deriving DecidableEq

namespace ChatBridge

def onPiEvent (bridge : ChatBridge) (evt : Value) : List Frame × ChatBridge :=
  match bridge.active with
  | none => ([], bridge)
  | some turn =>
    ((react turn (readEvent evt)).1, { bridge with active := (react turn (readEvent evt)).2 })

def failActive (bridge : ChatBridge) (message : Units) : List Frame × ChatBridge :=
  match bridge.active with
  | none => ([], bridge)
  | some turn => ([turn.error message], { bridge with active := none })

end ChatBridge

structure ChatRequest where
  turnId : Units
  text : Units
  targetEntity : Option Units
  deriving DecidableEq

def textOf (v : Option Value) : Option Units :=
  match present v with
  | none => some []
  | some v => toStr v

/-- A request without a turn id is left, and so is one the reading of which throws. -/
def readChatRequest (msg : Value) : Option ChatRequest := do
  let payload := present (msg.member "payload")
  let turnId ←
    match present (msg.member "turn_id") with
    | some v => toStr v
    | none => payload.bind fun p => textOf (p.member "turn_id")
  let text ← payload.bind fun p => textOf (p.member "text")
  let targetEntity ←
    match present (payload.bind (Json.member "target_entity")) with
    | none => some none
    | some v => (toStr v).map some
  if turnId = [] then none else return ⟨turnId, text, targetEntity⟩

def ChatRequest.turn (r : ChatRequest) : ActiveTurn := ⟨r.turnId, r.targetEntity, false, []⟩

/-- The request becomes the active turn, if its prompt can be written. -/
def promptTurn (pi : PiRpc) (r : ChatRequest) (writable : Bool) : List Frame × ChatBridge :=
  let (pi, ok) := pi.prompt writable (if r.text = [] then units "(empty)" else r.text) r.turnId
  match ok with
  | true => ([], ⟨pi, some r.turn⟩)
  | false => ([r.turn.error (units "host_stdin_closed")], ⟨pi, none⟩)

def ChatBridge.onChatRequest (bridge : ChatBridge) (r : ChatRequest) (spawnError : Option Units)
    (writable : Bool) : List Frame × ChatBridge :=
  let (pi, thrown) := if bridge.pi.running then (bridge.pi, none) else bridge.pi.start spawnError
  match thrown with
  | some err => ([r.turn.error err], { bridge with pi := pi })
  | none => promptTurn pi r writable

def isInterrupt (msg : Value) : Bool :=
  str? (msg.member "type") = some (units "control") &&
    textOf ((present (msg.member "payload")).bind (Json.member "action")) =
      some (units "interrupt")

/-- The request a tunnel message asks the bridge to accept. -/
def chatRequest? (msg : Value) : Option ChatRequest :=
  if str? (msg.member "type") = some (units "chat.request") then readChatRequest msg else none

def ChatBridge.handleTunnelMessage (bridge : ChatBridge) (msg : Value) (spawnError : Option Units)
    (writable : Bool) : List Frame × ChatBridge :=
  match chatRequest? msg with
  | some r => bridge.onChatRequest r spawnError writable
  | none => if isInterrupt msg then ([], { bridge with pi := bridge.pi.kill }) else ([], bridge)

end Eyot.Host
