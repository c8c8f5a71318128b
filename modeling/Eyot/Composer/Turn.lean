import Eyot.Composer.Frames
import Eyot.Library.Fleet

/-! One turn of the composer: the frames of the tunnel, the fallback stream of the backend, and
the transcript row that is written when the turn is over. -/

namespace Eyot.Composer

inductive TurnStatus where
  | responding | completed | failed
  deriving DecidableEq

def TurnStatus.value : TurnStatus → String
  | .responding => "responding"
  | .completed => "completed"
  | .failed => "failed"

/-- The assistant message of a turn, from the insert in the sending request on. -/
inductive TranscriptRow where
  | absent
  | uncommitted
  | committed (content : PyStr) (status : TurnStatus)
  deriving DecidableEq

/-- What is left to do for a terminal frame after it has been emitted. -/
structure Ending where
  status : TurnStatus
  content : Option PyStr
  body : Option PyStr
  deriving DecidableEq

inductive StreamTask where
  | idle | running | ended
  deriving DecidableEq

structure Turn where
  turnId : Id
  requestId : Id
  instanceId : Id
  workspaceId : Id
  targetEntity : PyStr
  status : TurnStatus
  text : PyStr
  replyText : PyStr
  history : List Frame
  /-- The frames of the history by their position, and the end marks. -/
  queue : List (Option Nat)
  stream : StreamTask
  endings : List Ending
  row : TranscriptRow

/-- What the tasks of the backend do on a turn between two awaits: the fallback stream, and
what is left of a terminal frame. The database may refuse a write. -/
inductive TaskStep where
  | startStream
  | token (s : PyStr)
  | finish (reason : PyStr)
  | fail (message : PyStr)
  | readBody (k : Nat)
  | write (k : Nat) (fails : Bool)

inductive Action where
  | receive (h : HostFrame)
  | task (step : TaskStep)
  | commit
  | rollback

namespace Turn

def emitFrame (t : Turn) (f : Frame) : Turn :=
  { t with history := t.history ++ [f], queue := t.queue ++ [some t.history.length] }

def statusText (status : TurnStatus) : Value := .str (py status.value)

/-- The frame of the hub under the identifiers of the turn. -/
def frame (t : Turn) (h : HostFrame) : Frame where
  type := h.type
  turnId := t.turnId
  instanceId := t.instanceId
  targetEntity := (whenTrue h.targetEntity).getD (.str t.targetEntity)
  token := h.token
  message := h.message
  status := h.status
  text := h.text
  kind := h.kind
  toolName := h.toolName
  delta := h.delta
  finishReason := none

/-- A frame of the backend's own stream. -/
def ownFrame (t : Turn) (type : FrameType) (status : TurnStatus) : Frame where
  type := type
  turnId := t.turnId
  instanceId := t.instanceId
  targetEntity := .str t.targetEntity
  token := none
  message := none
  status := some (statusText status)
  text := none
  kind := none
  toolName := none
  delta := none
  finishReason := none

def setDefaultStatus (f : Frame) (status : TurnStatus) : Frame :=
  { f with status := f.status <|> some (statusText status) }

def tokenText (token : Option Value) : PyStr := (token.bind Json.asStr?).getD []

/-- The text of a done frame counts when it is one and not blank. -/
def doneText (t : Turn) (text : Option Value) : PyStr :=
  ((text.bind Json.asStr?).filter fun s => !s.isBlank).getD t.replyText

section Repr

variable (repr : Value → PyStr)

/-- `str` of a JSON value. -/
def strOf : Value → PyStr
  | .str s => s
  | v => repr v

def receiveChunk (t : Turn) (h : HostFrame) : Turn :=
  emitFrame { t with replyText := t.replyText ++ tokenText h.token }
    (setDefaultStatus (t.frame h) .responding)

def receiveDone (t : Turn) (h : HostFrame) : Turn :=
  let reply := t.doneText h.text
  let f := setDefaultStatus (t.frame h) .completed
  emitFrame
    { t with
      status := .completed
      replyText := reply
      endings := t.endings ++ [⟨.completed, none, none⟩] }
    { f with text := some ((whenTrue h.text).getD (.str reply)) }

def receiveError (t : Turn) (h : HostFrame) : Turn :=
  let content := strOf repr ((whenTrue h.message).getD (.str t.replyText))
  emitFrame
    { t with
      status := .failed
      endings := t.endings ++ [⟨.failed, some content, none⟩] }
    (setDefaultStatus (t.frame h) .failed)

/-- `ingest_tunnel_chat_frame` as far as it goes without waiting. -/
def receive (t : Turn) (h : HostFrame) : Turn :=
  match h.type with
  | .chunk => t.receiveChunk h
  | .done => t.receiveDone h
  | .error => t.receiveError repr h
  | .activity => t.emitFrame (t.frame h)

def streamToken (t : Turn) (s : PyStr) : Turn :=
  emitFrame { t with replyText := t.replyText ++ s }
    { t.ownFrame .chunk .responding with token := some (.str s) }

def streamFinish (t : Turn) (reason : PyStr) : Turn :=
  emitFrame
    { t with
      status := .completed
      stream := .ended
      endings := t.endings ++ [⟨.completed, none, none⟩] }
    { t.ownFrame .done .completed with
      text := some (.str t.replyText)
      finishReason := some (.str reason) }

def streamFail (t : Turn) (message : PyStr) : Turn :=
  emitFrame
    { t with
      status := .failed
      stream := .ended
      endings := t.endings ++ [⟨.failed, some message, none⟩] }
    { t.ownFrame .error .failed with message := some (.str message) }

/-- What is persisted for a finished turn. -/
def finalBody (content : Option PyStr) (replyText : PyStr) : PyStr :=
  if (content.getD replyText).isBlank && !replyText.isBlank then replyText
  else content.getD replyText

def readBody (t : Turn) (k : Nat) : Turn :=
  { t with endings := t.endings.modify k fun e =>
      { e with body := e.body <|> some (finalBody e.content t.replyText) } }

/-- What an ending writes to the transcript, if it finds a committed row and the database
takes the text. -/
def writing? (t : Turn) (k : Nat) (fails : Bool) : Option (PyStr × TurnStatus) :=
  match t.row, t.endings[k]? with
  | .committed .., some ⟨status, _, some body⟩ =>
    if !fails && body.isStorable then some (body, status) else none
  | _, _ => none

/-- An update that fails is logged; the queue gets its end mark all the same. -/
def write (t : Turn) (k : Nat) (fails : Bool) : Turn :=
  match t.endings[k]? with
  | some ⟨_, _, some _⟩ =>
    { t with
      row := (t.writing? k fails).elim t.row fun written => .committed written.1 written.2
      endings := t.endings.eraseIdx k
      queue := t.queue ++ [none] }
  | _ => t

def setRow (t : Turn) (row : TranscriptRow) : Turn :=
  { t with row := if t.row = .uncommitted then row else t.row }

def runTask (t : Turn) : TaskStep → Turn
  | .startStream => if t.stream = .idle then { t with stream := .running } else t
  | .token s => if t.stream = .running && s ≠ [] then t.streamToken s else t
  | .finish reason => if t.stream = .running then t.streamFinish reason else t
  | .fail message => if t.stream = .running then t.streamFail message else t
  | .readBody k => t.readBody k
  | .write k fails => t.write k fails

def act (t : Turn) : Action → Turn
  | .receive h => t.receive repr h
  | .task step => t.runTask step
  | .commit => t.setRow (.committed [] .responding)
  | .rollback => t.setRow .absent

end Repr

/-- What the action writes to the transcript. -/
def writes (t : Turn) : Action → List (PyStr × TurnStatus)
  | .task (.write k fails) => (t.writing? k fails).toList
  | _ => []

/-- The step puts a frame on the turn. -/
def taskPuts (t : Turn) : TaskStep → Bool
  | .token s => t.stream = .running && s ≠ []
  | .finish _ | .fail _ => t.stream = .running
  | .startStream | .readBody _ | .write .. => false

def puts (t : Turn) : Action → Bool
  | .receive _ => true
  | .task step => t.taskPuts step
  | .commit | .rollback => false

/-! What a step does to a turn, said once. -/

theorem act_ids (repr : Value → PyStr) (t : Turn) (a : Action) :
    (t.act repr a).turnId = t.turnId ∧ (t.act repr a).instanceId = t.instanceId := by
  cases a with
  | receive h =>
    rw [act, receive]
    cases h.type with
    | _ => exact ⟨rfl, rfl⟩
  | task step =>
    rw [act]
    cases step with
    | write k fails =>
      simp only [runTask, write]
      split <;> exact ⟨rfl, rfl⟩
    | readBody k => exact ⟨rfl, rfl⟩
    | _ =>
      simp only [runTask]
      split <;> exact ⟨rfl, rfl⟩
  | commit => exact ⟨rfl, rfl⟩
  | rollback => exact ⟨rfl, rfl⟩

theorem act_turnId (repr : Value → PyStr) (t : Turn) (a : Action) :
    (t.act repr a).turnId = t.turnId := (act_ids repr t a).1

/-- A frame is put on the turn, and the turn ends if the frame says so. -/
structure Emitted (t t' : Turn) (f : Frame) : Prop where
  history : t'.history = t.history ++ [f]
  queue : t'.queue = t.queue ++ [some t.history.length]
  row : t'.row = t.row
  goesOn : f.type.isTerminal = false → t'.status = t.status ∧ t'.endings = t.endings
  ends : f.type.isTerminal = true → t'.status ≠ .responding ∧ ∃ content,
    t'.endings = t.endings ++ [⟨t'.status, content, none⟩] ∧
      (t'.status = .completed → content = none) ∧ (t'.status = .failed → content.isSome)

theorem emitted_goesOn {t t' : Turn} {f : Frame} (hf : f.type.isTerminal = false)
    (hhistory : t'.history = t.history ++ [f])
    (hqueue : t'.queue = t.queue ++ [some t.history.length]) (hrow : t'.row = t.row)
    (hstatus : t'.status = t.status) (hendings : t'.endings = t.endings) : Emitted t t' f where
  history := hhistory
  queue := hqueue
  row := hrow
  goesOn _ := ⟨hstatus, hendings⟩
  ends h := by
    rw [hf] at h
    cases h

theorem emitted_ends {t t' : Turn} {f : Frame} (hf : f.type.isTerminal = true)
    (hhistory : t'.history = t.history ++ [f])
    (hqueue : t'.queue = t.queue ++ [some t.history.length]) (hrow : t'.row = t.row)
    {content : Option PyStr}
    (hstatus : t'.status = if content.isSome then .failed else .completed)
    (hendings : t'.endings = t.endings ++ [⟨t'.status, content, none⟩]) : Emitted t t' f where
  history := hhistory
  queue := hqueue
  row := hrow
  goesOn h := by
    rw [hf] at h
    cases h
  ends _ := by
    cases content with
    | none => exact ⟨by simp [hstatus], none, hendings, fun _ => rfl, by simp [hstatus]⟩
    | some c => exact ⟨by simp [hstatus], some c, hendings, by simp [hstatus], fun _ => rfl⟩

theorem emitted_receive (repr : Value → PyStr) (t : Turn) (h : HostFrame) :
    ∃ f, f.type = h.type ∧ Emitted t (t.receive repr h) f := by
  rw [receive]
  cases ht : h.type with
  | chunk => exact ⟨_, ht, emitted_goesOn (congrArg FrameType.isTerminal ht) rfl rfl rfl rfl rfl⟩
  | done => exact ⟨_, ht, emitted_ends (congrArg FrameType.isTerminal ht) rfl rfl rfl rfl rfl⟩
  | error => exact ⟨_, ht, emitted_ends (congrArg FrameType.isTerminal ht) rfl rfl rfl rfl rfl⟩
  | activity => exact ⟨_, ht, emitted_goesOn (congrArg FrameType.isTerminal ht) rfl rfl rfl rfl rfl⟩

theorem emitted_runTask (t : Turn) (step : TaskStep) (h : t.taskPuts step = true) :
    ∃ f, Emitted t (t.runTask step) f := by
  cases step with
  | token s =>
    rw [taskPuts] at h
    rw [runTask, if_pos h]
    exact ⟨_, emitted_goesOn rfl rfl rfl rfl rfl rfl⟩
  | finish reason =>
    rw [runTask, if_pos (of_decide_eq_true h)]
    exact ⟨_, emitted_ends rfl rfl rfl rfl rfl rfl⟩
  | fail message =>
    rw [runTask, if_pos (of_decide_eq_true h)]
    exact ⟨_, emitted_ends rfl rfl rfl rfl rfl rfl⟩
  | startStream => cases h
  | readBody k => cases h
  | write k fails => cases h

theorem emitted_of_puts (repr : Value → PyStr) {t : Turn} {a : Action} (h : t.puts a = true) :
    ∃ f, Emitted t (t.act repr a) f := by
  cases a with
  | receive hf =>
    obtain ⟨f, -, he⟩ := emitted_receive repr t hf
    exact ⟨f, he⟩
  | task step => exact emitted_runTask t step h
  | commit => cases h
  | rollback => cases h

/-- An action that puts no frame on the turn. -/
inductive Quiet (t : Turn) : Action → Turn → Prop
  | same {a : Action} (h : t.writes a = []) : Quiet t a t
  | startStream : Quiet t (.task .startStream) { t with stream := .running }
  | readBody (k : Nat) : Quiet t (.task (.readBody k)) (t.readBody k)
  | write (k : Nat) (fails : Bool) : Quiet t (.task (.write k fails)) (t.write k fails)
  | commit : Quiet t .commit (t.setRow (.committed [] .responding))
  | rollback : Quiet t .rollback (t.setRow .absent)

theorem quiet_runTask (t : Turn) (step : TaskStep) (h : t.taskPuts step = false) :
    Quiet t (.task step) (t.runTask step) := by
  cases step with
  | startStream =>
    rw [runTask]
    split
    · exact .startStream
    · exact .same rfl
  | token s =>
    rw [taskPuts, ← Bool.not_eq_true] at h
    rw [runTask, if_neg h]
    exact .same rfl
  | finish reason =>
    rw [runTask, if_neg (of_decide_eq_false h)]
    exact .same rfl
  | fail message =>
    rw [runTask, if_neg (of_decide_eq_false h)]
    exact .same rfl
  | readBody k => exact .readBody k
  | write k fails => exact .write k fails

theorem quiet_of_not_puts (repr : Value → PyStr) {t : Turn} {a : Action} (h : t.puts a = false) :
    Quiet t a (t.act repr a) := by
  cases a with
  | receive hf => cases h
  | task step => exact quiet_runTask t step h
  | commit => exact .commit
  | rollback => exact .rollback

/-- Nothing of the turn's own text moves. -/
structure Still (t t' : Turn) : Prop where
  status : t'.status = t.status
  replyText : t'.replyText = t.replyText
  history : t'.history = t.history

theorem Still.trans {t t' t'' : Turn} (h : Still t t') (h' : Still t' t'') : Still t t'' where
  status := h'.status.trans h.status
  replyText := h'.replyText.trans h.replyText
  history := h'.history.trans h.history

theorem Quiet.still {t t' : Turn} {a : Action} (h : Quiet t a t') : Still t t' := by
  cases h with
  | write k fails =>
    rw [Turn.write]
    split <;> exact ⟨rfl, rfl, rfl⟩
  | _ => exact ⟨rfl, rfl, rfl⟩

/-- Only an ending that is done with puts something into the queue, its end mark. -/
theorem Quiet.queue {t t' : Turn} {a : Action} (h : Quiet t a t') :
    t'.queue = t.queue ∨ t'.queue = t.queue ++ [none] := by
  cases h with
  | write k fails =>
    rw [Turn.write]
    split
    · exact .inr rfl
    · exact .inl rfl
  | _ => exact .inl rfl

theorem readBody_nil {t : Turn} (h : t.endings = []) (k : Nat) : (t.readBody k).endings = [] := by
  rw [readBody, h]
  exact List.modify_nil _ k

theorem finalBody_none (replyText : PyStr) : finalBody none replyText = replyText := by
  rw [finalBody]
  split <;> rfl

/-- Where there is no text to write, nothing is written and nothing is done with. -/
theorem writing?_unread {t : Turn} {k : Nat} (h : t.endings[k]?.bind Ending.body = none)
    {fails : Bool} : t.writing? k fails = none := by
  rw [writing?]
  split
  · rename_i heq
    rw [heq] at h
    cases h
  · rfl

theorem write_unread {t : Turn} {k : Nat} (h : t.endings[k]?.bind Ending.body = none)
    {fails : Bool} : t.write k fails = t := by
  rw [write]
  split
  · rename_i heq
    rw [heq] at h
    cases h
  · rfl

section Last

variable {t : Turn} {status : TurnStatus} {content : Option PyStr} {body : PyStr}
  (h : t.endings = [⟨status, content, some body⟩]) (fails : Bool)

include h

theorem write_zero : t.write 0 fails =
    { t with
      row := (t.writing? 0 fails).elim t.row fun written => .committed written.1 written.2
      endings := []
      queue := t.queue ++ [none] } := by
  rw [write, h]
  rfl

theorem writing?_zero : t.writing? 0 fails = none ∨ t.writing? 0 fails = some (body, status) := by
  rw [writing?, h]
  cases t.row with
  | absent => exact .inl rfl
  | uncommitted => exact .inl rfl
  | committed c st =>
    simp only [List.getElem?_cons_zero]
    split
    · exact .inr rfl
    · exact .inl rfl

theorem writing?_zero_eq_some {c : PyStr} {st : TurnStatus} (hrow : t.row = .committed c st)
    (hb : fails = false ∧ body.isStorable = true) : t.writing? 0 fails = some (body, status) := by
  simp [writing?, h, hrow, hb.1, hb.2]

theorem writing?_zero_eq_none {c : PyStr} {st : TurnStatus} (hrow : t.row = .committed c st)
    (hb : ¬ (fails = false ∧ body.isStorable = true)) : t.writing? 0 fails = none := by
  simpa [writing?, h, hrow] using hb

end Last

end Turn

end Eyot.Composer

/-! The turns the backend holds, and all that reaches them: the requests that schedule them, the
tunnels, and the tasks that work on them. -/

namespace Eyot.Composer

/-- `schedule_user_turn` up to the send; in a workspace that is gone no row is inserted. -/
def Turn.scheduled (turnId requestId instanceId workspaceId : Id) (targetEntity text : PyStr)
    (hasRow : Bool) : Turn where
  turnId := turnId
  requestId := requestId
  instanceId := instanceId
  workspaceId := workspaceId
  targetEntity := targetEntity
  status := .responding
  text := text
  replyText := []
  history := []
  queue := []
  stream := .idle
  endings := []
  row := if hasRow then .uncommitted else .absent

inductive Input where
  | schedule (turnId requestId instanceId workspaceId : Id) (targetEntity text : PyStr)
    (hasRow : Bool)
  /-- A message from a socket that has authenticated for the instance. -/
  | tunnel (instanceId : Id) (m : TunnelMessage)
  | task (turnId : Id) (step : TaskStep)
  | commit (requestId : Id)
  | rollback (requestId : Id)

/-- The message is a chat frame, and names the turn. -/
def TunnelMessage.frameFor? (m : TunnelMessage) (turnId : Id) : Option HostFrame :=
  (m.chatFrame?.filter fun c => py turnId = c.1).map Prod.snd

def route : Input → Turn → Option Action
  | .schedule .., _ => none
  | .tunnel _ m, t => (m.frameFor? t.turnId).map .receive
  | .task turnId step, t => if t.turnId = turnId then some (.task step) else none
  | .commit requestId, t => if t.requestId = requestId then some .commit else none
  | .rollback requestId, t => if t.requestId = requestId then some .rollback else none

def spawn : Input → Option Turn
  | .schedule turnId requestId instanceId workspaceId targetEntity text hasRow =>
    some (.scheduled turnId requestId instanceId workspaceId targetEntity text hasRow)
  | _ => none

abbrev Turns := Table Turn.turnId

def turns (repr : Value → PyStr) : Fleet Turn.turnId Action Input where
  act := Turn.act repr
  act_key := Turn.act_turnId repr
  route := route
  spawn := spawn

def Turns.step (repr : Value → PyStr) : Turns → Input → Turns := (turns repr).step

theorem scheduled_of_spawn {i : Input} {t : Turn} (h : spawn i = some t) :
    t.status = .responding ∧ t.history = [] ∧ t.endings = [] := by
  cases i with
  | schedule turnId requestId instanceId workspaceId targetEntity text hasRow =>
    rw [spawn, Option.some.injEq] at h
    subst h
    exact ⟨rfl, rfl, rfl⟩
  | tunnel instanceId m => cases h
  | task turnId step => cases h
  | commit requestId => cases h
  | rollback requestId => cases h

end Eyot.Composer
