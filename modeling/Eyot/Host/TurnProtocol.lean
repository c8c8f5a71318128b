import Eyot.Host.ChatBridge
import Eyot.Library.Run

/-! The turn protocol of the bridge, over whole runs: every accepted request is answered once,
and what is sent for a turn comes from its own run of `pi`. -/

namespace Eyot.Host

/-- What happens to the host.  A report of `pi` and a failed spawn belong to the request whose
run they stem from; no message of `pi` that the bridge reads says which one that is. -/
inductive Input where
  | message (msg : Value) (spawnError : Option Units) (writable : Bool)
  | piEvent (source : Units) (evt : Value)
  | exit
  | spawnError (source message : Units)

structure Sent where
  frame : Frame
  source : Units

/-- The bridge, and what was accepted and sent so far. -/
structure HostState where
  bridge : ChatBridge
  accepted : List Units
  sent : List Sent

namespace HostState

def initial : HostState := ⟨⟨⟨none, false, 0, []⟩, none⟩, [], []⟩

def record (h : HostState) (source : Units) (out : List Frame × ChatBridge) : HostState where
  bridge := out.2
  accepted := h.accepted
  sent := h.sent ++ out.1.map fun f => ⟨f, source⟩

def accept (h : HostState) (r : ChatRequest) : HostState :=
  { h with accepted := h.accepted ++ [r.turnId] }

def step (h : HostState) : Input → HostState
  | .message msg spawnError writable =>
    let out := h.bridge.handleTunnelMessage msg spawnError writable
    match chatRequest? msg with
    | some r => (h.accept r).record r.turnId out
    | none => h.record [] out
  | .piEvent source evt => h.record source (h.bridge.onPiEvent evt)
  | .exit => { h with bridge := { h.bridge with pi := h.bridge.pi.onExit } }
  | .spawnError source message =>
    h.record source
      (h.bridge.failActive (if message = [] then units "host_spawn_error" else message))

def answers (h : HostState) (turnId : Units) : Nat :=
  h.sent.countP fun s => s.frame.isTerminal && s.frame.turnId = turnId

def active (h : HostState) : List Units := h.bridge.active.toList.map ActiveTurn.turnId

/-- Each accepted request is the active turn or has had its one terminal frame, and every frame
carries the id of the request it stems from. -/
structure KeepsProtocol (h : HostState) : Prop where
  answered : ∀ turnId, h.answers turnId + h.active.count turnId = h.accepted.count turnId
  attributed : ∀ s ∈ h.sent, s.frame.turnId = s.source

end HostState

def PiRpc.startThrows (pi : PiRpc) (spawnError : Option Units) : Bool :=
  !pi.running && !pi.started && spawnError.isSome

/-- The bridge has something to say about a report. -/
def speaks (turn : ActiveTurn) : Report → Bool
  | .fullText full => full.length > turn.replyText.length
  | .silent => false
  | .failed _ | .textDelta _ | .activity .. | .agentEnd _ => true

/-- A request finds no active turn, unless it fails before it becomes one, and what makes the
bridge speak stems from the active turn. -/
def Orderly (h : HostState) : Input → Prop
  | .message msg spawnError _ =>
    (chatRequest? msg).isSome = true →
      h.bridge.active = none ∨ h.bridge.pi.startThrows spawnError = true
  | .piEvent source evt =>
    ∀ turn, h.bridge.active = some turn → speaks turn (readEvent evt) = true → turn.turnId = source
  | .exit => True
  | .spawnError source _ => ∀ turn, h.bridge.active = some turn → turn.turnId = source

/-! What the bridge does for its active turn. -/

/-- Frames for one turn that end it, or leave it active. -/
structure Settles (turnId : Units) (frames : List Frame) (active : Option ActiveTurn) : Prop where
  own : ∀ f ∈ frames, f.turnId = turnId
  same : ∀ turn ∈ active, turn.turnId = turnId
  once : frames.countP Frame.isTerminal + active.toList.length = 1

theorem settles_react (turn : ActiveTurn) (report : Report) :
    Settles turn.turnId (react turn report).1 (react turn report).2 := by
  cases report with
  | failed message => exact ⟨by simp [react, ActiveTurn.error, Frame.turnId], by simp [react], rfl⟩
  | textDelta delta =>
    exact ⟨by simp [react, ActiveTurn.chunk, Frame.turnId], by simp [react], rfl⟩
  | fullText full =>
    rw [react]
    split
    · exact ⟨by simp [ActiveTurn.chunk, Frame.turnId], by simp, rfl⟩
    · exact ⟨by simp, by simp, rfl⟩
  | activity kind status toolName delta =>
    exact ⟨by simp [react, Frame.turnId], by simp [react], rfl⟩
  | agentEnd full =>
    rw [react]
    split
    · exact ⟨by simp [ActiveTurn.chunk, ActiveTurn.done, Frame.turnId], by simp, rfl⟩
    · exact ⟨by simp [ActiveTurn.done, Frame.turnId], by simp, rfl⟩
  | silent => exact ⟨by simp [react], by simp [react], rfl⟩

theorem react_eq_nil (turn : ActiveTurn) (report : Report) :
    (react turn report).1 = [] ↔ speaks turn report = false := by
  cases report with
  | fullText full =>
    rw [react, speaks]
    split
    · simp [*]
    · simp [*]
  | agentEnd full =>
    rw [react, speaks]
    split
    · simp
    · simp
  | failed message => simp [react, speaks]
  | textDelta delta => simp [react, speaks]
  | activity kind status toolName delta => simp [react, speaks]
  | silent => simp [react, speaks]

theorem settles_promptTurn (pi : PiRpc) (r : ChatRequest) (writable : Bool) :
    Settles r.turnId (promptTurn pi r writable).1 (promptTurn pi r writable).2.active := by
  cases hok : (pi.prompt writable (if r.text = [] then units "(empty)" else r.text) r.turnId).2 with
  | true =>
    simp only [promptTurn, hok]
    exact ⟨by simp, by simp [ChatRequest.turn], rfl⟩
  | false =>
    simp only [promptTurn, hok]
    exact ⟨by simp [ActiveTurn.error, Frame.turnId, ChatRequest.turn], by simp, rfl⟩

theorem onChatRequest_cases (bridge : ChatBridge) (r : ChatRequest) (spawnError : Option Units)
    (writable : Bool) :
    (bridge.pi.startThrows spawnError = true ∧
      ∃ pi err, bridge.onChatRequest r spawnError writable =
        ([r.turn.error err], { bridge with pi := pi })) ∨
    (bridge.pi.startThrows spawnError = false ∧
      ∃ pi, bridge.onChatRequest r spawnError writable = promptTurn pi r writable) := by
  unfold ChatBridge.onChatRequest PiRpc.startThrows
  cases hrunning : bridge.pi.running with
  | true => exact .inr ⟨rfl, _, rfl⟩
  | false =>
    cases hstarted : bridge.pi.started with
    | true =>
      refine .inr ⟨rfl, bridge.pi, ?_⟩
      simp [PiRpc.start, hstarted]
    | false =>
      cases spawnError with
      | none =>
        refine .inr ⟨rfl, { bridge.pi with
          child := some bridge.pi.spawned, started := true, spawned := bridge.pi.spawned + 1 }, ?_⟩
        simp [PiRpc.start, hstarted]
      | some err =>
        refine .inl ⟨rfl, { bridge.pi with started := true }, err, ?_⟩
        simp [PiRpc.start, hstarted]

/-! What a step does to the counts. -/

namespace HostState

theorem answers_record (h : HostState) (source turnId : Units) (out : List Frame × ChatBridge) :
    (h.record source out).answers turnId =
      h.answers turnId + out.1.countP fun f => f.isTerminal && f.turnId = turnId := by
  simp [answers, record, List.countP_append, List.countP_map, Function.comp_def]

theorem mem_sent_record {h : HostState} {source : Units} {out : List Frame × ChatBridge} {s : Sent} :
    s ∈ (h.record source out).sent ↔ s ∈ h.sent ∨ ∃ f ∈ out.1, s = ⟨f, source⟩ := by
  simp only [record, List.mem_append, List.mem_map]
  exact or_congr_right (exists_congr fun f => and_congr_right fun _ => eq_comm)

end HostState

theorem Settles.count {turnId : Units} {frames : List Frame} {active : Option ActiveTurn}
    (h : Settles turnId frames active) (t : Units) :
    (frames.countP fun f => f.isTerminal && f.turnId = t) +
        (active.toList.map ActiveTurn.turnId).count t = [turnId].count t := by
  have hframes : (frames.countP fun f => f.isTerminal && f.turnId = t) =
      if turnId = t then frames.countP Frame.isTerminal else 0 := by
    split
    · subst t
      exact List.countP_congr fun f hf => by simp [h.own f hf]
    · exact List.countP_eq_zero.mpr fun f hf => by simp [h.own f hf, *]
  have hactive : (active.toList.map ActiveTurn.turnId).count t =
      if turnId = t then active.toList.length else 0 := by
    cases active with
    | none => simp
    | some turn => simp [List.count_singleton, h.same turn rfl]
  rw [hframes, hactive, List.count_singleton]
  have honce := h.once
  split <;> simp_all

namespace HostState

variable {h : HostState}

theorem answers_record_of_settles (source : Units) {turnId : Units} {out : List Frame × ChatBridge}
    (hout : Settles turnId out.1 out.2.active) (t : Units) :
    (h.record source out).answers t + (h.record source out).active.count t =
      h.answers t + [turnId].count t := by
  rw [answers_record, add_assoc]
  exact congrArg (h.answers t + ·) (hout.count t)

/-- A step for the active turn keeps the protocol exactly when what it sends is attributed. -/
theorem keepsProtocol_record_iff (hk : h.KeepsProtocol) {turn : ActiveTurn}
    (hactive : h.bridge.active = some turn) (source : Units) {out : List Frame × ChatBridge}
    (hout : Settles turn.turnId out.1 out.2.active) :
    (h.record source out).KeepsProtocol ↔ (out.1 ≠ [] → turn.turnId = source) := by
  constructor
  · intro hk' hne
    obtain ⟨f, hf⟩ := List.exists_mem_of_ne_nil _ hne
    rw [← hout.own f hf]
    exact hk'.attributed ⟨f, source⟩ (mem_sent_record.mpr (.inr ⟨f, hf, rfl⟩))
  · intro hsource
    refine ⟨fun t => ?_, fun s hs => ?_⟩
    · rw [answers_record_of_settles source hout]
      have hids : h.active = [turn.turnId] := by simp [active, hactive]
      rw [← hids]
      exact hk.answered t
    · rcases mem_sent_record.mp hs with hs | ⟨f, hf, rfl⟩
      · exact hk.attributed s hs
      · rw [hout.own f hf]
        exact hsource (List.ne_nil_of_mem hf)

/-- A step that sends nothing and leaves the active turn alone keeps the protocol. -/
theorem KeepsProtocol.record_nil (hk : h.KeepsProtocol) (source : Units) {bridge : ChatBridge}
    (hactive : bridge.active = h.bridge.active) : (h.record source ([], bridge)).KeepsProtocol := by
  refine ⟨fun t => ?_, fun s hs => ?_⟩
  · rw [answers_record]
    have hids : (h.record source ([], bridge)).active = h.active := by simp [active, record, hactive]
    rw [hids]
    exact hk.answered t
  · rcases mem_sent_record.mp hs with hs | ⟨f, hf, -⟩
    · exact hk.attributed s hs
    · cases hf

theorem attributed_request (hk : h.KeepsProtocol) (r : ChatRequest) {out : List Frame × ChatBridge}
    (hown : ∀ f ∈ out.1, f.turnId = r.turnId) :
    ∀ s ∈ ((h.accept r).record r.turnId out).sent, s.frame.turnId = s.source := by
  intro s hs
  rcases mem_sent_record.mp hs with hs | ⟨f, hf, rfl⟩
  · exact hk.attributed s hs
  · exact hown f hf

/-- A request that becomes the active turn overwrites the turn that is active. -/
theorem keepsProtocol_request_iff (hk : h.KeepsProtocol) (r : ChatRequest)
    {out : List Frame × ChatBridge} (hout : Settles r.turnId out.1 out.2.active) :
    ((h.accept r).record r.turnId out).KeepsProtocol ↔ h.bridge.active = none := by
  have hanswers : ∀ t, ((h.accept r).record r.turnId out).answers t +
      ((h.accept r).record r.turnId out).active.count t = h.answers t + [r.turnId].count t :=
    answers_record_of_settles r.turnId hout
  have haccepted : ∀ t, ((h.accept r).record r.turnId out).accepted.count t =
      h.answers t + h.active.count t + [r.turnId].count t := by
    intro t
    rw [hk.answered t]
    exact List.count_append
  constructor
  · intro hk'
    cases hactive : h.bridge.active with
    | none => rfl
    | some turn =>
      have hcount : h.active.count turn.turnId = 1 := by simp [active, hactive]
      have := hk'.answered turn.turnId
      rw [hanswers, haccepted] at this
      omega
  · intro hactive
    refine ⟨fun t => ?_, attributed_request hk r hout.own⟩
    have hcount : h.active.count t = 0 := by simp [active, hactive]
    rw [hanswers, haccepted, hcount, add_zero]

/-- A request for which no child can be spawned is answered and leaves the active turn alone. -/
theorem keepsProtocol_refused (hk : h.KeepsProtocol) (r : ChatRequest) (pi : PiRpc) (err : Units) :
    ((h.accept r).record r.turnId
      ([r.turn.error err], { h.bridge with pi := pi })).KeepsProtocol := by
  refine ⟨fun t => ?_, attributed_request hk r ?_⟩
  · have hanswer : ([r.turn.error err].countP fun f => f.isTerminal && f.turnId = t) =
        [r.turnId].count t := by
      by_cases ht : r.turnId = t
      · simp [ht, ActiveTurn.error, ChatRequest.turn, Frame.isTerminal, Frame.turnId]
      · simp [ht, ActiveTurn.error, ChatRequest.turn, Frame.isTerminal, Frame.turnId]
    have haccepted : ((h.accept r).record r.turnId
        ([r.turn.error err], { h.bridge with pi := pi })).accepted.count t =
          h.accepted.count t + [r.turnId].count t := List.count_append
    have := hk.answered t
    rw [answers_record, hanswer, haccepted, ← this]
    exact Nat.add_right_comm _ _ _
  · intro f hf
    obtain rfl := List.mem_singleton.mp hf
    rfl

theorem keepsProtocol_initial : initial.KeepsProtocol :=
  ⟨fun _ => rfl, fun s hs => by cases hs⟩

end HostState

open HostState in
theorem step_keepsProtocol_iff (h : HostState) (i : Input) (hk : h.KeepsProtocol) :
    (h.step i).KeepsProtocol ↔ Orderly h i := by
  cases i with
  | message msg spawnError writable =>
    unfold HostState.step Orderly ChatBridge.handleTunnelMessage
    cases hreq : chatRequest? msg with
    | none =>
      simp only [hreq]
      refine iff_of_true ?_ fun hsome => by cases hsome
      split
      · exact hk.record_nil [] rfl
      · exact hk.record_nil [] rfl
    | some r =>
      simp only [hreq]
      rcases onChatRequest_cases h.bridge r spawnError writable with
        ⟨hthrows, pi, err, hout⟩ | ⟨hthrows, pi, hout⟩
      · rw [hout]
        exact iff_of_true (keepsProtocol_refused hk r pi err) fun _ => .inr hthrows
      · rw [hout, keepsProtocol_request_iff hk r (settles_promptTurn pi r writable), hthrows]
        simp
  | piEvent source evt =>
    unfold HostState.step Orderly ChatBridge.onPiEvent
    cases hactive : h.bridge.active with
    | none => exact iff_of_true (hk.record_nil source rfl) fun turn hturn => by cases hturn
    | some turn =>
      dsimp only
      rw [keepsProtocol_record_iff hk hactive source (settles_react turn (readEvent evt)), ne_eq,
        react_eq_nil, Bool.not_eq_false]
      simp
  | exit =>
    exact iff_of_true ⟨hk.answered, hk.attributed⟩ trivial
  | spawnError source message =>
    unfold HostState.step Orderly ChatBridge.failActive
    cases hactive : h.bridge.active with
    | none => exact iff_of_true (hk.record_nil source rfl) fun turn hturn => by cases hturn
    | some turn =>
      dsimp only
      rw [keepsProtocol_record_iff hk hactive source]
      · simp
      · exact ⟨by simp [ActiveTurn.error, Frame.turnId], by simp, rfl⟩

/-- A run keeps the turn protocol exactly when all its steps are orderly. -/
theorem turns_answered_iff_orderly (is : List Input) :
    Run.Always HostState.step HostState.KeepsProtocol HostState.initial is ↔
      Run.Meets HostState.step Orderly HostState.initial is :=
  Run.always_iff_meets (r := fun _ => True) (fun _ _ _ => trivial)
    (fun h i _ hk => step_keepsProtocol_iff h i hk) trivial HostState.keepsProtocol_initial is

def requestTurn (turnId : String) : Input :=
  .message (.obj [(units "type", .str (units "chat.request")),
    (units "turn_id", .str (units turnId)),
    (units "payload", .obj [(units "text", .str (units "hi"))])]) none true

def interruptTurn : Input :=
  .message (.obj [(units "type", .str (units "control")),
    (units "payload", .obj [(units "action", .str (units "interrupt"))])]) none true

def endOfRun (turnId : String) : Input :=
  .piEvent (units turnId) (.obj [(units "type", .str (units "agent_end"))])

/-- A turn that is interrupted is never answered once the next one begins, and a late end of its
run ends the next one. -/
theorem interrupted_turn_is_lost :
    let h := Run.exec HostState.step HostState.initial
      [requestTurn "a", interruptTurn, requestTurn "b", endOfRun "a"]
    units "a" ∈ h.accepted ∧ units "a" ∉ h.active ∧ h.answers (units "a") = 0 ∧
      ∃ s ∈ h.sent, s.frame.isTerminal = true ∧ s.frame.turnId = units "b" ∧
        s.source = units "a" := by
  decide +kernel

end Eyot.Host
