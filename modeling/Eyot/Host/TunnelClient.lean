import Eyot.Data.JsonParse
import Eyot.Library.Run
import Mathlib.Data.List.Count

/-! The tunnel of an instance host: its sockets and its timers, whose callbacks share the fields of
one client and come in whatever order. -/

namespace Eyot.Host

open JsonParse (parse)
open Run (exec Always Meets)

inductive ReadyState where
  | connecting | opened | closing | closed
  deriving DecidableEq

/-- What `makeMessage` gets; the id and the time are its own. -/
structure Outgoing where
  type : Units
  payload : List (Units × Value)

def pong : Outgoing := ⟨units "pong", []⟩

structure Options where
  instanceId : Units
  proxyToken : Units

def Options.auth (opts : Options) : Outgoing :=
  ⟨units "auth", [(units "instance_id", .str opts.instanceId),
    (units "proxy_token", .str opts.proxyToken)]⟩

structure WebSocket where
  readyState : ReadyState
  sent : List Outgoing

def WebSocket.live (w : WebSocket) : Bool := w.readyState ≠ .closed

def WebSocket.send (w : WebSocket) (m : Outgoing) : WebSocket := { w with sent := w.sent ++ [m] }

/-- The close frame goes out, or the handshake is given up; `close` is emitted later. -/
def WebSocket.close (w : WebSocket) : WebSocket :=
  { w with readyState := if w.readyState = .closed then .closed else .closing }

structure Timer where
  delay : Nat
  armed : Bool

def Timer.clear (t : Timer) : Timer := { t with armed := false }

/-- `sockets` and `timers` are all there have been. -/
structure TunnelClient where
  ws : Option Nat
  stopped : Bool
  attempt : Nat
  reconnectTimer : Option Nat
  sockets : List WebSocket
  timers : List Timer
  received : List Value
  rejections : Nat

inductive SocketEvent where
  | start
  | stop
  | send (m : Outgoing)
  | opened (w : Nat)
  | message (w : Nat) (raw : Units)
  /-- The other side closes, or the connection is lost. -/
  | closing (w : Nat)
  | closed (w : Nat)
  | error (w : Nat)
  | fired (t : Nat)

def RECONNECT_BASE_MS : Nat := 1000

def RECONNECT_MAX_MS : Nat := 30000

def reconnectDelay (attempt : Nat) : Nat :=
  min RECONNECT_MAX_MS (RECONNECT_BASE_MS * 2 ^ min attempt 5)

/-- What a message of the backend is to the client. -/
inductive Received where
  | badJson
  | authOk
  | authError (reason : Units)
  | ping
  | forwarded (msg : Value)
  /-- A type error outside of any `try`, in a promise nobody waits for. -/
  | rejected

def readMessage (msg : Value) : Received :=
  let type := str? (msg.member "type")
  if type = some (units "auth.ok") then .authOk
  else if type = some (units "auth.error") then
    let reason := (msg.member "payload").bind (Json.member "reason")
    (toStr ((present reason).getD (.str (units "unknown")))).elim .rejected .authError
  else if type = some (units "ping") then .ping
  else .forwarded msg

-- What the number of a numeral prints as.
variable (number : Units → Units)

def readRaw (raw : Units) : Received :=
  match parse number raw with
  | none => .badJson
  | some .null => .rejected
  | some msg => readMessage msg

namespace TunnelClient

def initial : TunnelClient where
  ws := none
  stopped := false
  attempt := 0
  reconnectTimer := none
  sockets := []
  timers := []
  received := []
  rejections := 0

variable (opts : Options) (s : TunnelClient)

def readyState? (w : Nat) : Option ReadyState := (s.sockets[w]?).map WebSocket.readyState

def connected : Bool := s.ws.any fun w => s.readyState? w = some .opened

def modifySocket (w : Nat) (f : WebSocket → WebSocket) : TunnelClient :=
  { s with sockets := s.sockets.modify w f }

def send (m : Outgoing) : TunnelClient × Bool :=
  match s.ws with
  | none => (s, false)
  | some w =>
    if s.readyState? w = some .opened then (s.modifySocket w fun ws => ws.send m, true)
    else (s, false)

def connect : TunnelClient :=
  if s.stopped then s
  else { s with ws := some s.sockets.length, sockets := s.sockets ++ [⟨.connecting, []⟩] }

def start : TunnelClient := connect { s with stopped := false }

def clearTimeout (t : Nat) : TunnelClient := { s with timers := s.timers.modify t Timer.clear }

def stop : TunnelClient :=
  let s := { s with stopped := true }
  let s := match s.reconnectTimer with
    | some t => { s.clearTimeout t with reconnectTimer := none }
    | none => s
  match s.ws with
  | some w => { s.modifySocket w WebSocket.close with ws := none }
  | none => s

def scheduleReconnect : TunnelClient :=
  if s.stopped then s
  else
    { s with
      attempt := s.attempt + 1
      timers := s.timers ++ [⟨reconnectDelay s.attempt, true⟩]
      reconnectTimer := some s.timers.length }

def handleRaw (raw : Units) : TunnelClient :=
  match readRaw number raw with
  | .ping => (s.send pong).1
  | .forwarded msg => { s with received := s.received ++ [msg] }
  | .rejected => { s with rejections := s.rejections + 1 }
  | .badJson | .authOk | .authError _ => s

/-! The listeners are set up with a socket, but the fields they write are the client's. -/

def onOpen (w : Nat) : TunnelClient :=
  { s with attempt := 0 }.modifySocket w fun ws => { ws with readyState := .opened }.send opts.auth

def onClose (w : Nat) : TunnelClient :=
  let s := s.modifySocket w fun ws => { ws with readyState := .closed }
  scheduleReconnect { s with ws := none }

/-- A socket opens once, and closes once; messages come in until it is closed. -/
def step (s : TunnelClient) : SocketEvent → TunnelClient
  | .start => s.start
  | .stop => s.stop
  | .send m => (s.send m).1
  | .opened w => if s.readyState? w = some .connecting then s.onOpen opts w else s
  | .message w raw =>
    if s.readyState? w = some .opened || s.readyState? w = some .closing then
      s.handleRaw number raw
    else s
  | .closing w => s.modifySocket w WebSocket.close
  | .closed w => if (s.sockets[w]?).any WebSocket.live then s.onClose w else s
  | .error _ => s
  | .fired t =>
    if (s.timers[t]?).any Timer.armed then (s.clearTimeout t).connect else s

/-! One socket or one timer at a time. -/

def live : Nat := s.sockets.countP WebSocket.live

def pending : Nat := s.timers.countP Timer.armed

def liveAt (w : Nat) : Prop := (s.sockets[w]?).any WebSocket.live

def armedAt (t : Nat) : Prop := (s.timers[t]?).any Timer.armed

/-- The client has one connection or waits for one, and refers to what it has. -/
structure Sole (s : TunnelClient) : Prop where
  atMostOne : s.live + s.pending ≤ 1
  atLeastOne : s.stopped = false → s.sockets ≠ [] → s.live + s.pending = 1
  quiet : s.stopped = true → s.pending = 0
  current : s.stopped = false → ∀ w, s.liveAt w → s.ws = some w

/-- The timer that runs is the one that `stop` clears. -/
def Linked (s : TunnelClient) : Prop := ∀ t, s.armedAt t → s.reconnectTimer = some t

theorem countP_modify {α : Type} (p : α → Bool) (f : α → α) {l : List α} {i : Nat} {a : α}
    (h : l[i]? = some a) :
    (l.modify i f).countP p + (p a).toNat = l.countP p + (p (f a)).toNat := by
  induction l generalizing i with
  | nil => cases h
  | cons b l ih =>
    cases i with
    | zero =>
      obtain rfl := Option.some.inj h
      rw [List.modify_zero_cons, List.countP_cons, List.countP_cons]
      cases p b <;> cases p (f b) <;> simp
    | succ i =>
      rw [List.modify_succ_cons, List.countP_cons, List.countP_cons]
      have := ih h
      omega

theorem map_modify_of_eq {α β : Type} {g : α → β} {f : α → α} {l : List α} {i : Nat}
    (h : ∀ a, l[i]? = some a → g (f a) = g a) : (l.modify i f).map g = l.map g := by
  induction l generalizing i with
  | nil => rw [List.modify_nil]
  | cons b l ih =>
    cases i with
    | zero =>
      rw [List.modify_zero_cons, List.map_cons, List.map_cons, h b rfl]
    | succ i => rw [List.modify_succ_cons, List.map_cons, List.map_cons, ih h]

/-- Nothing has changed but what has been sent, and how far the sockets have come that live. -/
structure Alike (s s' : TunnelClient) : Prop where
  ws : s'.ws = s.ws
  stopped : s'.stopped = s.stopped
  reconnectTimer : s'.reconnectTimer = s.reconnectTimer
  sockets : s'.sockets.map WebSocket.live = s.sockets.map WebSocket.live
  timers : s'.timers = s.timers

variable {s} {s' : TunnelClient}

theorem liveAt_iff {w : Nat} : s.liveAt w ↔ (s.sockets.map WebSocket.live)[w]? = some true := by
  rw [liveAt, List.getElem?_map]
  cases s.sockets[w]? <;> simp

theorem live_eq : s.live = (s.sockets.map WebSocket.live).count true := by
  rw [live, List.count, List.countP_map]
  congr 1
  funext w
  simp

namespace Alike

theorem live (h : Alike s s') : s'.live = s.live := by
  rw [live_eq, live_eq, h.sockets]

theorem pending (h : Alike s s') : s'.pending = s.pending := by
  rw [TunnelClient.pending, TunnelClient.pending, h.timers]

theorem sole (h : Alike s s') (hs : s.Sole) : s'.Sole := by
  have hne : s'.sockets ≠ [] → s.sockets ≠ [] := by
    intro hne hnil
    have hmap := h.sockets
    rw [hnil] at hmap
    exact hne (List.map_eq_nil_iff.mp hmap)
  constructor
  · rw [h.live, h.pending]
    exact hs.atMostOne
  · intro hstop hsock
    rw [h.live, h.pending]
    exact hs.atLeastOne (h.stopped ▸ hstop) (hne hsock)
  · intro hstop
    rw [h.pending]
    exact hs.quiet (h.stopped ▸ hstop)
  · intro hstop w hw
    rw [liveAt_iff, h.sockets, ← liveAt_iff] at hw
    rw [h.ws]
    exact hs.current (h.stopped ▸ hstop) w hw

theorem linked (h : Alike s s') (hs : s.Linked) : s'.Linked := by
  intro t ht
  rw [armedAt, h.timers] at ht
  rw [h.reconnectTimer]
  exact hs t ht

end Alike

theorem alike_modifySocket {w : Nat} {f : WebSocket → WebSocket}
    (h : ∀ ws, s.sockets[w]? = some ws → (f ws).live = ws.live) : Alike s (s.modifySocket w f) :=
  ⟨rfl, rfl, rfl, map_modify_of_eq h, rfl⟩

theorem live_send (ws : WebSocket) (m : Outgoing) : (ws.send m).live = ws.live := rfl

theorem live_close (ws : WebSocket) : ws.close.live = ws.live := by
  rw [WebSocket.live, WebSocket.live, WebSocket.close]
  split
  · next h => rw [h]
  · next h => simp [h]

theorem Alike.refl (s : TunnelClient) : Alike s s := ⟨rfl, rfl, rfl, rfl, rfl⟩

theorem alike_send (m : Outgoing) : Alike s (s.send m).1 := by
  rw [send]
  split
  · exact .refl s
  · split
    · exact alike_modifySocket fun ws _ => live_send ws m
    · exact .refl s

theorem alike_handleRaw (raw : Units) : Alike s (s.handleRaw number raw) := by
  rw [handleRaw]
  split
  · exact alike_send pong
  · exact ⟨rfl, rfl, rfl, rfl, rfl⟩
  · exact ⟨rfl, rfl, rfl, rfl, rfl⟩
  · exact .refl s
  · exact .refl s
  · exact .refl s

theorem alike_onOpen {w : Nat} (h : s.readyState? w = some .connecting) :
    Alike s (s.onOpen opts w) := by
  refine ⟨rfl, rfl, rfl, map_modify_of_eq fun ws hws => ?_, rfl⟩
  have hws : s.sockets[w]? = some ws := hws
  rw [readyState?, hws, Option.map_some, Option.some.injEq] at h
  simp [WebSocket.live, WebSocket.send, h]

theorem countP_eq_zero_iff {α : Type} {p : α → Bool} {l : List α} :
    l.countP p = 0 ↔ ∀ i : Nat, ¬ (l[i]?).any p := by
  rw [List.countP_eq_zero]
  constructor
  · intro h i hi
    obtain ⟨a, ha, hp⟩ := (Option.any_eq_true _ _).mp hi
    exact h a (List.mem_of_getElem? ha) hp
  · intro h a ha hp
    obtain ⟨i, hi⟩ := List.getElem?_of_mem ha
    exact h i ((Option.any_eq_true _ _).mpr ⟨a, hi, hp⟩)

theorem live_eq_zero_iff : s.live = 0 ↔ ∀ w, ¬ s.liveAt w := countP_eq_zero_iff

theorem pending_eq_zero_iff : s.pending = 0 ↔ ∀ t, ¬ s.armedAt t := countP_eq_zero_iff

/-- Nothing lives that belongs to an earlier connection. -/
def Idle (s : TunnelClient) : Prop := s.live = 0 ∧ s.pending = 0

theorem linked_of_idle (h : s.pending = 0) : s.Linked := by
  intro t ht
  exact absurd ht (pending_eq_zero_iff.mp h t)

theorem pending_connect : s.connect.pending = s.pending := by
  rw [connect]
  split <;> rfl

theorem live_connect (h : s.stopped = false) : s.connect.live = s.live + 1 := by
  rw [connect, if_neg (by simp [h])]
  simp [live, WebSocket.live]

theorem sole_connect (hidle : s.Idle) (hstop : s.stopped = false) : s.connect.Sole := by
  have hlive := live_connect hstop
  have hpending := s.pending_connect
  have hstopped : s.connect.stopped = false := by rw [connect, if_neg (by simp [hstop]), hstop]
  constructor
  · have := hidle.1; have := hidle.2; omega
  · intro _ _
    have := hidle.1; have := hidle.2; omega
  · intro h
    rw [hstopped] at h
    cases h
  · intro _ w hw
    rw [connect, if_neg (by simp [hstop])] at hw ⊢
    rw [liveAt, List.getElem?_append] at hw
    split at hw
    · exact absurd hw (live_eq_zero_iff.mp hidle.1 w)
    · next hlt =>
      obtain ⟨ws, hws, -⟩ := (Option.any_eq_true _ _).mp hw
      have hlen := (List.getElem?_eq_some_iff.mp hws).1
      have : w = s.sockets.length := by
        rw [List.length_singleton] at hlen
        omega
      rw [this]

theorem sole_start (hidle : s.Idle) : s.start.Sole :=
  sole_connect (s := { s with stopped := false }) hidle rfl

theorem pending_clearTimeout {t : Nat} (h : s.armedAt t) :
    (s.clearTimeout t).pending + 1 = s.pending := by
  obtain ⟨timer, htimer, harmed⟩ := (Option.any_eq_true _ _).mp h
  have hcount := countP_modify Timer.armed Timer.clear htimer
  rw [harmed] at hcount
  exact hcount

theorem sole_fired {t : Nat} (hs : s.Sole) (ht : s.armedAt t) :
    (s.clearTimeout t).connect.Sole := by
  have hpending := pending_clearTimeout ht
  have hone := hs.atMostOne
  have hidle : (s.clearTimeout t).Idle := by
    have hlive : (s.clearTimeout t).live = s.live := rfl
    constructor <;> omega
  have hstop : s.stopped = false := by
    cases h : s.stopped with
    | false => rfl
    | true =>
      have := hs.quiet h
      omega
  exact sole_connect hidle hstop

theorem linked_fired {t : Nat} (hs : s.Sole) (ht : s.armedAt t) :
    (s.clearTimeout t).connect.Linked := by
  apply linked_of_idle
  have hpending := pending_clearTimeout ht
  have hone := hs.atMostOne
  rw [pending_connect]
  omega

theorem onClose_of_stopped (w : Nat) (h : s.stopped = true) :
    s.onClose w =
      { s.modifySocket w fun ws => { ws with readyState := .closed } with ws := none } :=
  if_pos h

theorem onClose_of_running (w : Nat) (h : s.stopped = false) :
    s.onClose w =
      { s.modifySocket w fun ws => { ws with readyState := .closed } with
        ws := none
        attempt := s.attempt + 1
        timers := s.timers ++ [⟨reconnectDelay s.attempt, true⟩]
        reconnectTimer := some s.timers.length } :=
  if_neg (by simp [modifySocket, h])

theorem stopped_onClose (w : Nat) : (s.onClose w).stopped = s.stopped := by
  cases h : s.stopped with
  | true => rw [onClose_of_stopped w h, ← h]; rfl
  | false => rw [onClose_of_running w h, ← h]; rfl

theorem live_onClose {w : Nat} (h : s.liveAt w) : (s.onClose w).live + 1 = s.live := by
  obtain ⟨ws, hws, hlive⟩ := (Option.any_eq_true _ _).mp h
  have hcount := countP_modify WebSocket.live (fun ws => { ws with readyState := .closed }) hws
  rw [hlive] at hcount
  cases hstop : s.stopped with
  | true =>
    rw [onClose_of_stopped w hstop]
    exact hcount
  | false =>
    rw [onClose_of_running w hstop]
    exact hcount

theorem pending_onClose (w : Nat) : (s.onClose w).pending = s.pending + (!s.stopped).toNat := by
  cases h : s.stopped with
  | true =>
    rw [onClose_of_stopped w h]
    rfl
  | false =>
    rw [onClose_of_running w h, pending, List.countP_append]
    rfl

theorem sole_closed {w : Nat} (hs : s.Sole) (hw : s.liveAt w) : (s.onClose w).Sole := by
  have hlive := live_onClose hw
  have hpending := s.pending_onClose w
  have hone := hs.atMostOne
  have hgone : (s.onClose w).live = 0 := by omega
  constructor
  · cases hstop : s.stopped with
    | true =>
      have := hs.quiet hstop
      rw [hstop, Bool.not_true, Bool.toNat_false] at hpending
      omega
    | false =>
      rw [hstop, Bool.not_false, Bool.toNat_true] at hpending
      omega
  · intro hstop _
    rw [stopped_onClose] at hstop
    rw [hstop, Bool.not_false, Bool.toNat_true] at hpending
    omega
  · intro hstop
    rw [stopped_onClose] at hstop
    rw [hstop, hs.quiet hstop] at hpending
    exact hpending
  · intro _ v hv
    exact absurd hv (live_eq_zero_iff.mp hgone v)

theorem linked_closed {w : Nat} (hs : s.Sole) (hw : s.liveAt w) :
    (s.onClose w).Linked := by
  cases hstop : s.stopped with
  | true =>
    rw [onClose_of_stopped w hstop]
    exact linked_of_idle (hs.quiet hstop)
  | false =>
    rw [onClose_of_running w hstop]
    intro t ht
    have hlive := live_onClose hw
    have hone := hs.atMostOne
    have hnone : s.pending = 0 := by omega
    have ht : ((s.timers ++ [⟨reconnectDelay s.attempt, true⟩])[t]?).any Timer.armed := ht
    rw [List.getElem?_append] at ht
    split at ht
    · exact absurd ht (pending_eq_zero_iff.mp hnone t)
    · next hge =>
      obtain ⟨timer, htimer, -⟩ := (Option.any_eq_true _ _).mp ht
      have hlen := (List.getElem?_eq_some_iff.mp htimer).1
      rw [List.length_singleton] at hlen
      have heq : s.timers.length = t := by omega
      exact congrArg some heq

/-- `stop` before it closes the socket. -/
def quieten (s : TunnelClient) : TunnelClient :=
  match s.reconnectTimer with
  | some t => { { s with stopped := true }.clearTimeout t with reconnectTimer := none }
  | none => { s with stopped := true }

theorem stop_eq (s : TunnelClient) : s.stop =
    match s.quieten.ws with
    | some w => { s.quieten.modifySocket w WebSocket.close with ws := none }
    | none => s.quieten := by
  rw [stop, quieten]

theorem stopped_quieten (s : TunnelClient) : s.quieten.stopped = true := by
  rw [quieten]
  split <;> rfl

theorem live_quieten (s : TunnelClient) : s.quieten.live = s.live := by
  rw [quieten]
  split <;> rfl

theorem pending_quieten (hl : s.Linked) : s.quieten.pending = 0 := by
  cases h : s.reconnectTimer with
  | none =>
    rw [quieten, h]
    refine pending_eq_zero_iff.mpr fun t ht => ?_
    have := hl t ht
    rw [h] at this
    cases this
  | some t =>
    rw [quieten, h]
    refine pending_eq_zero_iff.mpr fun u hu => ?_
    have hu : ((s.timers.modify t Timer.clear)[u]?).any Timer.armed := hu
    rw [List.getElem?_modify] at hu
    by_cases htu : t = u
    · cases hget : s.timers[u]? <;> simp [hget, htu, Timer.clear] at hu
    · simp only [htu, if_false, Option.map_eq_map, Option.map_id'] at hu
      have := hl u hu
      rw [h, Option.some.injEq] at this
      exact htu this

theorem stopped_stop (s : TunnelClient) : s.stop.stopped = true := by
  rw [stop_eq]
  split <;> exact stopped_quieten s

theorem ws_stop (s : TunnelClient) : s.stop.ws = none := by
  rw [stop_eq]
  split
  · rfl
  · next h => exact h

theorem live_stop (s : TunnelClient) : s.stop.live = s.live := by
  rw [stop_eq, ← live_quieten s]
  split
  · next w h =>
    have hsame : Alike s.quieten (s.quieten.modifySocket w WebSocket.close) :=
      alike_modifySocket fun ws _ => live_close ws
    exact hsame.live
  · rfl

theorem pending_stop (hl : s.Linked) : s.stop.pending = 0 := by
  rw [stop_eq, ← pending_quieten hl]
  split <;> rfl

theorem sole_stop (hs : s.Sole) (hl : s.Linked) : s.stop.Sole := by
  have hone := hs.atMostOne
  constructor
  · rw [live_stop, pending_stop hl]
    omega
  · intro h
    rw [stopped_stop] at h
    cases h
  · intro _
    exact pending_stop hl
  · intro h
    rw [stopped_stop] at h
    cases h

/-- A connection is opened by `start` only when the one before is gone. -/
def StartsIdle (s : TunnelClient) (e : SocketEvent) : Prop := e = .start → s.Idle

theorem step_keeps (e : SocketEvent) (hl : s.Linked) (hs : s.Sole) (he : s.StartsIdle e) :
    (step number opts s e).Linked ∧ (step number opts s e).Sole := by
  have alike {s'} (h : Alike s s') : s'.Linked ∧ s'.Sole := ⟨h.linked hl, h.sole hs⟩
  cases e with
  | start =>
    have hidle := he rfl
    refine ⟨linked_of_idle ?_, sole_start hidle⟩
    rw [step, start, pending_connect]
    exact hidle.2
  | stop => exact ⟨linked_of_idle (pending_stop hl), sole_stop hs hl⟩
  | send m => exact alike (alike_send m)
  | opened w =>
    rw [step]
    split
    · next h => exact alike (alike_onOpen opts h)
    · exact ⟨hl, hs⟩
  | message w raw =>
    rw [step]
    split
    · exact alike (alike_handleRaw number raw)
    · exact ⟨hl, hs⟩
  | closing w => exact alike (alike_modifySocket fun ws _ => live_close ws)
  | closed w =>
    rw [step]
    split
    · next h => exact ⟨linked_closed hs h, sole_closed hs h⟩
    · exact ⟨hl, hs⟩
  | error w => exact ⟨hl, hs⟩
  | fired t =>
    rw [step]
    split
    · next h => exact ⟨linked_fired hs h, sole_fired hs h⟩
    · exact ⟨hl, hs⟩

theorem startsIdle_of_sole (e : SocketEvent) (hs : (step number opts s e).Sole) :
    s.StartsIdle e := by
  rintro rfl
  have hone := hs.atMostOne
  have hlive : (step number opts s .start).live = s.live + 1 :=
    live_connect (s := { s with stopped := false }) rfl
  have hpending : (step number opts s .start).pending = s.pending :=
    pending_connect (s := { s with stopped := false })
  constructor <;> omega

/-- Over any run of the client, it has at most one socket that is not closed or one timer that
runs, exactly one while it is not stopped, none that runs when it is, and it refers to the socket
it has, exactly if `start` never comes before the connection it has had is gone. -/
theorem sole_iff_startsIdle (es : List SocketEvent) :
    Always (step number opts) Sole initial es ↔ Meets (step number opts) StartsIdle initial es := by
  apply Run.always_iff_meets_of_keeps (r := Linked)
  · intro s e hl hs he
    exact step_keeps number opts e hl hs he
  · intro s e _ _ hs
    exact startsIdle_of_sole number opts e hs
  · intro t ht
    cases ht
  · constructor
    · exact Nat.zero_le 1
    · exact fun _ h => absurd rfl h
    · exact fun _ => rfl
    · exact fun _ w hw => nomatch hw

/-! What is sent. -/

/-- What a step sends besides the authentication: what `send` has said to have sent, and an answer
to a ping. -/
def accepts (s : TunnelClient) : SocketEvent → List Outgoing
  | .send m => if (s.send m).2 then [m] else []
  | .message w raw =>
    if s.readyState? w = some .opened || s.readyState? w = some .closing then
      match readRaw number raw with
      | .ping => if (s.send pong).2 then [pong] else []
      | _ => []
    else []
  | _ => []

def accepted : TunnelClient → List SocketEvent → List Outgoing
  | _, [] => []
  | s, e :: es => s.accepts number e ++ accepted (step number opts s e) es

/-- What the sockets have sent behind the first frame of each, one socket after the other. -/
def delivered (s : TunnelClient) : List Outgoing := (s.sockets.map fun ws => ws.sent.tail).flatten

/-- Nothing goes out before a socket is open, and then the authentication comes first. -/
structure Authenticated (auth : Outgoing) (ws : WebSocket) : Prop where
  before : ws.readyState = .connecting → ws.sent = []
  after : ws.readyState = .opened → ws.sent ≠ []
  first : ws.sent = [] ∨ ∃ rest, ws.sent = auth :: rest

structure Wired (opts : Options) (s : TunnelClient) : Prop where
  newest : ∀ w, s.ws = some w → w + 1 = s.sockets.length
  authenticated : ∀ ws ∈ s.sockets, Authenticated opts.auth ws

theorem mem_modify {α : Type} {f : α → α} {l : List α} {i : Nat} {b : α} (h : b ∈ l.modify i f) :
    b ∈ l ∨ ∃ a, l[i]? = some a ∧ b = f a := by
  obtain ⟨j, hj⟩ := List.getElem?_of_mem h
  rw [List.getElem?_modify] at hj
  by_cases hij : i = j
  · subst hij
    cases ha : l[i]? with
    | none => simp [ha] at hj
    | some a =>
      simp only [ha, if_true, Option.map_eq_map, Option.map_some, Option.some.injEq] at hj
      exact .inr ⟨a, rfl, hj.symm⟩
  · simp only [hij, if_false, Option.map_eq_map, Option.map_id'] at hj
    exact .inl (List.mem_of_getElem? hj)

variable {opts}

namespace Authenticated

variable {auth : Outgoing} {ws : WebSocket}

theorem close (h : Authenticated auth ws) : Authenticated auth ws.close := by
  constructor
  · intro hstate
    rw [WebSocket.close] at hstate
    split at hstate <;> cases hstate
  · intro hstate
    rw [WebSocket.close] at hstate
    split at hstate <;> cases hstate
  · exact h.first

/-- A frame goes behind the first one. -/
theorem send (h : Authenticated auth ws) (hopen : ws.readyState = .opened) (m : Outgoing) :
    Authenticated auth (ws.send m) ∧ (ws.send m).sent.tail = ws.sent.tail ++ [m] := by
  obtain hnil | ⟨rest, hrest⟩ := h.first
  · exact absurd hnil (h.after hopen)
  · refine ⟨⟨fun hstate => ?_, fun _ => ?_, .inr ⟨rest ++ [m], ?_⟩⟩, ?_⟩
    · have hstate : ws.readyState = .connecting := hstate
      rw [hopen] at hstate
      cases hstate
    · exact List.append_ne_nil_of_right_ne_nil _ (List.cons_ne_nil m [])
    · rw [WebSocket.send, hrest, List.cons_append]
    · rw [WebSocket.send, hrest, List.cons_append, List.tail_cons, List.tail_cons]

end Authenticated

namespace Wired

theorem modifySocket (h : s.Wired opts) {w : Nat} {f : WebSocket → WebSocket}
    (hf : ∀ ws, s.sockets[w]? = some ws → Authenticated opts.auth ws →
      Authenticated opts.auth (f ws)) : (s.modifySocket w f).Wired opts := by
  constructor
  · intro v hv
    rw [TunnelClient.modifySocket, List.length_modify]
    exact h.newest v hv
  · intro ws hws
    obtain hws | ⟨ws', hget, rfl⟩ := mem_modify hws
    · exact h.authenticated ws hws
    · exact hf ws' hget (h.authenticated ws' (List.mem_of_getElem? hget))

/-- The sockets are the same, and the reference to them is the same or gone. -/
theorem of_sockets {s' : TunnelClient} (h : s.Wired opts) (hsockets : s'.sockets = s.sockets)
    (hws : s'.ws = s.ws ∨ s'.ws = none) : s'.Wired opts := by
  constructor
  · intro w hw
    rw [hsockets]
    obtain heq | hnone := hws
    · exact h.newest w (heq ▸ hw)
    · rw [hnone] at hw
      cases hw
  · rw [hsockets]
    exact h.authenticated

theorem connect (h : s.Wired opts) : s.connect.Wired opts := by
  rw [TunnelClient.connect]
  split
  · exact h
  · constructor
    · intro w hw
      obtain rfl := Option.some.inj hw
      rw [List.length_append, List.length_singleton]
    · intro ws hws
      obtain hws | hws := List.mem_append.mp hws
      · exact h.authenticated ws hws
      · obtain rfl := List.mem_singleton.mp hws
        exact ⟨fun _ => rfl, fun h => (by cases h), .inl rfl⟩

end Wired

theorem flatten_modify_last {α β : Type} {g : α → List β} {f : α → α} {l : List α} {i : Nat}
    {a : α} {x : List β} (h : l[i]? = some a) (hi : i + 1 = l.length) (hf : g (f a) = g a ++ x) :
    ((l.modify i f).map g).flatten = (l.map g).flatten ++ x := by
  induction l generalizing i with
  | nil => cases h
  | cons b l ih =>
    cases i with
    | zero =>
      obtain rfl := Option.some.inj h
      obtain rfl : l = [] := List.length_eq_zero_iff.mp (Nat.succ.inj hi).symm
      rw [List.modify_zero_cons, List.map_singleton, List.map_singleton, List.flatten_singleton,
        List.flatten_singleton, hf]
    | succ i =>
      rw [List.modify_succ_cons, List.map_cons, List.map_cons, List.flatten_cons,
        List.flatten_cons, List.append_assoc]
      congr 1
      exact ih h (Nat.succ.inj hi)

theorem delivered_modifySocket {w : Nat} {f : WebSocket → WebSocket}
    (hf : ∀ ws, s.sockets[w]? = some ws → (f ws).sent.tail = ws.sent.tail) :
    (s.modifySocket w f).delivered = s.delivered :=
  congrArg List.flatten (map_modify_of_eq hf)

theorem delivered_connect (s : TunnelClient) : s.connect.delivered = s.delivered := by
  rw [connect]
  split
  · rfl
  · simp [delivered]

/-- What step one event makes of what is sent. -/
structure Sends (opts : Options) (s s' : TunnelClient) (ms : List Outgoing) : Prop where
  wired : s'.Wired opts
  delivered : s'.delivered = s.delivered ++ ms

theorem Sends.nothing {s' : TunnelClient} (hw : s'.Wired opts)
    (hd : s'.delivered = s.delivered) : Sends opts s s' [] :=
  ⟨hw, by rw [hd, List.append_nil]⟩

theorem sends_send (h : s.Wired opts) (m : Outgoing) :
    Sends opts s (s.send m).1 (if (s.send m).2 then [m] else []) := by
  rw [send]
  split
  · exact .nothing h rfl
  · next w hw =>
    split
    · next hstate =>
      obtain ⟨ws, hget, hopen⟩ := Option.map_eq_some_iff.mp hstate
      have hauth := h.authenticated ws (List.mem_of_getElem? hget)
      constructor
      · apply h.modifySocket
        intro ws' hget' hauth'
        obtain rfl := Option.some.inj (hget.symm.trans hget')
        exact (hauth'.send hopen m).1
      · exact flatten_modify_last hget (h.newest w hw) (hauth.send hopen m).2
    · exact .nothing h rfl

theorem sends_onOpen (h : s.Wired opts) {w : Nat} (hstate : s.readyState? w = some .connecting) :
    Sends opts s (s.onOpen opts w) [] := by
  obtain ⟨ws, hget, hnew⟩ := Option.map_eq_some_iff.mp hstate
  have hsent := (h.authenticated ws (List.mem_of_getElem? hget)).before hnew
  have hfresh : ({ ws with readyState := .opened }.send opts.auth).sent = [opts.auth] := by
    rw [WebSocket.send, hsent, List.nil_append]
  have h : ({ s with attempt := 0 } : TunnelClient).Wired opts := h.of_sockets rfl (.inl rfl)
  apply Sends.nothing
  · apply h.modifySocket
    intro ws' hget' _
    obtain rfl := Option.some.inj (hget.symm.trans hget')
    exact ⟨fun hc => (by cases hc), fun _ => (by rw [hfresh]; exact List.cons_ne_nil _ _),
      .inr ⟨[], hfresh⟩⟩
  · refine (delivered_modifySocket fun ws' hget' => ?_ : _ = ({ s with attempt := 0 } :
      TunnelClient).delivered)
    obtain rfl := Option.some.inj (hget.symm.trans hget')
    rw [hfresh, hsent, List.tail_cons, List.tail_nil]

theorem sends_close (h : s.Wired opts) (w : Nat) :
    Sends opts s (s.modifySocket w WebSocket.close) [] :=
  .nothing (h.modifySocket fun _ _ hauth => hauth.close) (delivered_modifySocket fun _ _ => rfl)

theorem wired_quieten (h : s.Wired opts) : s.quieten.Wired opts := by
  rw [quieten]
  split
  · exact h.of_sockets rfl (.inl rfl)
  · exact h.of_sockets rfl (.inl rfl)

theorem delivered_quieten (s : TunnelClient) : s.quieten.delivered = s.delivered := by
  rw [quieten]
  split <;> rfl

theorem sends_stop (h : s.Wired opts) : Sends opts s s.stop [] := by
  have hq := wired_quieten h
  rw [stop_eq]
  split
  · next w _ =>
    have hclose := sends_close hq w
    apply Sends.nothing
    · exact hclose.wired.of_sockets rfl (.inr rfl)
    · rw [← delivered_quieten s]
      exact hclose.delivered.trans (List.append_nil _)
  · exact .nothing hq (delivered_quieten s)

theorem sends_onClose (h : s.Wired opts) (w : Nat) : Sends opts s (s.onClose w) [] := by
  have hmodified : (s.modifySocket w fun ws => { ws with readyState := .closed }).Wired opts :=
    h.modifySocket fun ws _ hauth =>
      ⟨fun hc => (by cases hc), fun hc => (by cases hc), hauth.first⟩
  have hsame : (s.modifySocket w fun ws => { ws with readyState := .closed }).delivered =
      s.delivered := delivered_modifySocket fun _ _ => rfl
  cases hstop : s.stopped with
  | true =>
    rw [onClose_of_stopped w hstop]
    exact .nothing (hmodified.of_sockets rfl (.inr rfl)) hsame
  | false =>
    rw [onClose_of_running w hstop]
    exact .nothing (hmodified.of_sockets rfl (.inr rfl)) hsame

theorem sends_handleRaw (h : s.Wired opts) (raw : Units) :
    Sends opts s (s.handleRaw number raw)
      (match readRaw number raw with
      | .ping => if (s.send pong).2 then [pong] else []
      | _ => []) := by
  rw [handleRaw]
  cases readRaw number raw with
  | ping => exact sends_send h pong
  | forwarded msg => exact .nothing (h.of_sockets rfl (.inl rfl)) rfl
  | rejected => exact .nothing (h.of_sockets rfl (.inl rfl)) rfl
  | badJson => exact .nothing h rfl
  | authOk => exact .nothing h rfl
  | authError reason => exact .nothing h rfl

theorem sends_step (h : s.Wired opts) (e : SocketEvent) :
    Sends opts s (step number opts s e) (s.accepts number e) := by
  cases e with
  | start =>
    have h : ({ s with stopped := false } : TunnelClient).Wired opts := h.of_sockets rfl (.inl rfl)
    exact .nothing h.connect (delivered_connect _)
  | stop => exact sends_stop h
  | send m => exact sends_send h m
  | opened w =>
    rw [step]
    split
    · next hstate => exact sends_onOpen h hstate
    · exact .nothing h rfl
  | message w raw =>
    rw [step, accepts]
    split
    · exact sends_handleRaw number h raw
    · exact .nothing h rfl
  | closing w => exact sends_close h w
  | closed w =>
    rw [step]
    split
    · exact sends_onClose h w
    · exact .nothing h rfl
  | error w => exact .nothing h rfl
  | fired t =>
    rw [step]
    split
    · have h : (s.clearTimeout t).Wired opts := h.of_sockets rfl (.inl rfl)
      exact .nothing h.connect (delivered_connect _)
    · exact .nothing h rfl

theorem sends_exec (h : s.Wired opts) (es : List SocketEvent) :
    Sends opts s (exec (step number opts) s es) (accepted number opts s es) := by
  induction es generalizing s with
  | nil => exact .nothing h rfl
  | cons e es ih =>
    have hstep := sends_step number h e
    have hrest := ih hstep.wired
    refine ⟨hrest.wired, ?_⟩
    rw [exec, hrest.delivered, hstep.delivered, accepted, List.append_assoc]

/-- Over any run, whatever the order of the events: a socket sends nothing before it is open, and
then the authentication first, and behind it the sockets have sent, one after the other and each
once, just the messages that `send` has said to have sent and the answers to pings. -/
theorem sent_eq_accepted (opts : Options) (es : List SocketEvent) :
    let s := exec (step number opts) initial es
    (∀ ws ∈ s.sockets, (ws.readyState = .connecting → ws.sent = []) ∧
      (ws.sent = [] ∨ ∃ rest, ws.sent = opts.auth :: rest)) ∧
      s.delivered = accepted number opts initial es := by
  have hinitial : initial.Wired opts := ⟨fun w hw => (by cases hw), fun ws hws => (by cases hws)⟩
  have hsends := sends_exec number hinitial es
  refine ⟨fun ws hws => ?_, hsends.delivered⟩
  have hauth := hsends.wired.authenticated ws hws
  exact ⟨hauth.before, hauth.first⟩

/-! After `stop`. -/

structure Halted (n : Nat) (s : TunnelClient) : Prop where
  stopped : s.stopped = true
  ws : s.ws = none
  sockets : s.sockets.length = n

theorem connect_of_stopped (h : s.stopped = true) : s.connect = s := if_pos h

theorem send_of_none (h : s.ws = none) (m : Outgoing) : s.send m = (s, false) := by rw [send, h]

theorem halted_stop (s : TunnelClient) : s.stop.Halted s.sockets.length := by
  have hquieten : s.quieten.sockets = s.sockets := by
    rw [quieten]
    split <;> rfl
  refine ⟨stopped_stop s, ws_stop s, ?_⟩
  rw [stop_eq, ← hquieten]
  split
  · exact List.length_modify _ _ _
  · rfl

namespace Halted

variable {n : Nat}

theorem modifySocket (h : s.Halted n) (w : Nat) (f : WebSocket → WebSocket) :
    (s.modifySocket w f).Halted n :=
  ⟨h.stopped, h.ws, (List.length_modify _ _ _).trans h.sockets⟩

theorem handleRaw (h : s.Halted n) (raw : Units) : (s.handleRaw number raw).Halted n := by
  rw [TunnelClient.handleRaw, send_of_none h.ws]
  cases readRaw number raw with
  | ping | badJson | authOk | authError => exact h
  | forwarded msg => exact ⟨h.stopped, h.ws, h.sockets⟩
  | rejected => exact ⟨h.stopped, h.ws, h.sockets⟩

theorem step (h : s.Halted n) (e : SocketEvent) (he : e ≠ .start) :
    (step number opts s e).Halted n := by
  cases e with
  | start => exact absurd rfl he
  | stop =>
    have hstop := halted_stop s
    rw [h.sockets] at hstop
    exact hstop
  | send m =>
    rw [TunnelClient.step, send_of_none h.ws]
    exact h
  | opened w =>
    rw [TunnelClient.step]
    split
    · have h : ({ s with attempt := 0 } : TunnelClient).Halted n := ⟨h.stopped, h.ws, h.sockets⟩
      exact h.modifySocket w _
    · exact h
  | message w raw =>
    rw [TunnelClient.step]
    split
    · exact h.handleRaw number raw
    · exact h
  | closing w => exact h.modifySocket w _
  | closed w =>
    rw [TunnelClient.step, onClose_of_stopped w h.stopped]
    have hclosed := h.modifySocket w fun ws => { ws with readyState := .closed }
    split
    · exact ⟨hclosed.stopped, rfl, hclosed.sockets⟩
    · exact h
  | error w => exact h
  | fired t =>
    have hclear : (s.clearTimeout t).Halted n := ⟨h.stopped, h.ws, h.sockets⟩
    rw [TunnelClient.step, connect_of_stopped hclear.stopped]
    split
    · exact hclear
    · exact h

theorem accepts_eq_nil (h : s.Halted n) (e : SocketEvent) : s.accepts number e = [] := by
  cases e with
  | send m =>
    rw [accepts, send_of_none h.ws]
    rfl
  | message w raw =>
    rw [accepts, send_of_none h.ws]
    split
    · cases readRaw number raw <;> rfl
    · rfl
  | start | stop | opened | closing | closed | error | fired => rfl

theorem exec (h : s.Halted n) (es : List SocketEvent) (hes : .start ∉ es) :
    (exec (TunnelClient.step number opts) s es).Halted n ∧ accepted number opts s es = [] := by
  induction es generalizing s with
  | nil => exact ⟨h, rfl⟩
  | cons e es ih =>
    have he := List.ne_of_not_mem_cons hes
    have hes := List.not_mem_of_not_mem_cons hes
    obtain ⟨hrun, hnone⟩ := ih (h.step number e (Ne.symm he)) hes
    refine ⟨hrun, ?_⟩
    rw [accepted, h.accepts_eq_nil number e, hnone, List.nil_append]

end Halted

/-- Whatever has happened before a `stop`, and in whatever order the events of sockets and timers
that are left come in: until the next `start` there is no new socket, and neither `send` nor the
answer to a ping sends anything. -/
theorem stop_final (opts : Options) (before after : List SocketEvent) (h : .start ∉ after) :
    let s := exec (step number opts) initial before
    let s' := exec (step number opts) s.stop after
    s'.stopped = true ∧ s'.ws = none ∧ s'.sockets.length = s.sockets.length ∧
      s'.delivered = s.delivered := by
  have hinitial : initial.Wired opts := ⟨fun w hw => (by cases hw), fun ws hws => (by cases hws)⟩
  have hwired := (sends_exec number hinitial before).wired
  have hstop := sends_stop hwired
  obtain ⟨hhalted, hnone⟩ :=
    Halted.exec number (halted_stop (exec (step number opts) initial before)) after h
  have hsends := (sends_exec number hstop.wired after).delivered
  rw [hnone, hstop.delivered, List.append_nil, List.append_nil] at hsends
  exact ⟨hhalted.stopped, hhalted.ws, hhalted.sockets, hsends⟩

theorem stop_final_late_close :
    let s := exec (step id ⟨[], []⟩) initial [.start, .opened 0]
    (exec (step id ⟨[], []⟩) s.stop [.closed 0, .fired 0]).sockets.length = s.sockets.length :=
  (stop_final id ⟨[], []⟩ [.start, .opened 0] [.closed 0, .fired 0] (by simp)).2.2.1

/-! The waits between two connections. -/

def delays (s : TunnelClient) : List Nat := s.timers.map Timer.delay

/-- Every further wait is twice the one before, up to the longest. -/
def doubling (k : Nat) : Nat := min RECONNECT_MAX_MS (RECONNECT_BASE_MS * 2 ^ k)

/-- The bound on the exponent makes no difference. -/
theorem reconnectDelay_eq (k : Nat) : reconnectDelay k = doubling k := by
  rw [reconnectDelay, doubling]
  obtain hk | hk := Nat.le_total k 5
  · rw [Nat.min_eq_left hk]
  · have hbase : RECONNECT_MAX_MS ≤ RECONNECT_BASE_MS * 2 ^ 5 := by decide
    have hpow := Nat.mul_le_mul_left RECONNECT_BASE_MS (Nat.pow_le_pow_right Nat.two_pos hk)
    rw [Nat.min_eq_right hk, Nat.min_eq_left hbase, Nat.min_eq_left (hbase.trans hpow)]

/-- `k` more waits, from where the last ones have stopped. -/
def Waits (k : Nat) (s s' : TunnelClient) : Prop :=
  s'.delays = s.delays ++ (List.range k).map (fun i => doubling (s.attempt + i)) ∧
    s'.attempt = s.attempt + k

theorem Waits.of_eq {s' : TunnelClient} (hd : s'.delays = s.delays)
    (ha : s'.attempt = s.attempt) : Waits 0 s s' :=
  ⟨by rw [hd, List.range_zero, List.map_nil, List.append_nil], ha⟩

theorem Waits.trans {s₁ s₂ s₃ : TunnelClient} {k l : Nat} (h : Waits k s₁ s₂)
    (h' : Waits l s₂ s₃) : Waits (k + l) s₁ s₃ := by
  refine ⟨?_, ?_⟩
  · rw [h'.1, h.1, h.2, List.append_assoc, List.range_add, List.map_append, List.map_map]
    simp only [Function.comp_def, Nat.add_assoc]
  · rw [h'.2, h.2, Nat.add_assoc]

theorem delays_clearTimeout (s : TunnelClient) (t : Nat) : (s.clearTimeout t).delays = s.delays :=
  map_modify_of_eq fun _ _ => rfl

theorem waits_connect (s : TunnelClient) : Waits 0 s s.connect := by
  rw [connect]
  split <;> exact .of_eq rfl rfl

theorem waits_send (s : TunnelClient) (m : Outgoing) : Waits 0 s (s.send m).1 := by
  rw [send]
  split
  · exact .of_eq rfl rfl
  · split <;> exact .of_eq rfl rfl

theorem waits_stop (s : TunnelClient) : Waits 0 s s.stop := by
  have hquieten : Waits 0 s s.quieten := by
    rw [quieten]
    split
    · exact .of_eq (delays_clearTimeout _ _) rfl
    · exact .of_eq rfl rfl
  rw [stop_eq]
  split
  · exact hquieten
  · exact hquieten

theorem waits_handleRaw (s : TunnelClient) (raw : Units) :
    Waits 0 s (s.handleRaw number raw) := by
  rw [handleRaw]
  cases readRaw number raw with
  | ping => exact waits_send s pong
  | badJson | authOk | authError | forwarded | rejected => exact .of_eq rfl rfl

theorem waits_onClose (s : TunnelClient) (w : Nat) :
    Waits (!s.stopped).toNat s (s.onClose w) := by
  cases h : s.stopped with
  | true =>
    rw [onClose_of_stopped w h]
    exact .of_eq rfl rfl
  | false =>
    rw [onClose_of_running w h]
    refine ⟨?_, rfl⟩
    rw [delays, List.map_append, List.map_singleton, reconnectDelay_eq]
    rfl

theorem waits_step (opts : Options) (s : TunnelClient) {e : SocketEvent}
    (he : ∀ w, e ≠ .opened w) : ∃ k, Waits k s (step number opts s e) := by
  cases e with
  | start =>
    obtain ⟨hd, ha⟩ := waits_connect { s with stopped := false }
    exact ⟨0, hd, ha⟩
  | stop => exact ⟨0, waits_stop s⟩
  | send m => exact ⟨0, waits_send s m⟩
  | opened w => exact absurd rfl (he w)
  | message w raw =>
    rw [step]
    split
    · exact ⟨0, waits_handleRaw number s raw⟩
    · exact ⟨0, .of_eq rfl rfl⟩
  | closing w => exact ⟨0, .of_eq rfl rfl⟩
  | closed w =>
    rw [step]
    split
    · exact ⟨_, waits_onClose s w⟩
    · exact ⟨0, .of_eq rfl rfl⟩
  | error w => exact ⟨0, .of_eq rfl rfl⟩
  | fired t =>
    rw [step]
    split
    · have hclear : Waits 0 s (s.clearTimeout t) := .of_eq (delays_clearTimeout s t) rfl
      exact ⟨0, hclear.trans (waits_connect _)⟩
    · exact ⟨0, .of_eq rfl rfl⟩

theorem waits_exec (opts : Options) (s : TunnelClient) (es : List SocketEvent)
    (h : ∀ w, .opened w ∉ es) : ∃ k, Waits k s (exec (step number opts) s es) := by
  induction es generalizing s with
  | nil => exact ⟨0, .of_eq rfl rfl⟩
  | cons e es ih =>
    obtain ⟨k, hk⟩ := waits_step number opts s (e := e) fun w he => h w (he ▸ List.mem_cons_self)
    obtain ⟨l, hl⟩ := ih (step number opts s e) fun w hw => h w (List.mem_cons_of_mem _ hw)
    exact ⟨k + l, hk.trans hl⟩

/-- From the first connection on, or from one that has opened, and until the next that opens, the
waits are one second, two, four and so on, and thirty seconds from the sixth on. -/
theorem delays_double (opts : Options) (before after : List SocketEvent)
    (hbefore : before = [] ∨ ∃ es w, before = es ++ [.opened w] ∧
      (exec (step number opts) initial es).readyState? w = some .connecting)
    (hafter : ∀ w, .opened w ∉ after) :
    ∃ k, (exec (step number opts) initial (before ++ after)).delays =
      (exec (step number opts) initial before).delays ++ (List.range k).map doubling := by
  have hzero : (exec (step number opts) initial before).attempt = 0 := by
    obtain rfl | ⟨es, w, rfl, hopen⟩ := hbefore
    · rfl
    · rw [Run.exec_append]
      simp only [exec, step, hopen, if_true]
      rfl
  obtain ⟨k, hk, -⟩ := waits_exec number opts (exec (step number opts) initial before) after hafter
  refine ⟨k, ?_⟩
  rw [Run.exec_append, hk, hzero]
  simp only [Nat.zero_add]

theorem delays_double_twice_closed :
    ∃ k, (exec (step id ⟨[], []⟩) initial
      ([.start, .opened 0] ++ [.closed 0, .fired 0, .closed 1])).delays =
        (exec (step id ⟨[], []⟩) initial [.start, .opened 0]).delays ++
          (List.range k).map doubling :=
  delays_double id ⟨[], []⟩ [.start, .opened 0] [.closed 0, .fired 0, .closed 1]
    (.inr ⟨[.start], 0, rfl, rfl⟩) (by simp)

end TunnelClient

end Eyot.Host
