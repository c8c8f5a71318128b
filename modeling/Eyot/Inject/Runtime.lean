import Eyot.Inject.Control
import Eyot.Inject.Ledger

/-! The loop of an instance against the inject queue: its control task polls, its main task
flushes the guard at the safe point, and either may lose an answer or be stopped. -/

namespace Eyot.Inject.Runtime

open Routing (DeliveryMode InjectKind)
open Control (Events recentControlEvents handleEvents handleEvents_eq)

/-- An inject in the answer to a poll. -/
structure Item where
  queueId : Id
  kind : InjectKind
  deliveryMode : DeliveryMode
  payload : Json Str
  tldr : Option (Json Str)
  expiresAt : Time

def Item.ofRow (r : InstanceInjectQueue) : Item where
  queueId := r.id
  kind := r.kind
  deliveryMode := r.deliveryMode
  payload := r.payload
  tldr := r.payload.get? "tldr".toList
  expiresAt := r.expiresAt

structure SafePointGuard where
  pending : List Item
  outstandingToolBatches : Nat

namespace SafePointGuard

def empty : SafePointGuard := ⟨[], 0⟩

def atSafePoint (g : SafePointGuard) : Bool := g.outstandingToolBatches = 0

def hold (g : SafePointGuard) (item : Item) : SafePointGuard :=
  { g with pending := g.pending ++ [item] }

def flush (g : SafePointGuard) : List Item × SafePointGuard :=
  if !g.atSafePoint || g.pending.isEmpty then ([], g) else (g.pending, { g with pending := [] })

/-- A flush neither loses nor repeats an item. -/
theorem flush_append (g : SafePointGuard) : g.flush.1 ++ g.flush.2.pending = g.pending := by
  rw [flush]
  split
  · rfl
  · exact List.append_nil _

end SafePointGuard

inductive Main where
  | head
  | turn
  | applying (batch : List Item)

def Main.items : Main → List Item
  | .applying batch => batch
  | _ => []

/-- The control task; it waits for the acknowledgement of a notification before it goes on
with the rest of its answer. -/
inductive ControlTask where
  | polling
  | acking (item : Item) (rest : List Item)
  | ended

namespace ControlTask

def items : ControlTask → List Item
  | .acking item rest => item :: rest
  | _ => []

def isPolling : ControlTask → Bool
  | .polling => true
  | _ => false

end ControlTask

def heldModes : List DeliveryMode := [.softInject, .wake]

def deal (g : SafePointGuard) : List Item → SafePointGuard × ControlTask
  | [] => (g, .polling)
  | item :: rest =>
    if item.deliveryMode ∈ heldModes then deal (g.hold item) rest else (g, .acking item rest)

theorem deal_append (g : SafePointGuard) (items : List Item) :
    (deal g items).1.pending ++ (deal g items).2.items = g.pending ++ items := by
  induction items generalizing g with
  | nil => rfl
  | cons item rest ih =>
    rw [deal]
    split
    · rw [ih, SafePointGuard.hold, List.append_assoc, List.singleton_append]
    · rfl

structure Loop where
  stopFlag : Bool
  lastSeenId : Nat
  guard : SafePointGuard
  main : Main
  control : ControlTask

namespace Loop

def fresh : Loop := ⟨false, 0, .empty, .head, .polling⟩

def items (l : Loop) : List Item := l.main.items ++ (l.guard.pending ++ l.control.items)

/-- The control task on the answer to its poll: a kill ends it before it looks at the injects. -/
def receive (l : Loop) (events : List Control.Event) (injects : List Item) : Loop :=
  match handleEvents l.lastSeenId events with
  | (seen, some _) => { l with lastSeenId := seen, stopFlag := true, control := .ended }
  | (seen, none) =>
    { l with
      lastSeenId := seen
      guard := (deal l.guard injects).1
      control := (deal l.guard injects).2 }

end Loop

/-- How a request of the loop ends. -/
inductive Http where
  | answered | answerLost | notSent
  deriving DecidableEq

def Http.reaches : Http → Bool
  | .notSent => false
  | _ => true

structure State where
  queue : Queue
  events : Events
  loop : Option Loop
  marked : List Id

inductive Step where
  | backend (c : Call)
  | record (e : Control.Event)
  | start
  | poll (now : Time) (http : Http)
  | controlAck (now : Time) (http : Http)
  | iterate
  | llmError
  | checkpoint
  | mainAck (now : Time) (http : Http)
  | exit

def isPoll : Call → Bool
  | .pollPendingInjects .. => true
  | _ => false

def acks (http : Http) (item : Item) : Bool := item.queueId ≠ "" && http.reaches

/-- An acknowledgement that fails is logged. -/
def applyInject (q : Queue) (now : Time) (http : Http) (item : Item) : Queue :=
  if acks http item then (ackInjects q now [item.queueId]).1 else q

namespace State

def initial (q : Queue) (events : Events) : State := ⟨q, events, none, []⟩

def heldIds (s : State) : List Id :=
  match s.loop with
  | some l => l.items.map Item.queueId
  | none => []

def window (s : State) (instanceId : Id) (l : Loop) : List Control.Event :=
  recentControlEvents s.events instanceId l.lastSeenId

/-- The loop polls; the backend commits the poll before it answers. -/
def poll (s : State) (instanceId : Id) (now : Time) (http : Http) (l : Loop) : State :=
  if l.control.isPolling && !l.stopFlag && http.reaches then
    let (queue, rows) := pollPendingInjects s.queue now instanceId pollLimit
    { s with
      queue := queue
      marked := s.marked ++ rows.map InstanceInjectQueue.id
      loop := some (if http = .answered then
        l.receive (s.window instanceId l) (rows.map Item.ofRow) else l) }
  else s

def controlAck (s : State) (now : Time) (http : Http) (l : Loop) : State :=
  match l.control with
  | .acking item rest =>
    { s with
      queue := applyInject s.queue now http item
      loop := some { l with guard := (deal l.guard rest).1, control := (deal l.guard rest).2 } }
  | _ => s

def mainAck (s : State) (now : Time) (http : Http) (l : Loop) : State :=
  match l.main with
  | .applying (item :: rest) =>
    { s with
      queue := applyInject s.queue now http item
      loop := some { l with main := .applying rest } }
  | .applying [] => { s with loop := some { l with main := .head } }
  | _ => s

def iterate (s : State) (l : Loop) : State :=
  match l.main with
  | .head => { s with loop := if l.stopFlag then none else some { l with main := .turn } }
  | _ => s

def llmError (s : State) (l : Loop) : State :=
  match l.main with
  | .turn => { s with loop := some { l with main := .head } }
  | _ => s

def checkpoint (s : State) (l : Loop) : State :=
  match l.main with
  | .turn => { s with loop := some { l with main := .applying l.guard.flush.1, guard := l.guard.flush.2 } }
  | _ => s

def onLoop (s : State) (f : Loop → State) : State :=
  match s.loop with
  | some l => f l
  | none => s

/-- The backend calls of others are no polls: one loop polls for an instance. A loop may end
at any time, by itself, by a failed request or with its pod. -/
def step (instanceId : Id) (s : State) : Step → State
  | .backend c => if isPoll c then s else { s with queue := (perform s.queue c).1 }
  | .record e =>
    match s.events.insert? e with
    | some events => { s with events := events }
    | none => s
  | .start => if s.loop.isSome then s else { s with loop := some .fresh }
  | .poll now http => s.onLoop (s.poll instanceId now http)
  | .controlAck now http => s.onLoop (s.controlAck now http)
  | .iterate => s.onLoop s.iterate
  | .llmError => s.onLoop s.llmError
  | .checkpoint => s.onLoop s.checkpoint
  | .mainAck now http => s.onLoop (s.mainAck now http)
  | .exit => { s with loop := none }

/-- Each row a poll has marked delivered is acknowledged, failed, or held by the live loop. -/
def Kept (s : State) : Prop :=
  ∀ id ∈ s.marked,
    statusOf s.queue id = some .acked ∨ statusOf s.queue id = some .failed ∨ id ∈ s.heldIds

/-- An item whose row is still delivered is acknowledged at the backend. -/
def Acks (s : State) (http : Http) (item : Item) : Prop :=
  statusOf s.queue item.queueId = some .delivered → acks http item = true

def HoldsNothing (s : State) : Prop :=
  ∀ id ∈ s.heldIds, statusOf s.queue id ≠ some .delivered

/-- A poll that takes rows is answered, and its answer carries no kill; no acknowledgement of a
delivered row is lost on its way; a loop ends with empty hands. -/
def Careful (instanceId : Id) (s : State) : Step → Prop
  | .poll now http =>
    ∀ l, s.loop = some l → l.control.isPolling = true → l.stopFlag = false → http.reaches = true →
      (http = .answered ∧ (s.window instanceId l).find? Control.Event.isKill = none) ∨
        pendingRows s.queue instanceId now pollLimit = []
  | .controlAck _ http =>
    ∀ l, s.loop = some l → ∀ item rest, l.control = .acking item rest → s.Acks http item
  | .mainAck _ http =>
    ∀ l, s.loop = some l → ∀ item rest, l.main = .applying (item :: rest) → s.Acks http item
  | .iterate => ∀ l, s.loop = some l → l.main = .head → l.stopFlag = true → s.HoldsNothing
  | .exit => s.HoldsNothing
  | _ => True

/-! A step of the system as an entry in the ledger. -/

def ledger (s : State) : Ledger := ⟨s.queue, s.marked, s.heldIds⟩

def itemEffect (now : Time) (http : Http) (item : Item) : Effect :=
  .ack now item.queueId (acks http item)

def pollEffect (instanceId : Id) (s : State) (now : Time) (http : Http) (l : Loop) : Effect :=
  if l.control.isPolling && !l.stopFlag && http.reaches then
    .take now (http = .answered && ((s.window instanceId l).find? Control.Event.isKill).isNone)
  else .nothing

def controlAckEffect (now : Time) (http : Http) (l : Loop) : Effect :=
  match l.control with
  | .acking item _ => itemEffect now http item
  | _ => .nothing

def mainAckEffect (now : Time) (http : Http) (l : Loop) : Effect :=
  match l.main with
  | .applying (item :: _) => itemEffect now http item
  | _ => .nothing

def iterateEffect (l : Loop) : Effect :=
  match l.main with
  | .head => if l.stopFlag then .drop else .nothing
  | _ => .nothing

def ofLoop (s : State) (f : Loop → Effect) : Effect :=
  match s.loop with
  | some l => f l
  | none => .nothing

def effect (instanceId : Id) (s : State) : Step → Effect
  | .backend c => if isPoll c then .nothing else .call c
  | .poll now http => s.ofLoop (s.pollEffect instanceId now http)
  | .controlAck now http => s.ofLoop (controlAckEffect now http)
  | .mainAck now http => s.ofLoop (mainAckEffect now http)
  | .iterate => s.ofLoop iterateEffect
  | .exit => .drop
  | .record _ | .start | .llmError | .checkpoint => .nothing

theorem heldIds_some (s : State) {l : Loop} (h : s.loop = some l) :
    s.heldIds = l.items.map Item.queueId := by
  rw [heldIds, h]

theorem items_receive (l : Loop) (events : List Control.Event) (injects : List Item)
    (hl : l.control.isPolling = true) :
    (l.receive events injects).items =
      if (events.find? Control.Event.isKill).isNone then l.items ++ injects else l.items := by
  have hnil : l.control.items = [] := by
    cases hc : l.control with
    | polling => rfl
    | acking item rest =>
      rw [hc] at hl
      cases hl
    | ended => rfl
  rw [Loop.receive, handleEvents_eq]
  cases events.find? Control.Event.isKill with
  | none => simp [Loop.items, deal_append, hnil]
  | some e =>
    simp only [Option.isNone_some, Bool.false_eq_true, if_false, Loop.items, hnil]
    rfl

theorem map_queueId_ofRow (rows : List InstanceInjectQueue) :
    (rows.map Item.ofRow).map Item.queueId = rows.map InstanceInjectQueue.id := by
  rw [List.map_map]
  rfl

theorem map_id_polled (q : Queue) (now : Time) (instanceId : Id) (limit : Nat) :
    (pollPendingInjects q now instanceId limit).2.map InstanceInjectQueue.id =
      (pendingRows q instanceId now limit).map InstanceInjectQueue.id := by
  rw [pollPendingInjects, List.map_map, pendingRows_expireOverdue]
  rfl

theorem ledger_poll (instanceId : Id) {s : State} {l : Loop} (hl : s.loop = some l) (now : Time)
    (http : Http) :
    (s.poll instanceId now http l).ledger =
      s.ledger.apply instanceId (s.pollEffect instanceId now http l) := by
  rw [poll, pollEffect]
  split
  · next hready =>
    rw [Bool.and_eq_true, Bool.and_eq_true] at hready
    have hids := map_id_polled s.queue now instanceId pollLimit
    simp only [ledger, Ledger.apply, Ledger.polled, heldIds_some s hl]
    congr 1
    · rw [hids]
    · by_cases ha : http = .answered
      · simp only [heldIds, ha, if_true, items_receive _ _ _ hready.1.1, decide_true, Bool.true_and]
        split
        · rw [List.map_append, map_queueId_ofRow, hids]
        · rfl
      · simp [heldIds, ha]
  · rfl

theorem queue_applyInject (q : Queue) (now : Time) (http : Http) (item : Item) :
    applyInject q now http item =
      if acks http item then (perform q (.ackInjects now [item.queueId])).1 else q := rfl

theorem ledger_controlAck (instanceId : Id) {s : State} {l : Loop} (hl : s.loop = some l)
    (hnodup : s.heldIds.Nodup) (now : Time) (http : Http) :
    (s.controlAck now http l).ledger =
      s.ledger.apply instanceId (controlAckEffect now http l) := by
  rw [controlAck, controlAckEffect]
  cases hc : l.control with
  | polling => rfl
  | ended => rfl
  | acking item rest =>
    have hheld : s.heldIds = (l.main.items ++ l.guard.pending).map Item.queueId ++
        item.queueId :: rest.map Item.queueId := by
      simp [heldIds_some s hl, Loop.items, hc, ControlTask.items]
    rw [hheld, List.nodup_middle, List.nodup_cons, List.mem_append, not_or] at hnodup
    simp only [ledger, itemEffect, Ledger.apply, hheld, queue_applyInject]
    congr 1
    rw [List.erase_append_right _ hnodup.1.1, List.erase_cons_head]
    simp [heldIds, Loop.items, deal_append]

theorem ledger_mainAck (instanceId : Id) {s : State} {l : Loop} (hl : s.loop = some l) (now : Time)
    (http : Http) :
    (s.mainAck now http l).ledger =
      s.ledger.apply instanceId (mainAckEffect now http l) := by
  rw [mainAck, mainAckEffect]
  cases hm : l.main with
  | head => rfl
  | turn => rfl
  | applying batch =>
    cases batch with
    | nil => simp [ledger, Ledger.apply, heldIds, hl, Loop.items, hm, Main.items]
    | cons item rest =>
      simp only [ledger, itemEffect, Ledger.apply, queue_applyInject, heldIds_some s hl]
      congr 1
      simp [heldIds, Loop.items, hm, Main.items]

theorem ledger_iterate (instanceId : Id) {s : State} {l : Loop} (hl : s.loop = some l) :
    (s.iterate l).ledger = s.ledger.apply instanceId (iterateEffect l) := by
  rw [iterate, iterateEffect]
  cases hm : l.main with
  | head =>
    cases hs : l.stopFlag with
    | true => rfl
    | false => simp [ledger, Ledger.apply, heldIds, hl, Loop.items, hm, Main.items]
  | turn => rfl
  | applying batch => rfl

theorem heldIds_checkpoint {s : State} {l : Loop} (hl : s.loop = some l) :
    (s.checkpoint l).ledger = s.ledger := by
  rw [checkpoint]
  cases hm : l.main with
  | head => rfl
  | applying batch => rfl
  | turn =>
    have hflush := l.guard.flush_append
    simp only [ledger, heldIds_some s hl]
    congr 1
    simp only [heldIds, Loop.items, hm, Main.items, List.nil_append]
    rw [← List.append_assoc, hflush]

theorem heldIds_llmError {s : State} {l : Loop} (hl : s.loop = some l) :
    (s.llmError l).ledger = s.ledger := by
  rw [llmError]
  cases hm : l.main with
  | turn => simp [ledger, heldIds, hl, Loop.items, hm, Main.items]
  | head => rfl
  | applying batch => rfl

/-- A task of the loop steps in the ledger as its effect says. -/
theorem ledger_onLoop (instanceId : Id) {s : State} {f : Loop → State} {g : Loop → Effect}
    (h : ∀ l, s.loop = some l → (f l).ledger = s.ledger.apply instanceId (g l)) :
    (s.onLoop f).ledger = s.ledger.apply instanceId (s.ofLoop g) := by
  rw [onLoop, ofLoop]
  cases hl : s.loop with
  | none => rfl
  | some l => exact h l hl

theorem ledger_onLoop_same {s : State} {f : Loop → State}
    (h : ∀ l, s.loop = some l → (f l).ledger = s.ledger) : (s.onLoop f).ledger = s.ledger := by
  rw [onLoop]
  cases hl : s.loop with
  | none => rfl
  | some l => exact h l hl

/-- The steps of the system are those of its ledger. -/
theorem ledger_step (instanceId : Id) (s : State) (hnodup : s.heldIds.Nodup) (c : Step) :
    (s.step instanceId c).ledger = s.ledger.apply instanceId (s.effect instanceId c) := by
  cases c with
  | backend c =>
    rw [step, effect]
    split
    · rfl
    · rfl
  | record e =>
    rw [step, effect]
    split
    · rfl
    · rfl
  | start =>
    rw [step, effect]
    cases hl : s.loop with
    | none => simp [ledger, Ledger.apply, heldIds, hl, Loop.items, Loop.fresh, Main.items,
        SafePointGuard.empty, ControlTask.items]
    | some l => rfl
  | poll now http => exact ledger_onLoop instanceId fun l hl => ledger_poll instanceId hl now http
  | controlAck now http =>
    exact ledger_onLoop instanceId fun l hl => ledger_controlAck instanceId hl hnodup now http
  | mainAck now http =>
    exact ledger_onLoop instanceId fun l hl => ledger_mainAck instanceId hl now http
  | iterate => exact ledger_onLoop instanceId fun l hl => ledger_iterate instanceId hl
  | llmError => exact ledger_onLoop_same fun l hl => heldIds_llmError hl
  | checkpoint => exact ledger_onLoop_same fun l hl => heldIds_checkpoint hl
  | exit => rfl

/-! What the tasks of a loop acknowledge. -/

theorem controlAckEffect_cases (now : Time) (http : Http) (l : Loop) :
    (∃ item rest, l.control = .acking item rest ∧
        controlAckEffect now http l = itemEffect now http item) ∨
      ((∀ item rest, l.control ≠ .acking item rest) ∧ controlAckEffect now http l = .nothing) := by
  rw [controlAckEffect]
  cases l.control with
  | acking item rest => exact .inl ⟨item, rest, rfl, rfl⟩
  | polling => exact .inr ⟨nofun, rfl⟩
  | ended => exact .inr ⟨nofun, rfl⟩

theorem mainAckEffect_cases (now : Time) (http : Http) (l : Loop) :
    (∃ item rest, l.main = .applying (item :: rest) ∧
        mainAckEffect now http l = itemEffect now http item) ∨
      ((∀ item rest, l.main ≠ .applying (item :: rest)) ∧ mainAckEffect now http l = .nothing) := by
  rw [mainAckEffect]
  cases l.main with
  | applying batch =>
    cases batch with
    | cons item rest => exact .inl ⟨item, rest, rfl, rfl⟩
    | nil => exact .inr ⟨nofun, rfl⟩
  | head => exact .inr ⟨nofun, rfl⟩
  | turn => exact .inr ⟨nofun, rfl⟩

theorem exists_of_ofLoop_eq_ack {s : State} {f : Loop → Effect} {now : Time} {id : Id}
    {reaches : Bool} (h : s.ofLoop f = .ack now id reaches) :
    ∃ l, s.loop = some l ∧ f l = .ack now id reaches := by
  rw [ofLoop] at h
  cases hl : s.loop with
  | none =>
    rw [hl] at h
    cases h
  | some l =>
    rw [hl] at h
    exact ⟨l, rfl, h⟩

/-- Only what the loop holds is acknowledged. -/
theorem mem_heldIds_of_effect {instanceId : Id} {s : State} {c : Step} {now : Time} {id : Id}
    {reaches : Bool} (h : s.effect instanceId c = .ack now id reaches) : id ∈ s.heldIds := by
  cases c with
  | backend c =>
    rw [effect] at h
    split at h
    · cases h
    · cases h
  | poll now' http =>
    obtain ⟨l, -, heq⟩ := exists_of_ofLoop_eq_ack h
    rw [pollEffect] at heq
    split at heq
    · cases heq
    · cases heq
  | controlAck now' http =>
    obtain ⟨l, hl, heq⟩ := exists_of_ofLoop_eq_ack h
    obtain ⟨item, rest, hc, hitem⟩ | ⟨-, hnothing⟩ := controlAckEffect_cases now' http l
    · cases hitem.symm.trans heq
      simp [heldIds_some s hl, Loop.items, hc, ControlTask.items]
    · cases hnothing.symm.trans heq
  | mainAck now' http =>
    obtain ⟨l, hl, heq⟩ := exists_of_ofLoop_eq_ack h
    obtain ⟨item, rest, hm, hitem⟩ | ⟨-, hnothing⟩ := mainAckEffect_cases now' http l
    · cases hitem.symm.trans heq
      simp [heldIds_some s hl, Loop.items, hm, Main.items]
    · cases hnothing.symm.trans heq
  | iterate =>
    obtain ⟨l, -, heq⟩ := exists_of_ofLoop_eq_ack h
    rw [iterateEffect] at heq
    split at heq
    · split at heq
      · cases heq
      · cases heq
    · cases heq
  | _ => cases h

/-! When the effect of a step is safe. -/

theorem safe_ofLoop_iff {instanceId : Id} {s : State} {f : Loop → Effect} {p : Loop → Prop}
    (h : ∀ l, s.ledger.Safe instanceId (f l) ↔ p l) :
    s.ledger.Safe instanceId (s.ofLoop f) ↔ ∀ l, s.loop = some l → p l := by
  rw [ofLoop]
  cases s.loop with
  | none => exact iff_of_true trivial fun l h => by cases h
  | some l => simpa using h l

theorem safe_poll_iff (instanceId : Id) (s : State) (now : Time) (http : Http) (l : Loop) :
    s.ledger.Safe instanceId (s.pollEffect instanceId now http l) ↔
      (l.control.isPolling = true → l.stopFlag = false → http.reaches = true →
        (http = .answered ∧ (s.window instanceId l).find? Control.Event.isKill = none) ∨
          pendingRows s.queue instanceId now pollLimit = []) := by
  rw [pollEffect]
  cases l.control.isPolling with
  | false => exact iff_of_true trivial fun h => by cases h
  | true =>
    cases l.stopFlag with
    | true => exact iff_of_true trivial fun _ h => by cases h
    | false =>
      cases http.reaches with
      | false => exact iff_of_true trivial fun _ _ h => by cases h
      | true => simp [Ledger.Safe, Ledger.polled, ledger]

theorem safe_controlAck_iff (instanceId : Id) (s : State) (now : Time) (http : Http) (l : Loop) :
    s.ledger.Safe instanceId (controlAckEffect now http l) ↔
      ∀ item rest, l.control = .acking item rest → s.Acks http item := by
  obtain ⟨item, rest, hc, hitem⟩ | ⟨hnone, hnothing⟩ := controlAckEffect_cases now http l
  · rw [hitem, hc]
    constructor
    · rintro h _ _ ⟨⟩
      exact h
    · intro h
      exact h item rest rfl
  · rw [hnothing]
    exact iff_of_true trivial fun item rest h => absurd h (hnone item rest)

theorem safe_mainAck_iff (instanceId : Id) (s : State) (now : Time) (http : Http) (l : Loop) :
    s.ledger.Safe instanceId (mainAckEffect now http l) ↔
      ∀ item rest, l.main = .applying (item :: rest) → s.Acks http item := by
  obtain ⟨item, rest, hm, hitem⟩ | ⟨hnone, hnothing⟩ := mainAckEffect_cases now http l
  · rw [hitem, hm]
    constructor
    · rintro h _ _ ⟨⟩
      exact h
    · intro h
      exact h item rest rfl
  · rw [hnothing]
    exact iff_of_true trivial fun item rest h => absurd h (hnone item rest)

theorem safe_iterate_iff (instanceId : Id) (s : State) (l : Loop) :
    s.ledger.Safe instanceId (iterateEffect l) ↔
      (l.main = .head → l.stopFlag = true → s.HoldsNothing) := by
  rw [iterateEffect]
  cases l.main with
  | head =>
    cases l.stopFlag with
    | true => simp [Ledger.Safe, ledger, HoldsNothing]
    | false => exact iff_of_true trivial fun _ h => by cases h
  | turn => exact iff_of_true trivial fun h => by cases h
  | applying batch => exact iff_of_true trivial fun h => by cases h

theorem careful_iff (instanceId : Id) (s : State) (c : Step) :
    s.ledger.Safe instanceId (s.effect instanceId c) ↔ s.Careful instanceId c := by
  cases c with
  | backend c =>
    rw [effect]
    split
    · exact iff_of_true trivial trivial
    · exact iff_of_true trivial trivial
  | poll now http => exact safe_ofLoop_iff (safe_poll_iff instanceId s now http)
  | controlAck now http => exact safe_ofLoop_iff (safe_controlAck_iff instanceId s now http)
  | mainAck now http => exact safe_ofLoop_iff (safe_mainAck_iff instanceId s now http)
  | iterate => exact safe_ofLoop_iff (safe_iterate_iff instanceId s)
  | exit => exact Iff.rfl
  | record e => exact iff_of_true trivial trivial
  | start => exact iff_of_true trivial trivial
  | llmError => exact iff_of_true trivial trivial
  | checkpoint => exact iff_of_true trivial trivial

theorem ok_step (instanceId : Id) (s : State) (c : Step) (h : s.ledger.Ok) :
    (s.step instanceId c).ledger.Ok := by
  rw [ledger_step instanceId s h.held_nodup c]
  exact h.apply instanceId _

theorem ok_initial (q : Queue) (events : Events) : (initial q events).ledger.Ok :=
  ⟨List.forall_mem_nil _, List.nodup_nil, List.forall_mem_nil _⟩

/-- A row that a poll has marked delivered is acknowledged, failed or still on the hands of the
loop in exactly the runs whose steps are careful; no later poll returns it in any run. -/
theorem always_kept_iff (instanceId : Id) (q : Queue) (events : Events) (steps : List Step) :
    (Run.Always (step instanceId) Kept (initial q events) steps ↔
      Run.Meets (step instanceId) (Careful instanceId) (initial q events) steps) ∧
    Run.Always (step instanceId)
      (fun s => ∀ id ∈ s.marked, ∀ now,
        id ∉ (pollPendingInjects s.queue now instanceId pollLimit).2.map InstanceInjectQueue.id)
      (initial q events) steps := by
  constructor
  · apply Run.always_iff_meets (r := fun s => s.ledger.Ok)
    · exact fun s c h => ok_step instanceId s c h
    · intro s c h hk
      rw [← careful_iff]
      refine Iff.trans ?_ (Ledger.kept_apply_iff instanceId h hk _ fun now id reaches he =>
        mem_heldIds_of_effect he)
      rw [← ledger_step instanceId s h.held_nodup c]
      exact Iff.rfl
    · exact ok_initial q events
    · exact List.forall_mem_nil _
  · refine Run.Always.imp ?_ (Run.always_of_step (fun s c h => ok_step instanceId s c h)
      (ok_initial q events) steps)
    intro s h id hid now
    rw [map_id_polled]
    exact Ledger.not_mem_polled h instanceId now hid

/-- The answer to a poll holds an inject and the order to stop. -/
def killedPoll : List Step :=
  [.start, .backend (.enqueueInject ⟨0, "q", true, "i", .collabInject, .softInject, .obj [], none⟩),
    .record Control.LoopRun.oldKill, .poll 1 .answered]

theorem killedPoll_strands :
    ¬ Run.Always (step "i") Kept (initial .empty .empty) killedPoll := by
  intro h
  have hk := h.exec "q" (by decide)
  have hst : statusOf (Run.exec (step "i") (initial .empty .empty) killedPoll).queue "q" =
      some .delivered := by decide
  have hheld : "q" ∉ (Run.exec (step "i") (initial .empty .empty) killedPoll).heldIds := by decide
  rw [hst] at hk
  rcases hk with hk | hk | hk
  · cases hk
  · cases hk
  · exact hheld hk

end State

end Eyot.Inject.Runtime
