import Eyot.Inject.Queue
import Eyot.Library.Run

/-! The life of a queue row over any sequence of calls: how its status moves, and which audit
events go with the moves. -/

namespace Eyot.Inject

open Routing (DeliveryMode)

inductive Call where
  | enqueueInject (e : Enqueue)
  | pollPendingInjects (now : Time) (instanceId : Id) (limit : Nat)
  | ackInjects (now : Time) (queueIds : List Id)
  | markInjectFailed (now : Time) (queueId : Id) (errorMessage : Str)
  | sweepExpired (now : Time)
  | sweepOldCompleted (now : Time)

/-- A call that raises leaves the queue as it was: its caller rolls back. -/
def perform (q : Queue) : Call → Queue × List InjectEvent
  | .enqueueInject e =>
    match enqueueInject q e with
    | .ok done => done
    | .error _ => (q, [])
  | .pollPendingInjects now instanceId limit =>
    ((pollPendingInjects q now instanceId limit).1, [])
  | .ackInjects now queueIds =>
    ((ackInjects q now queueIds).1, (ackInjects q now queueIds).2.2)
  | .markInjectFailed now queueId errorMessage =>
    match markInjectFailed q now queueId errorMessage with
    | .ok done => done
    | .error _ => (q, [])
  | .sweepExpired now => (sweepExpired q now, [])
  | .sweepOldCompleted now => (sweepOldCompleted q now, [])

structure Move where
  mode : DeliveryMode
  old : Option InjectStatus
  new : InjectStatus
  deriving DecidableEq

/-- The lifecycle; a row that is created comes from nowhere. -/
def Move.allowed (m : Move) : Bool :=
  match m.old, m.new with
  | none, .pending => true
  | some .pending, .delivered => true
  | some .pending, .failed => true
  | some .pending, .expired => true
  | some .delivered, .acked => true
  | some .delivered, .failed => true
  | _, _ => false

/-- The audit event the module has for a move. It has none for a row that is handed out, that
expires, or whose acknowledged delivery was a notification. -/
def Move.pairedEvent (m : Move) : Option String :=
  match m.new with
  | .pending => some harnessInjectRequested
  | .acked => if m.mode ∈ ackedModes then some harnessInjectApplied else none
  | .failed => some harnessInjectFailed
  | .delivered | .expired => none

def movesBetween (old new : Option InstanceInjectQueue) : List Move :=
  match new with
  | none => []
  | some r =>
    if old.map InstanceInjectQueue.status = some r.status then []
    else [⟨r.deliveryMode, old.map InstanceInjectQueue.status, r.status⟩]

def harnessInjectTypes : List String :=
  [harnessInjectRequested, harnessInjectApplied, harnessInjectFailed]

def eventsOf (id : Id) (events : List InjectEvent) : List String :=
  (events.filter fun e => e.queueId = id && e.type ∈ harnessInjectTypes).map InjectEvent.type

/-- A queue with what has happened to each of its rows since the run began. -/
structure History where
  queue : Queue
  moves : Id → List Move
  events : List InjectEvent

namespace History

def start (q : Queue) : History := ⟨q, fun _ => [], []⟩

def step (h : History) (c : Call) : History where
  queue := (perform h.queue c).1
  moves id := h.moves id ++ movesBetween (h.queue.find? id) ((perform h.queue c).1.find? id)
  events := h.events ++ (perform h.queue c).2

/-- Statuses move along the lifecycle only. -/
def InOrder (h : History) : Prop := ∀ id, ∀ m ∈ h.moves id, m.allowed

/-- No move is without an event. -/
def Complete (h : History) : Prop := ∀ id, ∀ m ∈ h.moves id, m.pairedEvent.isSome

end History

/-- A call keeps the law of a row when it moves it along the lifecycle and emits the event. -/
def Lawful (old new : Option InstanceInjectQueue) (events : List String) : Prop :=
  (∀ m ∈ movesBetween old new, m.allowed) ∧
    events = (movesBetween old new).filterMap Move.pairedEvent

theorem isOverdue_status {now : Time} {r : InstanceInjectQueue} (h : r.isOverdue now) :
    r.status = .pending := by
  simp only [InstanceInjectQueue.isOverdue, InstanceInjectQueue.isPending, Bool.and_eq_true,
    decide_eq_true_eq] at h
  exact h.1.1

theorem isSelectable_status {instanceId : Id} {now : Time} {r : InstanceInjectQueue}
    (h : r.isSelectable instanceId now) : r.status = .pending := by
  simp only [InstanceInjectQueue.isSelectable, InstanceInjectQueue.isPending, Bool.and_eq_true,
    decide_eq_true_eq] at h
  exact h.1.2.1

theorem find?_expireOverdue (q : Queue) (now : Time) (p : InstanceInjectQueue → Bool) (id : Id) :
    (expireOverdue q now p).find? id =
      (q.find? id).map fun r => if p r && r.isOverdue now then r.setStatus .expired now else r :=
  q.find?_updateWhere _ _ _ id

theorem mem_pendingRows {q : Queue} {instanceId : Id} {now : Time} {limit : Nat}
    {r : InstanceInjectQueue} (h : r ∈ pendingRows q instanceId now limit) :
    r ∈ q.rows ∧ r.isSelectable instanceId now :=
  List.mem_filter.mp (Window.mem_of_mem_first h)

theorem not_isSelectable_of_isOverdue {now : Time} {r : InstanceInjectQueue}
    (h : r.isOverdue now) (instanceId : Id) : ¬ r.isSelectable instanceId now := by
  simp only [InstanceInjectQueue.isOverdue, InstanceInjectQueue.isSelectable, Bool.and_eq_true,
    decide_eq_true_eq] at h ⊢
  rintro ⟨-, hlt⟩
  exact Nat.not_le.mpr hlt h.2

/-- The rows that expire in a poll are none of those it selects. -/
theorem pendingRows_expireOverdue (q : Queue) (now : Time) (p : InstanceInjectQueue → Bool)
    (instanceId : Id) (limit : Nat) :
    pendingRows (expireOverdue q now p) instanceId now limit =
      pendingRows q instanceId now limit := by
  have hrow : ∀ r : InstanceInjectQueue,
      ((if p r && r.isOverdue now then r.setStatus .expired now else r).isSelectable
        instanceId now) = r.isSelectable instanceId now := by
    intro r
    split
    · next h =>
      rw [Bool.and_eq_true] at h
      rw [Bool.eq_false_of_not_eq_true (not_isSelectable_of_isOverdue h.2 instanceId)]
      simp [InstanceInjectQueue.isSelectable, InstanceInjectQueue.isPending,
        InstanceInjectQueue.setStatus]
    · rfl
  have hfilter : (expireOverdue q now p).rows.filter (·.isSelectable instanceId now) =
      q.rows.filter (·.isSelectable instanceId now) := by
    rw [expireOverdue, Table.updateWhere_rows, List.filter_map]
    simp only [Function.comp_def, hrow]
    conv_rhs => rw [← List.map_id (q.rows.filter _)]
    apply List.map_congr_left
    intro r hr
    rw [if_neg]
    · rfl
    · rw [Bool.and_eq_true]
      rintro ⟨-, ho⟩
      exact not_isSelectable_of_isOverdue ho instanceId (List.mem_filter.mp hr).2
  rw [pendingRows, hfilter, pendingRows]

theorem mem_map_id_pendingRows {q : Queue} {instanceId : Id} {now : Time} {limit : Nat}
    {r : InstanceInjectQueue} (hr : r ∈ q.rows)
    (h : r.id ∈ (pendingRows q instanceId now limit).map InstanceInjectQueue.id) :
    r ∈ pendingRows q instanceId now limit := by
  obtain ⟨s, hs, hid⟩ := List.mem_map.mp h
  rwa [← q.eq_of_key_eq (mem_pendingRows hs).1 hr hid]

theorem find?_pollPendingInjects (q : Queue) (now : Time) (instanceId : Id) (limit : Nat)
    (id : Id) :
    (pollPendingInjects q now instanceId limit).1.find? id =
      (q.find? id).map fun r =>
        if r.instanceId = instanceId && r.isOverdue now then r.setStatus .expired now
        else if r.id ∈ (pendingRows q instanceId now limit).map InstanceInjectQueue.id then
          r.setStatus .delivered now
        else r := by
  rw [pollPendingInjects, setDelivered, Table.find?_updateWhere, find?_expireOverdue,
    pendingRows_expireOverdue]
  cases hf : q.find? id with
  | none => rfl
  | some r =>
    simp only [Option.map_some, decide_eq_true_eq]
    congr 1
    by_cases ho : r.instanceId = instanceId && r.isOverdue now
    · have hout : r.id ∉ (pendingRows q instanceId now limit).map InstanceInjectQueue.id := by
        intro hmem
        rw [Bool.and_eq_true] at ho
        exact not_isSelectable_of_isOverdue ho.2 instanceId
          (mem_pendingRows (mem_map_id_pendingRows (Table.find?_mem hf) hmem)).2
      simp [ho, hout, InstanceInjectQueue.setStatus_id]
    · simp [ho]

theorem isAckable_status {queueIds : List Id} {r : InstanceInjectQueue} (h : r.isAckable queueIds) :
    r.status = .delivered := by
  simp only [InstanceInjectQueue.isAckable, Bool.and_eq_true, decide_eq_true_eq] at h
  exact h.2

theorem find?_ackInjects (q : Queue) (now : Time) (queueIds : List Id) (id : Id) :
    (ackInjects q now queueIds).1.find? id =
      (q.find? id).map fun r => if r.isAckable queueIds then r.ack now else r :=
  q.find?_updateWhere _ _ (InstanceInjectQueue.ack_id now) id

theorem find?_update_eq (q : Queue) (queueId : Id) (f : InstanceInjectQueue → InstanceInjectQueue)
    (hf : ∀ r, (f r).id = r.id) (id : Id) :
    (q.update queueId f hf).find? id =
      (q.find? id).map fun r => if r.id = queueId then f r else r := by
  simp [Table.update, Table.find?_updateWhere]

/-- Either the call changes nothing, or it fails the one row it names. -/
theorem perform_markInjectFailed (q : Queue) (now : Time) (queueId : Id) (errorMessage : Str) :
    (perform q (.markInjectFailed now queueId errorMessage) = (q, []) ∧
      ∀ r, q.find? queueId = some r → r.deletedAt = none →
        ¬ errorMessage.length ≤ errorMessageLength) ∨
    ∃ r, q.find? queueId = some r ∧ r.deletedAt = none ∧
      errorMessage.length ≤ errorMessageLength ∧
      perform q (.markInjectFailed now queueId errorMessage) =
        (q.update queueId (·.fail errorMessage now) (InstanceInjectQueue.fail_id errorMessage now),
          [r.event harnessInjectFailed [("error_message", .str errorMessage)]]) := by
  simp only [perform, markInjectFailed]
  cases hf : q.find? queueId with
  | none => simp
  | some r =>
    by_cases hd : r.deletedAt = none
    · by_cases hl : errorMessage.length ≤ errorMessageLength
      · simp [Option.filter, hd, hl, Nat.not_lt.mpr hl]
      · simp [Option.filter, hd, Nat.lt_of_not_le hl]
    · simp [Option.filter, hd]

/-- Either the call raises, or it adds its row under a fresh identifier. -/
theorem perform_enqueueInject (q : Queue) (e : Enqueue) :
    perform q (.enqueueInject e) = (q, []) ∨
    ∃ q', q.insert? e.row = some q' ∧ perform q (.enqueueInject e) = (q', e.events) := by
  simp only [perform, enqueueInject]
  cases hv : validate e.tldr 0 with
  | error err => exact .inl rfl
  | ok _ =>
    cases hw : validate e.tldr (computeProseLength e.payload) with
    | error err => exact .inl rfl
    | ok _ =>
      cases he : e.instanceExists with
      | false => exact .inl rfl
      | true =>
        cases hi : q.insert? e.row with
        | none => exact .inl rfl
        | some q' => exact .inr ⟨q', rfl, rfl⟩

def statusOf (q : Queue) (id : Id) : Option InjectStatus :=
  (q.find? id).map InstanceInjectQueue.status

theorem statusOf_of_mem {q : Queue} {r : InstanceInjectQueue} (h : r ∈ q.rows) :
    statusOf q r.id = some r.status := by
  rw [statusOf, q.find?_of_mem h, Option.map_some]

theorem statusOf_updateWhere (q : Queue) (ids : List Id)
    (f : InstanceInjectQueue → InstanceInjectQueue) (hf : ∀ r, (f r).id = r.id)
    (status : InjectStatus) (hstatus : ∀ r, (f r).status = status) (id : Id) :
    statusOf (q.updateWhere (fun r => r.id ∈ ids) f hf) id =
      if id ∈ ids then (statusOf q id).map fun _ => status else statusOf q id := by
  rw [statusOf, Table.find?_updateWhere, statusOf]
  cases hq : q.find? id with
  | none => simp
  | some r =>
    have hid : r.id = id := Table.find?_key hq
    by_cases hmem : id ∈ ids
    · simp [hid, hmem, hstatus]
    · simp [hid, hmem]

/-- Handed out at some time. -/
def isHandled (status : Option InjectStatus) : Bool :=
  status = some .delivered || status = some .acked || status = some .failed

theorem isSome_of_isHandled {status : Option InjectStatus} (h : isHandled status) :
    status.isSome := by
  cases status with
  | none => exact absurd h (by decide)
  | some st => rfl

/-! Runs. -/

namespace History

end History

end Eyot.Inject
