import Eyot.Data.Datetime
import Eyot.Routing.DirectiveRouter

/-! What starting a meeting does to its participants: each has its instance woken through the
inject queue. -/

namespace Eyot.Meetings

open Routing (Surroundings Payload Routed systemEvent enqueueInject handleResume optionalText)

inductive MeetingStatus where
  | scheduled | active | ended | cancelled
  deriving DecidableEq

def MeetingStatus.value : MeetingStatus → String
  | .scheduled => "scheduled"
  | .active => "active"
  | .ended => "ended"
  | .cancelled => "cancelled"

structure Meeting where
  id : Id
  workspaceId : Id
  title : Str
  agenda : Option Str
  status : MeetingStatus
  scheduledAt : Datetime
  endedAt : Option Datetime

structure MeetingParticipant where
  id : Id
  membershipId : Id

/-- Beside what routing leaves behind, a runtime task of an instance. -/
inductive Effect where
  | routed (e : Routing.Effect)
  | startRuntime (instanceId : Id)
  deriving DecidableEq

abbrev Waking := Traced Effect Failure

def routed {α : Type} (m : Routed α) : Waking α := ⟨m.log.map .routed, m.result⟩

/-- What the matrix finds outside the database: as routing does, and the ids of new rows and the
texts of exceptions. -/
structure View where
  env : Surroundings
  loopStateId : Id → Id
  errorText : Failure → Str

def resumeLoopStatuses : List LoopStatus := [.failed, .interrupted, .paused, .completed]

def meetingPayload (meeting : Meeting) : Payload :=
  [("meeting_id", .id meeting.id), ("title", .text meeting.title),
    ("agenda", optionalText meeting.agenda),
    ("scheduled_at", .text meeting.scheduledAt.isoformat)]

def meetingTldr (meeting : Meeting) : Str :=
  let text := if meeting.title.isEmpty then "Meeting notification".toList
    else "Meeting: ".toList ++ meeting.title
  text.take 200

section Matrix

variable (v : View) (meeting : Meeting)

def emitNoInstance (p : MeetingParticipant) : Waking Unit :=
  routed (Routing.emit (systemEvent "meeting.participant_no_instance" "meeting" meeting.id
    [("membership_id", .id p.membershipId)]))

def emitWakeFailed (instanceId : Id) (exc : Failure) : Waking Unit :=
  routed (Routing.emit (systemEvent "meeting.participant_wake_failed" "meeting" meeting.id
    [("instance_id", .id instanceId), ("error", .text (v.errorText exc))]))

def enqueue (instanceId : Id) (deliveryMode : Routing.DeliveryMode) : Waking Unit := do
  let _ ← routed (enqueueInject v.env instanceId .collabInject deliveryMode (meetingPayload meeting)
    (some (meetingTldr meeting)))

/-- The seat's instance, if both are there. -/
def instanceOf (db : Db) (membership : Membership) : Option Instance := do
  let id ← membership.instanceId
  (db.instances.find? id).filter fun i => i.deletedAt.isNone

def loopStateOf (db : Db) (instanceId : Id) : Option InstanceLoopState :=
  db.loopStates.rows.find? fun s => s.instanceId = instanceId && s.deletedAt.isNone

/-- The loop of an instance is told to go on; it gets a loop state first if it has none. -/
def resumeLoop (db : Db) (instanceId : Id) : Routed Db :=
  match loopStateOf db instanceId with
  | some _ => handleResume db instanceId
  | none =>
    match db.loopStates.insert? ⟨v.loopStateId instanceId, instanceId, .idle, none⟩ with
    | none => .throw .integrityError
    | some loopStates => handleResume { db with loopStates := loopStates } instanceId

/-- `_wake_participant`; says too whether a queue row was written. -/
def wakeParticipant (db : Db) (p : MeetingParticipant) : Waking (Bool × Db) :=
  match (db.memberships.find? p.membershipId).filter fun m => m.deletedAt.isNone with
  | none => pure (false, db)
  | some membership =>
    match instanceOf db membership with
    | none => do
      emitNoInstance meeting p
      return (false, db)
    | some instance_ =>
      let loopStatus := (loopStateOf db instance_.id).map InstanceLoopState.loopStatus
      if instance_.status = .running ∧ loopStatus = some .running then do
        enqueue v meeting instance_.id .softInject
        return (true, db)
      else if (loopStatus.any resumeLoopStatuses.contains) = true ∨ instance_.status = .pending then
        match (resumeLoop v db instance_.id).result with
        | .error exc => do
          emitWakeFailed v meeting instance_.id exc
          return (false, db)
        | .ok _ => do
          let db ← routed (resumeLoop v db instance_.id)
          .tell (.startRuntime instance_.id)
          enqueue v meeting instance_.id .wake
          return (true, db)
      else do
        enqueue v meeting instance_.id .wake
        return (true, db)

/-- `wake_meeting_participants`, with the memberships that were woken. -/
def wakeMeetingParticipants : Db → List MeetingParticipant → Waking (List Id)
  | _, [] => pure []
  | db, p :: ps => do
    let (woken, db) ← wakeParticipant v meeting db p
    let rest ← wakeMeetingParticipants db ps
    return if woken then p.membershipId :: rest else rest

/-! Nobody is woken twice by one start. -/

def isQueueRow : Effect → Bool
  | .routed (.inject _) => true
  | _ => false

variable {v meeting}

theorem length_meetingTldr : (meetingTldr meeting).length ≤ Routing.tldrMaxChars :=
  List.length_take_le _ _

theorem validateTldr_meetingTldr :
    Routing.validateTldr (some (meetingTldr meeting)) 0 = .ok () := by
  have hshort : ¬ (meetingTldr meeting).length > Routing.tldrMaxChars :=
    not_lt.mpr length_meetingTldr
  rw [Routing.validateTldr, Option.filter_some, if_neg (by simpa using hshort)]
  rfl

variable (v meeting) in
theorem enqueue_spec (instanceId : Id) (mode : Routing.DeliveryMode) :
    (enqueue v meeting instanceId mode).result = .ok () ∧
      (enqueue v meeting instanceId mode).log.countP isQueueRow = 1 := by
  have hprose : Routing.computeProseLength (meetingPayload meeting) = 0 := rfl
  rw [enqueue, enqueueInject, hprose, validateTldr_meetingTldr]
  exact ⟨rfl, rfl⟩

variable (v meeting) in
theorem enqueue_return_spec (instanceId : Id) (mode : Routing.DeliveryMode) (db : Db) :
    (do enqueue v meeting instanceId mode; return (true, db) : Waking (Bool × Db)).result =
        .ok (true, db) ∧
      (do enqueue v meeting instanceId mode; return (true, db) :
        Waking (Bool × Db)).log.countP isQueueRow = 1 := by
  obtain ⟨hok, hcount⟩ := enqueue_spec v meeting instanceId mode
  rw [Traced.bind_ok hok]
  refine ⟨rfl, ?_⟩
  rw [List.countP_append, hcount]
  rfl

/-- A loop is resumed without a word to the queue. -/
theorem handleResume_silent (db : Db) (instanceId : Id) :
    Traced.Emits (fun w => isQueueRow (.routed w) = false) (handleResume db instanceId) := by
  refine Traced.Emits.bind (Traced.emits_ofExcept _) fun state _ => ?_
  refine Traced.Emits.bind ?_ fun _ _ => Traced.emits_pure _
  exact Traced.emits_tell rfl

theorem resumeLoop_silent (db : Db) (instanceId : Id) :
    (routed (resumeLoop v db instanceId)).log.countP isQueueRow = 0 := by
  have hsilent : Traced.Emits (fun w => isQueueRow (.routed w) = false)
      (resumeLoop v db instanceId) := by
    rw [resumeLoop]
    split
    · exact handleResume_silent db instanceId
    · split
      · exact Traced.emits_throw _
      · exact handleResume_silent _ instanceId
  rw [List.countP_eq_zero, routed]
  intro w hw
  obtain ⟨e, he, rfl⟩ := List.mem_map.mp hw
  simp [hsilent e he]

variable (v meeting) in
theorem wakeParticipant_spec (db : Db) (p : MeetingParticipant) :
    ∃ woken db', (wakeParticipant v meeting db p).result = .ok (woken, db') ∧
      (wakeParticipant v meeting db p).log.countP isQueueRow = if woken then 1 else 0 := by
  -- one branch of the matrix after the other
  rw [wakeParticipant]
  split
  · exact ⟨false, db, rfl, rfl⟩
  · split
    · exact ⟨false, db, rfl, rfl⟩
    · rename_i inst _
      dsimp only
      split
      · exact ⟨true, db, enqueue_return_spec v meeting inst.id .softInject db⟩
      · split
        · split
          · exact ⟨false, db, rfl, rfl⟩
          · rename_i db' hresume
            have hrouted : (routed (resumeLoop v db inst.id)).result = .ok db' := hresume
            obtain ⟨hok, hcount⟩ := enqueue_return_spec v meeting inst.id .wake db'
            rw [Traced.bind_ok hrouted]
            refine ⟨true, db', hok, ?_⟩
            rw [List.countP_append, resumeLoop_silent, Nat.zero_add]
            exact hcount
        · exact ⟨true, db, enqueue_return_spec v meeting inst.id .wake db⟩

variable (v meeting) in
/-- A start does not fail on the way, and wakes each participant once at most, with one queue row
for each that it wakes. -/
theorem wakeMeetingParticipants_spec (db : Db) (ps : List MeetingParticipant) :
    ∃ ids, (wakeMeetingParticipants v meeting db ps).result = .ok ids ∧
      ids.Sublist (ps.map MeetingParticipant.membershipId) ∧
      (wakeMeetingParticipants v meeting db ps).log.countP isQueueRow = ids.length := by
  induction ps generalizing db with
  | nil => exact ⟨[], rfl, .slnil, rfl⟩
  | cons p ps ih =>
    obtain ⟨woken, db', hp, hcount⟩ := wakeParticipant_spec v meeting db p
    obtain ⟨ids, hids, hsub, hrest⟩ := ih db'
    rw [wakeMeetingParticipants, Traced.bind_ok hp]
    dsimp only
    rw [Traced.bind_ok hids]
    refine ⟨_, rfl, ?_, ?_⟩
    · cases woken with
      | true => exact hsub.cons_cons _
      | false => exact hsub.cons _
    · rw [List.countP_append, List.countP_append, hcount, hrest]
      cases woken with
      | true => exact Nat.add_comm _ _
      | false => exact Nat.zero_add _

end Matrix

end Eyot.Meetings
