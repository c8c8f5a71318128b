import Eyot.Library.Run
import Eyot.Meetings.Wakes

/-! Requests that start, end and cancel a meeting, each in a transaction of its own. The check of
the status comes before the row is written, and nothing keeps it from changing in between. -/

namespace Eyot.Meetings

inductive Action where
  | startMeeting | endMeeting | cancelMeeting
  deriving DecidableEq

namespace Action

def allowed : Action → List MeetingStatus
  | .startMeeting => [.scheduled]
  | .endMeeting => [.active]
  | .cancelMeeting => [.scheduled, .active]

def newStatus : Action → MeetingStatus
  | .startMeeting => .active
  | .endMeeting => .ended
  | .cancelMeeting => .cancelled

end Action

/-- The error, with its details. -/
def requireTransition (meeting : Meeting) (allowed : List MeetingStatus)
    (newStatus : MeetingStatus) : Except (EyotError × List (String × String)) Unit :=
  if allowed.contains meeting.status then .ok ()
  else .error (ConflictError "meeting.invalid_transition" "errors.meeting.invalid_transition"
      (s!"Cannot transition meeting '{meeting.id}' from " ++
        s!"'{meeting.status.value}' to '{newStatus.value}'"),
    [("from", meeting.status.value), ("to", newStatus.value)])

/-- `uq_meeting_participants_meeting_membership` -/
structure Roster where
  participants : List MeetingParticipant
  nodup : (participants.map MeetingParticipant.membershipId).Nodup

/-- The transaction that holds the row; a start has to wake the participants before it commits. -/
structure Writing where
  n : Nat
  action : Action
  woken : Option (List Id)

/-- `meeting` is the committed row and `history` what its status was, the last first. `woken` are
the memberships that committed starts have woken, one entry a time. -/
structure State where
  meeting : Meeting
  history : List MeetingStatus
  woken : List Id
  checked : List (Nat × Action)
  writing : Option Writing

/-- What the check of the permission comes to goes with the request. The rest of the database is
whatever it is when the participants are woken. -/
inductive Move where
  | check (n : Nat) (action : Action) (permission : Except EyotError Unit)
  | write (n : Nat)
  | wake (n : Nat) (v : View) (db : Db)
  | commit (n : Nat) (now : Datetime)
  | rollback (n : Nat)

namespace State

variable (s : State)

def action? (n : Nat) : Option Action := (s.checked.find? fun c => c.1 = n).map Prod.snd

/-- The transaction with that number, if it holds the row. -/
def writing? (n : Nat) : Option Writing := s.writing.filter fun w => w.n = n

def check (n : Nat) (action : Action) (permission : Except EyotError Unit) : State :=
  match permission with
  | .error _ => s
  | .ok () =>
    match requireTransition s.meeting action.allowed action.newStatus with
    | .error _ => s
    | .ok () => { s with checked := (n, action) :: s.checked }

/-- `UPDATE meetings`; it waits while another transaction holds the row. -/
def write (n : Nat) : State :=
  match s.action? n, s.writing with
  | some action, none =>
    { s with
      checked := s.checked.filter fun c => c.1 ≠ n
      writing := some ⟨n, action, if action = .startMeeting then none else some []⟩ }
  | _, _ => s

def wake (R : Roster) (n : Nat) (v : View) (db : Db) : State :=
  match s.writing? n with
  | none => s
  | some w =>
    if w.woken.isSome then s
    else
      let meeting := { s.meeting with status := w.action.newStatus }
      match (wakeMeetingParticipants v meeting db R.participants).result with
      | .ok ids => { s with writing := some { w with woken := some ids } }
      | .error _ => { s with writing := none }

/-- What is committed where nothing is left to be done before it. -/
def ready? (n : Nat) : Option (Action × List Id) := do
  let w ← s.writing? n
  let ids ← w.woken
  return (w.action, ids)

def commit (n : Nat) (now : Datetime) : State :=
  match s.ready? n with
  | none => s
  | some (action, ids) =>
    { s with
      meeting :=
        { s.meeting with
          status := action.newStatus
          endedAt := if action = .endMeeting then some now else s.meeting.endedAt }
      history := action.newStatus :: s.history
      woken := s.woken ++ ids
      writing := none }

def rollback (n : Nat) : State :=
  { s with
    checked := s.checked.filter fun c => c.1 ≠ n
    writing := s.writing.filter fun w => w.n ≠ n }

end State

def State.step (R : Roster) (s : State) : Move → State
  | .check n action permission => s.check n action permission
  | .write n => s.write n
  | .wake n v db => s.wake R n v db
  | .commit n now => s.commit n now
  | .rollback n => s.rollback n

/-- A meeting before its first request. -/
def opened (meeting : Meeting) : State := ⟨meeting, [meeting.status], [], [], none⟩

/-! What is to hold of every meeting. -/

def movesTo : MeetingStatus → MeetingStatus → Bool
  | .scheduled, .active => true
  | .active, .ended => true
  | .scheduled, .cancelled => true
  | .active, .cancelled => true
  | _, _ => false

structure Orderly (s : State) : Prop where
  moves : s.history.IsChain fun new old => new = old ∨ movesTo old new = true
  absorbing : s.history.IsChain fun new old => old = .ended ∨ old = .cancelled → new = old
  once : s.woken.Nodup

/-- A commit comes in time where the committed status is still one that the check of its request
lets through, or the very one that it writes, and wakes nobody who has been woken before. -/
def InTime (s : State) : Move → Prop
  | .commit n _ => ∀ action ids, s.ready? n = some (action, ids) →
      (action.allowed.contains s.meeting.status = true ∨ s.meeting.status = action.newStatus) ∧
        ∀ id ∈ ids, id ∉ s.woken
  | _ => True

theorem orderly_iff {s : State} : Orderly s ↔
    (s.history.IsChain fun new old => new = old ∨ movesTo old new = true) ∧ s.woken.Nodup := by
  constructor
  · intro h
    exact ⟨h.moves, h.once⟩
  · rintro ⟨hmoves, honce⟩
    refine ⟨hmoves, hmoves.imp ?_, honce⟩
    rintro new old (rfl | hmove) hdone
    · rfl
    · obtain rfl | rfl := hdone
      · cases new <;> cases hmove
      · cases new <;> cases hmove

/-! What a step does. -/

theorem movesTo_newStatus (action : Action) (old : MeetingStatus) :
    movesTo old action.newStatus = action.allowed.contains old := by
  cases action <;> cases old <;> rfl

namespace State

variable {R : Roster} {s : State}

theorem commit_of_ready {n : Nat} (now : Datetime) {action : Action} {ids : List Id}
    (h : s.ready? n = some (action, ids)) :
    (s.commit n now).meeting.status = action.newStatus ∧
      (s.commit n now).history = action.newStatus :: s.history ∧
      (s.commit n now).woken = s.woken ++ ids := by
  rw [commit, h]
  exact ⟨rfl, rfl, rfl⟩

theorem commit_of_none {n : Nat} {now : Datetime} (h : s.ready? n = none) :
    s.commit n now = s := by
  rw [commit, h]

/-- Only a commit touches what is committed. -/
theorem step_committed (R : Roster) {m : Move} (hm : ∀ n now, m ≠ .commit n now) :
    (s.step R m).meeting = s.meeting ∧ (s.step R m).history = s.history ∧
      (s.step R m).woken = s.woken := by
  cases m with
  | check n action permission =>
    rw [State.step, check.eq_def]
    split
    · exact ⟨rfl, rfl, rfl⟩
    · split <;> exact ⟨rfl, rfl, rfl⟩
  | write n =>
    rw [State.step, write]
    split <;> exact ⟨rfl, rfl, rfl⟩
  | wake n v db =>
    rw [State.step, wake]
    split
    · exact ⟨rfl, rfl, rfl⟩
    · split
      · exact ⟨rfl, rfl, rfl⟩
      · dsimp only
        split <;> exact ⟨rfl, rfl, rfl⟩
  | commit n now => exact absurd rfl (hm n now)
  | rollback n => exact ⟨rfl, rfl, rfl⟩

/-- The history ends in the committed status, and no transaction wakes a membership twice. -/
structure Tracked (s : State) : Prop where
  head : ∃ before, s.history = s.meeting.status :: before
  apart : ∀ w ids, s.writing = some w → w.woken = some ids → ids.Nodup

theorem Tracked.nodup (h : s.Tracked) {n : Nat} {action : Action} {ids : List Id}
    (hready : s.ready? n = some (action, ids)) : ids.Nodup := by
  rw [ready?, Option.bind_eq_bind, Option.bind_eq_some_iff] at hready
  obtain ⟨w, hw, hready⟩ := hready
  obtain ⟨ids', hids, heq⟩ := Option.bind_eq_some_iff.mp hready
  cases heq
  exact h.apart w ids (Option.filter_eq_some_iff.mp hw).1 hids

theorem nodup_of_wake {v : View} {meeting : Meeting} {db : Db} {ids : List Id}
    (h : (wakeMeetingParticipants v meeting db R.participants).result = .ok ids) : ids.Nodup := by
  obtain ⟨ids', hids, hsub, -⟩ := wakeMeetingParticipants_spec v meeting db R.participants
  rw [hids] at h
  cases h
  exact hsub.nodup R.nodup

theorem Tracked.step_writing (h : s.Tracked) (R : Roster) (m : Move) :
    ∀ w ids, (s.step R m).writing = some w → w.woken = some ids → ids.Nodup := by
  intro w ids hw hids
  cases m with
  | check n action permission =>
    rw [State.step, check.eq_def] at hw
    split at hw
    · exact h.apart w ids hw hids
    · split at hw <;> exact h.apart w ids hw hids
  | write n =>
    rw [State.step, write] at hw
    split at hw
    · cases hw
      dsimp only at hids
      split at hids
      · cases hids
      · cases hids
        exact List.nodup_nil
    · exact h.apart w ids hw hids
  | wake n v db =>
    rw [State.step, wake] at hw
    split at hw
    · exact h.apart w ids hw hids
    · split at hw
      · exact h.apart w ids hw hids
      · dsimp only at hw
        split at hw
        · rename_i hwoken
          cases hw
          cases hids
          exact nodup_of_wake hwoken
        · cases hw
  | commit n now =>
    rw [State.step] at hw
    cases hready : s.ready? n with
    | none =>
      rw [commit_of_none hready] at hw
      exact h.apart w ids hw hids
    | some r =>
      rw [commit, hready] at hw
      cases hw
  | rollback n => exact h.apart w ids (Option.filter_eq_some_iff.mp hw).1 hids

theorem Tracked.step (h : s.Tracked) (R : Roster) (m : Move) : (s.step R m).Tracked := by
  refine ⟨?_, h.step_writing R m⟩
  by_cases hm : ∃ n now, m = .commit n now
  · obtain ⟨n, now, rfl⟩ := hm
    rw [State.step]
    cases hready : s.ready? n with
    | none =>
      rw [commit_of_none hready]
      exact h.head
    | some r =>
      obtain ⟨hstatus, hhistory, -⟩ := commit_of_ready now hready
      exact ⟨s.history, by rw [hhistory, hstatus]⟩
  · obtain ⟨hmeeting, hhistory, -⟩ := step_committed R fun n now heq => hm ⟨n, now, heq⟩
    rw [hmeeting, hhistory]
    exact h.head

end State

theorem isChain_cons_iff {new old : MeetingStatus} {before : List MeetingStatus}
    {R : MeetingStatus → MeetingStatus → Prop} (h : (old :: before).IsChain R) :
    (new :: old :: before).IsChain R ↔ R new old := by
  rw [List.isChain_cons_cons]
  exact and_iff_left h

theorem nodup_append_iff {woken ids : List Id} (hwoken : woken.Nodup) (hids : ids.Nodup) :
    (woken ++ ids).Nodup ↔ ∀ id ∈ ids, id ∉ woken := by
  rw [List.nodup_append]
  constructor
  · rintro ⟨-, -, h⟩ id hid hin
    exact h id hin id hid rfl
  · intro h
    refine ⟨hwoken, hids, ?_⟩
    rintro id hin _ hid rfl
    exact h id hid hin

/-- A step keeps a meeting orderly if and only if it is no commit out of time. -/
theorem orderly_step_iff (R : Roster) {s : State} (m : Move) (h : s.Tracked) (hs : Orderly s) :
    Orderly (s.step R m) ↔ InTime s m := by
  by_cases hm : ∃ n now, m = .commit n now
  · obtain ⟨n, now, rfl⟩ := hm
    rw [State.step]
    cases hready : s.ready? n with
    | none =>
      rw [State.commit_of_none hready]
      refine iff_of_true hs fun action ids hr => ?_
      rw [hready] at hr
      cases hr
    | some r =>
      obtain ⟨action, ids⟩ := r
      obtain ⟨before, hbefore⟩ := h.head
      obtain ⟨-, hhistory, hwoken⟩ := State.commit_of_ready now hready
      have hmoves := hs.moves
      rw [hbefore] at hmoves
      rw [orderly_iff, hhistory, hwoken, hbefore, isChain_cons_iff hmoves, movesTo_newStatus,
        nodup_append_iff hs.once (h.nodup hready), or_comm, @eq_comm _ action.newStatus]
      constructor
      · intro hin action' ids' hr
        rw [hready] at hr
        cases hr
        exact hin
      · intro hin
        exact hin action ids hready
  · obtain ⟨-, hhistory, hwoken⟩ := State.step_committed R fun n now heq => hm ⟨n, now, heq⟩
    rw [orderly_iff, hhistory, hwoken, ← orderly_iff]
    refine iff_of_true hs ?_
    cases m with
    | commit n now => exact absurd ⟨n, now, rfl⟩ hm
    | _ => trivial

theorem tracked_opened (meeting : Meeting) : (opened meeting).Tracked where
  head := ⟨[], rfl⟩
  apart _ _ hw := by cases hw

theorem orderly_opened (meeting : Meeting) : Orderly (opened meeting) :=
  orderly_iff.mpr ⟨.singleton _, List.nodup_nil⟩

/-- However the requests come in between each other, the meeting stays orderly if and only if each
of them commits in time. -/
theorem orderly_iff_inTime (R : Roster) (meeting : Meeting) (moves : List Move) :
    Run.Always (State.step R) Orderly (opened meeting) moves ↔
      Run.Meets (State.step R) InTime (opened meeting) moves :=
  Run.always_iff_meets (r := State.Tracked) (fun _ m h => h.step R m)
    (fun _ m h hs => orderly_step_iff R m h hs) (tracked_opened meeting) (orderly_opened meeting) moves

/-! A review that is cancelled and then starts: both requests have found it scheduled. -/

def noon : Datetime := ⟨⟨2026, 1, 1, 12, 0, 0, 0⟩, by decide⟩

def review : Meeting := ⟨"review", "delta", [], none, .scheduled, noon, none⟩

def nobody : Roster := ⟨[], List.nodup_nil⟩

def bareView : View := ⟨⟨0, id, id, fun _ => false, fun _ => false⟩, id, fun _ => []⟩

def bareDb : Db where
  workspaces := .empty
  entities := .empty
  instances := .empty
  memberships := .empty
  passages := .empty
  loopStates := .empty
  uniqueActiveEdge := List.Pairwise.nil

def crossed : List Move :=
  [.check 0 .cancelMeeting (.ok ()), .check 1 .startMeeting (.ok ()), .write 0, .commit 0 noon,
    .write 1, .wake 1 bareView bareDb, .commit 1 noon]

theorem crossed_history :
    (Run.exec (State.step nobody) (opened review) crossed).history =
      [.active, .cancelled, .scheduled] := rfl

theorem not_orderly : ¬ ∀ (R : Roster) (meeting : Meeting) (moves : List Move),
    Run.Always (State.step R) Orderly (opened meeting) moves := by
  intro h
  have habsorbing := (h nobody review crossed).exec.absorbing
  rw [crossed_history] at habsorbing
  cases (List.isChain_cons_cons.mp habsorbing).1 (.inr rfl)

end Eyot.Meetings
