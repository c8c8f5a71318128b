import Eyot.Data.Rows
import Mathlib.Data.List.Basic

/-! One instance between its persisted loop status and `_runtime_tasks`: the requests that set the
status and start a task, and the tasks themselves, interleaved at every `await`. -/

namespace Eyot.Runtime

/-- How far a task has come in `run_agent_loop`: before the `try`, in the loop, at the last emit
behind it, or over. A task has its handler of kills only from the `try` on. -/
inductive Phase where
  | building
  | looping (stopFlag : Bool)
  | stopping
  | finished
  deriving DecidableEq

inductive TaskEvent where
  | built
  | buildFails
  | check
  | exhausted
  | raises
  | stopped

/-- A task goes on, returns from before the `try`, or leaves by the `finally`. -/
inductive Move where
  | becomes (phase : Phase)
  | returns
  | quits
  deriving DecidableEq

/-- `_should_stop_via_db`; a missing row does not stop the loop. -/
def shouldStopViaDb : Option LoopStatus → Bool
  | some status => status ∈ [LoopStatus.interrupted, .paused, .completed, .failed]
  | none => false

def Phase.move (loopStatus : Option LoopStatus) : Phase → TaskEvent → Option Move
  | .building, .built => some (.becomes (.looping false))
  | .building, .buildFails => some .returns
  | .looping stopFlag, .check =>
    if stopFlag || shouldStopViaDb loopStatus then some (.becomes .stopping) else none
  | .looping _, .exhausted => some (.becomes .stopping)
  | .looping _, .raises => some .quits
  | .stopping, .raises => some .quits
  | .stopping, .stopped => some .quits
  | _, _ => none

def Phase.kill : Phase → Phase
  | .looping _ => .looping true
  | phase => phase

/-- The tasks made for the instance, in order, and which of them `_runtime_tasks` holds. -/
structure TaskTable where
  entry : Option Nat
  tasks : List Phase

namespace TaskTable

def empty : TaskTable := ⟨none, []⟩

def startRuntimeFor (T : TaskTable) : TaskTable :=
  if T.entry.isSome then T else ⟨some T.tasks.length, T.tasks ++ [.building]⟩

def setPhase (T : TaskTable) (t : Nat) (phase : Phase) : TaskTable :=
  { T with tasks := T.tasks.set t phase }

/-- The event of a kill reaches the handlers registered so far. -/
def kill (T : TaskTable) : TaskTable := { T with tasks := T.tasks.map Phase.kill }

def move (T : TaskTable) (loopStatus : Option LoopStatus) (t : Nat) (e : TaskEvent) : Option Move :=
  match T.tasks[t]? with
  | some phase => phase.move loopStatus e
  | none => none

/-- The `finally` takes the entry out by the instance, whichever task it holds. -/
def act (T : TaskTable) (t : Nat) : Option Move → TaskTable
  | none => T
  | some (.becomes phase) => T.setPhase t phase
  | some .returns => T.setPhase t .finished
  | some .quits => { T.setPhase t .finished with entry := none }

def step (T : TaskTable) (loopStatus : Option LoopStatus) (t : Nat) (e : TaskEvent) : TaskTable :=
  T.act t (T.move loopStatus t e)

end TaskTable

/-- What a request does between two of its awaits. -/
inductive Action where
  | setLoopStatus (newStatus : LoopStatus)
  | sendKill
  | commit
  | startRuntime

inductive ControlCommand where
  | interrupt
  | pause
  | resume

def ControlCommand.handle : ControlCommand → List Action
  | .interrupt => [.setLoopStatus .interrupted, .sendKill]
  | .pause => [.setLoopStatus .paused]
  | .resume => [.setLoopStatus .running]

/-- The endpoints of the harness, a turn with its control directives for the instance, a meeting
that wakes it, and the consumer of activations. -/
inductive Request where
  | endpoint (command : ControlCommand)
  | turn (directives : List ControlCommand)
  | meetingWake
  | activation

namespace Request

def actions : Request → List Action
  | endpoint .resume => ControlCommand.resume.handle ++ [.commit, .startRuntime]
  | endpoint command => command.handle ++ [.commit]
  | turn directives => directives.flatMap ControlCommand.handle ++ [.commit]
  | meetingWake => ControlCommand.resume.handle ++ [.startRuntime, .commit]
  | activation => ControlCommand.resume.handle ++ [.commit, .startRuntime]

def isActive (status : InstanceStatus) : Bool :=
  status ∈ [InstanceStatus.running, .pending, .creating, .deploying]

def resumesFrom (loopStatus : LoopStatus) : Bool :=
  loopStatus ∈ [LoopStatus.failed, .interrupted, .paused, .completed]

/-- Whether the request gets to the loop state; without a row the commands end in an error. -/
def proceeds (status : InstanceStatus) (loopStatus : Option LoopStatus) : Request → Bool
  | endpoint _ => loopStatus.isSome
  | turn _ => isActive status && loopStatus.isSome
  | meetingWake =>
    !(status = .running && loopStatus = some .running) &&
      (loopStatus.any resumesFrom || status = .pending)
  | activation => isActive status && (loopStatus.isNone || loopStatus = some .idle)

end Request

/-- A request in flight: the loop status its session has loaded, or set since, and the one it has
written and not committed. -/
structure Operation where
  seen : Option LoopStatus
  written : Option LoopStatus
  todo : List Action

structure Process where
  loopStatus : Option LoopStatus
  table : TaskTable
  ops : List Operation

inductive Input where
  | begins (request : Request) (status : InstanceStatus)
  | advance (n : Nat)
  | fail (n : Nat)
  | task (t : Nat) (e : TaskEvent)

namespace Process

/-- A process that has just come up: `rehydrate` starts no task. -/
def boot (loopStatus : Option LoopStatus) : Process := ⟨loopStatus, .empty, []⟩

/-- A write waits for the row while another session has written it. Setting the status it has
loaded writes nothing. -/
def blocked (s : Process) (n : Nat) (op : Operation) : Action → Bool
  | .setLoopStatus newStatus =>
    op.seen ≠ some newStatus && (s.ops.eraseIdx n).any fun other => other.written.isSome
  | _ => false

/-- The row another session has created in the meantime is in the way of an insert. -/
def violates (s : Process) (op : Operation) : Action → Bool
  | .setLoopStatus _ => op.seen.isNone && s.loopStatus.isSome
  | _ => false

def perform (s : Process) (op : Operation) : Action → Process × Operation
  | .setLoopStatus newStatus =>
    (s, if op.seen = some newStatus then op
      else { op with seen := some newStatus, written := some newStatus })
  | .sendKill => ({ s with table := s.table.kill }, op)
  | .commit => ({ s with loopStatus := op.written.or s.loopStatus }, { op with written := none })
  | .startRuntime => ({ s with table := s.table.startRuntimeFor }, op)

/-- What the request has not committed goes with it; a task it started and a kill it sent stay. -/
def drop (s : Process) (n : Nat) : Process := { s with ops := s.ops.eraseIdx n }

def advance (s : Process) (n : Nat) : Process :=
  match s.ops[n]? with
  | none => s
  | some op =>
    match op.todo with
    | [] => s
    | a :: todo =>
      if s.blocked n op a then s
      else if s.violates op a then s.drop n
      else
        let (s', op') := s.perform op a
        if todo.isEmpty then s'.drop n
        else { s' with ops := s'.ops.set n { op' with todo := todo } }

def step (s : Process) : Input → Process
  | .begins request status =>
    if request.proceeds status s.loopStatus then
      { s with ops := s.ops ++ [⟨s.loopStatus, none, request.actions⟩] }
    else s
  | .advance n => s.advance n
  | .fail n => s.drop n
  | .task t e => { s with table := s.table.step s.loopStatus t e }

end Process

namespace TaskTable

/-- Every task that is not over is the one registered. -/
structure Sole (T : TaskTable) : Prop where
  bound : ∀ t, T.entry = some t → t < T.tasks.length
  registered : ∀ t phase, T.tasks[t]? = some phase → phase ≠ .finished → T.entry = some t

def Live (T : TaskTable) : Prop :=
  ∃ t phase, T.entry = some t ∧ T.tasks[t]? = some phase ∧ phase ≠ .finished

def Stale (T : TaskTable) : Prop := ∃ t, T.entry = some t ∧ T.tasks[t]? = some .finished

theorem sole_empty : empty.Sole := ⟨nofun, nofun⟩

theorem not_stale_empty : ¬ empty.Stale := nofun

theorem Sole.live_iff {T : TaskTable} (h : T.Sole) (hfresh : ¬ T.Stale) :
    T.Live ↔ T.entry.isSome = true := by
  constructor
  · rintro ⟨t, phase, hentry, -, -⟩
    rw [hentry]
    rfl
  · intro hentry
    obtain ⟨t, ht⟩ := Option.isSome_iff_exists.mp hentry
    have hphase := List.getElem?_eq_getElem (h.bound t ht)
    refine ⟨t, _, ht, hphase, ?_⟩
    intro hfinished
    rw [hfinished] at hphase
    exact hfresh ⟨t, ht, hphase⟩

theorem getElem?_setPhase {T : TaskTable} {t : Nat} {phase : Phase}
    (ht : T.tasks[t]? = some phase) (q : Phase) (u : Nat) :
    (T.setPhase t q).tasks[u]? = if t = u then some q else T.tasks[u]? := by
  have hlt : t < T.tasks.length := (List.getElem?_eq_some_iff.mp ht).1
  rw [setPhase, List.getElem?_set]
  by_cases htu : t = u
  · rw [if_pos htu, if_pos htu, if_pos hlt]
  · rw [if_neg htu, if_neg htu]

/-- What is not over is registered, so it may go on to whatever phase. -/
theorem Sole.setPhase {T : TaskTable} (h : T.Sole) {t : Nat} {phase : Phase}
    (ht : T.tasks[t]? = some phase) (hphase : phase ≠ .finished) (q : Phase) :
    (T.setPhase t q).Sole := by
  constructor
  · intro u hu
    rw [TaskTable.setPhase, List.length_set]
    exact h.bound u hu
  · intro u p hu hp
    rw [getElem?_setPhase ht] at hu
    by_cases htu : t = u
    · exact htu ▸ h.registered t phase ht hphase
    · rw [if_neg htu] at hu
      exact h.registered u p hu hp

theorem stale_setPhase {T : TaskTable} (h : T.Sole) {t : Nat} {phase : Phase}
    (ht : T.tasks[t]? = some phase) (hphase : phase ≠ .finished) (q : Phase) :
    (T.setPhase t q).Stale ↔ q = .finished := by
  have hentry : T.entry = some t := h.registered t phase ht hphase
  constructor
  · rintro ⟨u, hu, hfinished⟩
    obtain rfl : t = u := Option.some.inj (hentry.symm.trans hu)
    rw [getElem?_setPhase ht, if_pos rfl] at hfinished
    exact Option.some.inj hfinished
  · rintro rfl
    exact ⟨t, hentry, by rw [getElem?_setPhase ht, if_pos rfl]⟩

theorem finished_of_none {T : TaskTable} (h : T.Sole) (hentry : T.entry = none) {t : Nat}
    {phase : Phase} (ht : T.tasks[t]? = some phase) : phase = .finished := by
  by_contra hphase
  rw [h.registered t phase ht hphase] at hentry
  cases hentry

theorem Sole.startRuntimeFor {T : TaskTable} (h : T.Sole) : T.startRuntimeFor.Sole := by
  unfold TaskTable.startRuntimeFor
  split
  · exact h
  · rename_i hentry
    rw [Bool.not_eq_true, Option.isSome_eq_false_iff, Option.isNone_iff_eq_none] at hentry
    constructor
    · intro t ht
      cases ht
      simp
    · intro t phase ht hphase
      by_cases hlt : t < T.tasks.length
      · rw [List.getElem?_append_left hlt] at ht
        exact absurd (finished_of_none h hentry ht) hphase
      · rw [List.getElem?_append_right (Nat.le_of_not_lt hlt), List.getElem?_singleton] at ht
        split at ht
        · rename_i hlast
          have hlt' : t = T.tasks.length := by omega
          rw [hlt']
        · cases ht

theorem isSome_startRuntimeFor (T : TaskTable) : T.startRuntimeFor.entry.isSome = true := by
  unfold TaskTable.startRuntimeFor
  split
  · assumption
  · rfl

theorem stale_startRuntimeFor (T : TaskTable) : T.startRuntimeFor.Stale ↔ T.Stale := by
  unfold TaskTable.startRuntimeFor
  split
  · exact Iff.rfl
  · rename_i hentry
    constructor
    · rintro ⟨t, ht, hfinished⟩
      cases ht
      simp at hfinished
    · rintro ⟨t, ht, -⟩
      rw [ht] at hentry
      exact absurd rfl hentry

theorem kill_eq_finished {phase : Phase} : phase.kill = .finished ↔ phase = .finished := by
  cases phase <;> simp [Phase.kill]

theorem getElem?_kill_finished (T : TaskTable) (t : Nat) :
    T.kill.tasks[t]? = some .finished ↔ T.tasks[t]? = some .finished := by
  rw [kill, List.getElem?_map, Option.map_eq_some_iff]
  constructor
  · rintro ⟨phase, ht, hphase⟩
    rw [ht, kill_eq_finished.mp hphase]
  · intro ht
    exact ⟨.finished, ht, rfl⟩

theorem Sole.kill {T : TaskTable} (h : T.Sole) : T.kill.Sole := by
  constructor
  · intro t ht
    rw [TaskTable.kill, List.length_map]
    exact h.bound t ht
  · intro t phase ht hphase
    rw [TaskTable.kill, List.getElem?_map, Option.map_eq_some_iff] at ht
    obtain ⟨p, hp, rfl⟩ := ht
    exact h.registered t p hp fun hfinished => hphase (kill_eq_finished.mpr hfinished)

theorem stale_kill (T : TaskTable) : T.kill.Stale ↔ T.Stale := by
  simp only [Stale, getElem?_kill_finished]
  rfl

/-- Only a task that is not over moves, and none moves on into being over. -/
theorem move_some {loopStatus : Option LoopStatus} {phase : Phase} {e : TaskEvent} {m : Move}
    (h : phase.move loopStatus e = some m) : phase ≠ .finished ∧ m ≠ .becomes .finished := by
  revert h
  fun_cases Phase.move loopStatus phase e <;> grind

theorem move_eq_some {T : TaskTable} {loopStatus : Option LoopStatus} {t : Nat} {e : TaskEvent}
    {m : Move} (h : T.move loopStatus t e = some m) :
    (∃ phase, T.tasks[t]? = some phase ∧ phase ≠ .finished) ∧ m ≠ .becomes .finished := by
  unfold move at h
  split at h
  · rename_i phase ht
    exact ⟨⟨phase, ht, (move_some h).1⟩, (move_some h).2⟩
  · cases h

theorem Sole.step {T : TaskTable} (h : T.Sole) (loopStatus : Option LoopStatus) (t : Nat)
    (e : TaskEvent) : (T.step loopStatus t e).Sole := by
  unfold TaskTable.step
  cases hmove : T.move loopStatus t e with
  | none => exact h
  | some m =>
    obtain ⟨⟨phase, ht, hphase⟩, -⟩ := move_eq_some hmove
    cases m with
    | becomes q => exact h.setPhase ht hphase q
    | returns => exact h.setPhase ht hphase .finished
    | quits =>
      constructor
      · nofun
      · intro u p hu hp
        rw [act, getElem?_setPhase ht] at hu
        split at hu
        · exact absurd (Option.some.inj hu).symm hp
        · rename_i htu
          have := h.registered u p hu hp
          rw [h.registered t phase ht hphase] at this
          exact absurd (Option.some.inj this) htu

theorem stale_step {T : TaskTable} (h : T.Sole) (hfresh : ¬ T.Stale)
    (loopStatus : Option LoopStatus) (t : Nat) (e : TaskEvent) :
    (T.step loopStatus t e).Stale ↔ T.move loopStatus t e = some .returns := by
  unfold TaskTable.step
  cases hmove : T.move loopStatus t e with
  | none => exact iff_of_false hfresh nofun
  | some m =>
    obtain ⟨⟨phase, ht, hphase⟩, hm⟩ := move_eq_some hmove
    cases m with
    | becomes q =>
      rw [act, stale_setPhase h ht hphase]
      refine iff_of_false ?_ nofun
      rintro rfl
      exact hm rfl
    | returns => exact iff_of_true ((stale_setPhase h ht hphase _).mpr rfl) rfl
    | quits => exact iff_of_false (fun ⟨_, hentry, _⟩ => nomatch hentry) nofun

theorem not_live_of_stale {T : TaskTable} (h : T.Stale) : ¬ T.Live := by
  rintro ⟨u, phase, hu, hphase, hne⟩
  obtain ⟨t, ht, hfinished⟩ := h
  obtain rfl : t = u := Option.some.inj (ht.symm.trans hu)
  exact hne (Option.some.inj (hphase.symm.trans hfinished))

theorem step_of_stale {T : TaskTable} (h : T.Sole) (hstale : T.Stale)
    (loopStatus : Option LoopStatus) (t : Nat) (e : TaskEvent) : T.step loopStatus t e = T := by
  unfold TaskTable.step
  cases hmove : T.move loopStatus t e with
  | none => rfl
  | some m =>
    obtain ⟨⟨phase, ht, hphase⟩, -⟩ := move_eq_some hmove
    exact absurd ⟨t, phase, h.registered t phase ht hphase, ht, hphase⟩ (not_live_of_stale hstale)

theorem entry_step (T : TaskTable) (loopStatus : Option LoopStatus) (t : Nat) (e : TaskEvent) :
    (T.step loopStatus t e).entry =
      if T.move loopStatus t e = some .quits then none else T.entry := by
  unfold TaskTable.step
  cases T.move loopStatus t e with
  | none => rfl
  | some m => cases m <;> rfl

end TaskTable

end Eyot.Runtime
