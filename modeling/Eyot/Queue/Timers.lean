import Eyot.Queue.Accounts

/-! The two tasks that enqueue themselves again: the report of the day, and the check for instances
that are idle. -/

namespace Eyot.Queue

open MinQueue (popMin popMin_spec)

/-- The task whose handler runs. -/
def Phase.busy : Phase → Option Task
  | .executing t => some t
  | _ => none

namespace State

variable (s : State)

/-- What is enqueued and not begun. -/
def pending : List Task := s.queue ++ s.held

def busy : List Task := s.workers.filterMap Phase.busy

end State

/-! What a worker ends and begins with a move. -/

structure Begins (s : Shared) (phase : Phase) (s' : Shared) (phase' : Phase) : Prop where
  now : s'.now = s.now
  handlers : s'.handlers = s.handlers
  pending : (s'.queue ++ phase'.held.toList ++ phase'.busy.toList).Perm
    (s.queue ++ phase.held.toList)
  executed : ∃ waiting, s'.executed =
    s.executed ++ phase'.busy.toList.map fun t => ⟨t, s.now, waiting⟩
  timely : ∀ t ∈ phase'.busy, t.runAt ≤ s.now

namespace Shared

variable {s s' : Shared} {phase phase' : Phase} {t : Task} {waiting : List Task}

theorem begins_loopHead
    (hreg : ∀ t ∈ (s.putBack phase).queue, s.handlers.contains t.taskName = true) :
    Begins s phase (s.putBack phase).loopHead.1 (s.putBack phase).loopHead.2 := by
  have hstay : ((s.putBack phase).queue ++ [] ++ []).Perm (s.queue ++ phase.held.toList) := by
    rw [List.append_nil, List.append_nil]
    exact putBack_perm s phase
  have hrest {t rest} (hpop : popMin Task.order (s.putBack phase).queue = some (t, rest)) :
      (rest ++ [t]).Perm (s.queue ++ phase.held.toList) :=
    (List.perm_append_singleton _ _).trans ((popMin_spec hpop).1.symm.trans (putBack_perm s phase))
  obtain ⟨-, heq⟩ | ⟨-, -, heq⟩ | ⟨t, rest, -, hpop, ⟨hdue, heq⟩ | heq⟩ := loopHead_cases hreg
  · rw [heq]
    exact ⟨rfl, rfl, hstay, ⟨[], (List.append_nil _).symm⟩, nofun⟩
  · rw [heq]
    exact ⟨rfl, rfl, hstay, ⟨[], (List.append_nil _).symm⟩, nofun⟩
  · rw [heq]
    refine ⟨rfl, rfl, ?_, ⟨rest, rfl⟩, fun t' ht' => ?_⟩
    · change (rest ++ [] ++ [t]).Perm _
      rw [List.append_nil]
      exact hrest hpop
    · obtain rfl := Option.some.inj ht'
      exact hdue
  · rw [heq]
    refine ⟨rfl, rfl, ?_, ⟨[], (List.append_nil _).symm⟩, nofun⟩
    change (rest ++ [t] ++ []).Perm _
    rw [List.append_nil]
    exact hrest hpop

theorem begins_advance {move : Move}
    (hreg : ∀ t ∈ s.queue ++ phase.held.toList, s.handlers.contains t.taskName = true)
    (hallows : s.Allows phase) (h : s.advance phase move = some (s', phase')) :
    Begins s phase s' phase' := by
  have hround : (s.putBack phase).loopHead = (s', phase') → Begins s phase s' phase' := by
    intro heq
    have hbegins := begins_loopHead fun t ht => hreg t ((putBack_perm s phase).mem_iff.mp ht)
    rwa [heq] at hbegins
  unfold advance at h
  split at h
  · exact hround (Option.some.inj h)
  · exact hround (Option.some.inj h)
  · exact hround (Option.some.inj h)
  · split at h
    · cases h
      exact ⟨rfl, rfl, by simp [Phase.held, Phase.busy], ⟨[], (List.append_nil _).symm⟩, nofun⟩
    · cases h
  · next t waiting =>
    rw [execute_eq (hreg t (List.mem_append_right _ (List.mem_singleton_self _)))] at h
    cases h
    refine ⟨rfl, rfl, by simp [Phase.held, Phase.busy], ⟨waiting, rfl⟩, fun t' ht' => ?_⟩
    obtain rfl := Option.some.inj ht'
    exact hallows.1
  · cases h
    exact ⟨rfl, rfl, by simp [Phase.held, Phase.busy], ⟨[], (List.append_nil _).symm⟩, nofun⟩
  · exact hround (Option.some.inj h)
  · cases h

end Shared

/-- A move of one worker, in the state of all. -/
structure Turns (s s' : State) (done begun : Option Task) : Prop where
  now : s'.now = s.now
  handlers : s'.handlers = s.handlers
  pending : (s'.pending ++ begun.toList).Perm s.pending
  busy : (s'.busy ++ done.toList).Perm (s.busy ++ begun.toList)
  executed : ∃ waiting, s'.executed = s.executed ++ begun.toList.map fun t => ⟨t, s.now, waiting⟩
  timely : ∀ t ∈ begun, t.runAt ≤ s.now

namespace State

variable {s : State}

theorem busy_map_wake (workers : List Phase) :
    (workers.map Phase.wake).filterMap Phase.busy = workers.filterMap Phase.busy := by
  rw [List.filterMap_map]
  exact List.filterMap_congr fun phase _ => by cases phase <;> rfl

def busyAt (s : State) (w : Nat) : Option Task := s.workers[w]?.bind Phase.busy

theorem turns_worker (h : s.Inv) {w : Nat} {phase phase' : Phase} {shared : Shared} {move : Move}
    (hphase : s.workers[w]? = some phase)
    (hadvance : s.toShared.advance phase move = some (shared, phase')) :
    Turns s (s.worker w move) (s.busyAt w) ((s.worker w move).busyAt w) := by
  have hreg : ∀ t ∈ s.queue ++ phase.held.toList, s.handlers.contains t.taskName = true := by
    intro t ht
    refine h.registered t (h.mem_stock.mp (List.mem_append_left _ ?_))
    obtain ht | ht := List.mem_append.mp ht
    · exact List.mem_append_left _ ht
    · exact List.mem_append_right _ (Inv.mem_held hphase ht)
  have hbegins := Shared.begins_advance hreg
    (h.workers phase (List.mem_of_getElem? hphase)) hadvance
  have hworker : s.worker w move =
      { s with toShared := shared, workers := s.workers.set w phase' } := by
    rw [State.worker, hphase, Option.bind_some, hadvance]
  have hw : w < s.workers.length := (List.getElem?_eq_some_iff.mp hphase).1
  have hbegun : (s.worker w move).busyAt w = phase'.busy := by
    rw [hworker, busyAt, List.getElem?_set_self hw, Option.bind_some]
  have hdone : s.busyAt w = phase.busy := by
    rw [busyAt, hphase, Option.bind_some]
  rw [hbegun, hdone, hworker]
  refine ⟨hbegins.now, hbegins.handlers, ?_, filterMap_set_perm phase' hphase, hbegins.executed,
    hbegins.timely⟩
  have hone : (shared.queue ++ phase'.held.toList ++ phase'.busy.toList).Perm
      (s.queue ++ phase.held.toList ++ []) := by
    rw [List.append_nil]
    exact hbegins.pending
  have hpending := perm_exchange hone (filterMap_set_perm phase' hphase)
  rwa [List.append_nil] at hpending

end State

/-! The handlers that enqueue their task again, in the process that starts them. -/

def IDLE_CHECK : Str := "idle_check".toList

def DAILY_REPORT_SYNC : Str := "daily_report_sync".toList

def IsTimer (name : Str) : Prop := name = IDLE_CHECK ∨ name = DAILY_REPORT_SYNC

instance (name : Str) : Decidable (IsTimer name) := inferInstanceAs (Decidable (_ ∨ _))

def period (name : Str) : Int := if name = IDLE_CHECK then 30 else 86400

def Task.named (name : Str) (t : Task) : Bool := t.taskName = name

/-- How a handler gets through what it does with the database. -/
inductive Scan where
  | through (taskId : Id)
  | fails
  | cancelled

/-- The queue, with `_task_queue` and `_pending_daily_report`; `lapsed` keeps the names of the tasks
that were not enqueued again. -/
structure Timers where
  queue : State
  taskQueue : Bool
  pendingDailyReport : Option Id
  lapsed : List Str

namespace Timers

variable (t : Timers)

def empty : Timers := ⟨.empty, false, none, []⟩

/-- The handler of the report, when it begins, takes the flag down. -/
def work (w : Nat) (move : Move) : Timers :=
  match t.queue.workers[w]?.bind fun phase => t.queue.advance phase move with
  | none => t
  | some _ =>
    let queue := t.queue.worker w move
    { t with
      queue := queue
      pendingDailyReport :=
        if (queue.busyAt w).any (Task.named DAILY_REPORT_SYNC) then none
        else t.pendingDailyReport }

def enqueue (taskName : Str) (delay : Int) (payload : Option (Json Str)) (taskId : Id) : Timers :=
  { t with
    queue := t.queue.step (.enqueue taskName delay payload taskId)
    pendingDailyReport :=
      if taskName = DAILY_REPORT_SYNC then some taskId else t.pendingDailyReport }

def lapse (taskName : Str) : Timers := { t with lapsed := taskName :: t.lapsed }

/-- `idle_check_handler` comes to its end. -/
def idleCheckHandler (w : Nat) : Scan → Timers
  | .through taskId => (t.enqueue IDLE_CHECK 30 none taskId).work w (.finish .returns)
  | .fails => (t.lapse IDLE_CHECK).work w (.finish .raises)
  | .cancelled => (t.lapse IDLE_CHECK).work w (.finish .escapes)

/-- `_daily_report_handler` comes to its end; what it cannot do it logs. -/
def dailyReportHandler (w : Nat) : Scan → Timers
  | .through taskId =>
    if t.taskQueue then (t.enqueue DAILY_REPORT_SYNC 86400 none taskId).work w (.finish .returns)
    else (t.lapse DAILY_REPORT_SYNC).work w (.finish .returns)
  | .fails => (t.lapse DAILY_REPORT_SYNC).work w (.finish .returns)
  | .cancelled => (t.lapse DAILY_REPORT_SYNC).work w (.finish .escapes)

def register (taskName : Str) : Timers :=
  { t with queue := t.queue.step (.registerTask taskName) }

/-- With `false` where `register_task` raises. -/
def scheduleDailyReportSync (taskId : Id) : Timers × Bool :=
  if t.pendingDailyReport.isSome then (t, true)
  else
    let t := { t with taskQueue := true }
    if t.queue.handlers.contains DAILY_REPORT_SYNC then (t, false)
    else ((t.register DAILY_REPORT_SYNC).enqueue DAILY_REPORT_SYNC 0 none taskId, true)

/-- The check is registered, and enqueued once the supervisor has started. -/
def startIdleCheck (supervisorStarts : Bool) (taskId : Id) : Timers :=
  if t.queue.handlers.contains IDLE_CHECK then t
  else if supervisorStarts then (t.register IDLE_CHECK).enqueue IDLE_CHECK 0 none taskId
  else (t.register IDLE_CHECK).lapse IDLE_CHECK

inductive Input where
  | queue (i : Queue.Input)
  | startIdleCheck (supervisorStarts : Bool) (taskId : Id)
  | scheduleDailyReportSync (taskId : Id)
  | handler (w : Nat) (scan : Scan)

/-- What else runs in the process neither enqueues nor registers the two tasks, and ends no handler
of theirs. -/
def foreign : Queue.Input → Bool
  | .enqueue taskName .. | .registerTask taskName => !decide (IsTimer taskName)
  | .worker w (.finish _) => !(t.queue.busyAt w).any fun task => decide (IsTimer task.taskName)
  | _ => true

def step : Input → Timers
  | .queue (.worker w move) => if t.foreign (.worker w move) then t.work w move else t
  | .queue i => if t.foreign i then { t with queue := t.queue.step i } else t
  | .startIdleCheck supervisorStarts taskId => t.startIdleCheck supervisorStarts taskId
  | .scheduleDailyReportSync taskId => (t.scheduleDailyReportSync taskId).1
  | .handler w scan =>
    match t.queue.busyAt w with
    | none => t
    | some task =>
      if task.taskName = IDLE_CHECK then t.idleCheckHandler w scan
      else if task.taskName = DAILY_REPORT_SYNC then t.dailyReportHandler w scan
      else t

end Timers

/-! What holds of the two tasks all the way. -/

/-- Of one timer, the later run comes no sooner than its period. -/
def Spaced (e e' : Execution) : Prop :=
  IsTimer e'.task.taskName → e.task.taskName = e'.task.taskName →
    e.time + period e'.task.taskName ≤ e'.time

namespace Timers

/-- `ahead` says of what is pending what `spaced` will say of it when it runs. -/
structure Ready (t : Timers) : Prop where
  queue : t.queue.Inv
  single : ∀ name, IsTimer name → t.queue.pending.countP (Task.named name) ≤ 1
  flag : ((t.queue.pending.filter (Task.named DAILY_REPORT_SYNC)).map Task.taskId).Perm
    t.pendingDailyReport.toList
  past : ∀ e ∈ t.queue.executed, e.time ≤ t.queue.now
  ahead : ∀ e ∈ t.queue.executed, ∀ task ∈ t.queue.pending, IsTimer task.taskName →
    e.task.taskName = task.taskName → e.time + period task.taskName ≤ task.runAt
  spaced : t.queue.executed.Pairwise Spaced

/-- How often a task is about: pending, run by its handler, or given up. -/
def tally (t : Timers) (name : Str) : Nat :=
  t.queue.pending.countP (Task.named name) + t.queue.busy.countP (Task.named name) +
    t.lapsed.count name

structure Inv (t : Timers) : Prop extends Ready t where
  alone : ∀ name, IsTimer name →
    t.tally name = if t.queue.handlers.contains name then 1 else 0
  taskQueue : t.queue.handlers.contains DAILY_REPORT_SYNC = true → t.taskQueue = true

variable {t : Timers}

/-- A move that is possible, and one that is passed over. -/
theorem work_cases (h : t.queue.Inv) (w : Nat) (move : Move) :
    t.work w move = t ∨
      Turns t.queue (t.work w move).queue (t.queue.busyAt w) ((t.work w move).queue.busyAt w) ∧
      (t.work w move).pendingDailyReport =
        if ((t.work w move).queue.busyAt w).any (Task.named DAILY_REPORT_SYNC) then none
        else t.pendingDailyReport := by
  cases hmoved : t.queue.workers[w]?.bind fun phase => t.queue.advance phase move with
  | none =>
    left
    rw [work, hmoved]
  | some out =>
    obtain ⟨phase, hphase, hadvance⟩ := Option.bind_eq_some_iff.mp hmoved
    right
    rw [work, hmoved]
    exact ⟨State.turns_worker h hphase hadvance, rfl⟩

theorem countP_pending {s s' : State} {done begun : Option Task} (h : Turns s s' done begun)
    (p : Task → Bool) : s'.pending.countP p + begun.toList.countP p = s.pending.countP p := by
  rw [← List.countP_append, h.pending.countP_eq]

theorem countP_busy {s s' : State} {done begun : Option Task} (h : Turns s s' done begun)
    (p : Task → Bool) :
    s'.busy.countP p + done.toList.countP p = s.busy.countP p + begun.toList.countP p := by
  rw [← List.countP_append, ← List.countP_append, h.busy.countP_eq]

theorem ready_work (h : t.Ready) (w : Nat) (move : Move) : (t.work w move).Ready := by
  obtain heq | ⟨hturns, hflag⟩ := work_cases h.queue w move
  · rwa [heq]
  · have hqueue : (t.work w move).queue.Inv := by
      rw [work]
      split
      · exact h.queue
      · exact h.queue.worker w move
    generalize hbegun : (t.work w move).queue.busyAt w = begun at hturns hflag
    have hfew : ∀ task ∈ (t.work w move).queue.pending, task ∈ t.queue.pending :=
      fun task htask => hturns.pending.subset (List.mem_append_left _ htask)
    -- of the timer that begins there is nothing left that is pending
    have hlast : ∀ task ∈ begun, IsTimer task.taskName →
        ∀ task' ∈ (t.work w move).queue.pending, task'.taskName ≠ task.taskName := by
      intro task htask htimer task' htask' hname
      have hcount := countP_pending hturns (Task.named task.taskName)
      have hsingle := h.single _ htimer
      have hbegin : begun.toList.countP (Task.named task.taskName) = 1 := by
        rw [Option.mem_def.mp htask]
        simp [Task.named]
      have hmore : 0 < (t.work w move).queue.pending.countP (Task.named task.taskName) :=
        List.countP_pos_iff.mpr ⟨task', htask', decide_eq_true hname⟩
      omega
    obtain ⟨waiting, hexecuted⟩ := hturns.executed
    refine ⟨hqueue, ?_, ?_, ?_, ?_, ?_⟩
    · intro name htimer
      have hcount := countP_pending hturns (Task.named name)
      have hsingle := h.single name htimer
      omega
    · rw [hflag]
      cases hdaily : begun.any (Task.named DAILY_REPORT_SYNC) with
      | true =>
        obtain ⟨task, htask, hname⟩ := (Option.any_eq_true _ _).mp hdaily
        have hnone : (t.work w move).queue.pending.filter (Task.named DAILY_REPORT_SYNC) = [] := by
          apply List.filter_eq_nil_iff.mpr
          intro task' htask' hname'
          have hsame : task.taskName = DAILY_REPORT_SYNC := of_decide_eq_true hname
          refine hlast task htask (.inr hsame) task' htask' ?_
          exact (of_decide_eq_true hname').trans hsame.symm
        rw [hnone]
        exact .nil
      | false =>
        have hnone : begun.toList.filter (Task.named DAILY_REPORT_SYNC) = [] := by
          apply List.filter_eq_nil_iff.mpr
          intro task htask hname
          rw [Option.mem_toList.mp htask, Option.any_some] at hdaily
          exact absurd (hname.symm.trans hdaily) Bool.noConfusion
        have hperm := hturns.pending.filter (Task.named DAILY_REPORT_SYNC)
        rw [List.filter_append, hnone, List.append_nil] at hperm
        exact (hperm.map Task.taskId).trans h.flag
    · rw [hexecuted, hturns.now]
      intro e he
      obtain he | he := List.mem_append.mp he
      · exact h.past e he
      · obtain ⟨task, -, rfl⟩ := List.mem_map.mp he
        exact le_rfl
    · rw [hexecuted]
      intro e he task htask htimer hname
      obtain he | he := List.mem_append.mp he
      · exact h.ahead e he task (hfew task htask) htimer hname
      · obtain ⟨first, hfirst, rfl⟩ := List.mem_map.mp he
        have hne := hlast first (Option.mem_toList.mp hfirst) (hname ▸ htimer) task htask
        exact absurd hname.symm hne
    · rw [hexecuted]
      refine List.pairwise_append.mpr ⟨h.spaced, ?_, ?_⟩
      · cases begun with
        | none => exact .nil
        | some task => exact List.pairwise_singleton _ _
      · intro e he e' he' htimer hname
        obtain ⟨task, htask, rfl⟩ := List.mem_map.mp he'
        have hpending : task ∈ t.queue.pending :=
          hturns.pending.subset (List.mem_append_right _ htask)
        exact (h.ahead e he task hpending htimer hname).trans
          (hturns.timely task (Option.mem_toList.mp htask))

theorem tally_of_turns {u : Timers} {done begun : Option Task}
    (h : Turns t.queue u.queue done begun) (hlapsed : u.lapsed = t.lapsed) (name : Str) :
    u.tally name + done.toList.countP (Task.named name) = t.tally name := by
  have hpending := countP_pending h (Task.named name)
  have hbusy := countP_busy h (Task.named name)
  rw [tally, tally, hlapsed]
  omega

theorem lapsed_work (t : Timers) (w : Nat) (move : Move) : (t.work w move).lapsed = t.lapsed := by
  rw [work]
  split <;> rfl

theorem taskQueue_work (t : Timers) (w : Nat) (move : Move) :
    (t.work w move).taskQueue = t.taskQueue := by
  rw [work]
  split <;> rfl

theorem handlers_work (h : t.queue.Inv) (w : Nat) (move : Move) :
    (t.work w move).queue.handlers = t.queue.handlers := by
  obtain heq | ⟨hturns, -⟩ := work_cases h w move
  · rw [heq]
  · exact hturns.handlers

/-- A handler that ends is taken off the account of its task. -/
theorem tally_finish (h : t.queue.Inv) {w : Nat} {task : Task}
    (hbusy : t.queue.busyAt w = some task) (outcome : Outcome) (name : Str) :
    (t.work w (.finish outcome)).tally name + [task].countP (Task.named name) = t.tally name := by
  obtain ⟨phase, hphase, hrun⟩ := Option.bind_eq_some_iff.mp hbusy
  have hmoved : ∃ out, t.queue.advance phase (.finish outcome) = some out := by
    cases phase with
    | executing _ =>
      cases outcome with
      | returns => exact ⟨_, rfl⟩
      | raises => exact ⟨_, rfl⟩
      | escapes => exact ⟨_, rfl⟩
    | _ => cases hrun
  obtain ⟨⟨shared, phase'⟩, hadvance⟩ := hmoved
  have hwork : (t.work w (.finish outcome)).queue = t.queue.worker w (.finish outcome) := by
    rw [work, hphase, Option.bind_some, hadvance]
  have hturns := State.turns_worker h hphase hadvance
  rw [← hwork, hbusy] at hturns
  exact tally_of_turns hturns (lapsed_work t w _) name

theorem work_executing {w : Nat} {task : Task} (hbusy : t.queue.busyAt w = some task) (move : Move)
    (hmove : ∀ outcome, move ≠ .finish outcome) : t.work w move = t := by
  obtain ⟨phase, hphase, hrun⟩ := Option.bind_eq_some_iff.mp hbusy
  have hstays : t.queue.advance phase move = none := by
    cases phase with
    | executing _ =>
      cases move with
      | finish outcome => exact absurd rfl (hmove outcome)
      | run => rfl
      | deadline => rfl
    | _ => cases hrun
  rw [work, hphase, Option.bind_some, hstays]

/-- Another move leaves the accounts of the timers as they are. -/
theorem tally_work (h : t.queue.Inv) {w : Nat} {move : Move}
    (hforeign : t.foreign (.worker w move) = true) {name : Str} (htimer : IsTimer name) :
    (t.work w move).tally name = t.tally name := by
  cases hbusy : t.queue.busyAt w with
  | none =>
    obtain heq | ⟨hturns, -⟩ := work_cases h w move
    · rw [heq]
    · rw [hbusy] at hturns
      exact tally_of_turns hturns (lapsed_work t w move) name
  | some task =>
    cases move with
    | run => rw [work_executing hbusy .run nofun]
    | deadline => rw [work_executing hbusy .deadline nofun]
    | finish outcome =>
      have hother : task.taskName ≠ name := by
        rintro rfl
        rw [foreign, hbusy, Option.any_some, decide_eq_true htimer] at hforeign
        cases hforeign
      have htally := tally_finish h hbusy outcome name
      rwa [List.countP_singleton, if_neg (by simpa [Task.named] using hother)] at htally

/-! What is done to the queue from outside. -/

theorem ready_of_same (h : t.Ready) {u : Timers} (hqueue : u.queue.Inv)
    (hpending : u.queue.pending = t.queue.pending) (hexecuted : u.queue.executed = t.queue.executed)
    (hnow : t.queue.now ≤ u.queue.now) (hflag : u.pendingDailyReport = t.pendingDailyReport) :
    u.Ready where
  queue := hqueue
  single := by
    rw [hpending]
    exact h.single
  flag := by
    rw [hpending, hflag]
    exact h.flag
  past := by
    rw [hexecuted]
    exact fun e he => (h.past e he).trans hnow
  ahead := by
    rw [hexecuted, hpending]
    exact h.ahead
  spaced := by
    rw [hexecuted]
    exact h.spaced

theorem pending_enqueue (s : State) (task : Task) :
    (s.enqueue task).pending = task :: s.pending := by
  rw [State.pending, State.pending, State.held, State.enqueue, State.held_map_wake]
  rfl

theorem busy_enqueue (s : State) (task : Task) : (s.enqueue task).busy = s.busy := by
  rw [State.busy, State.enqueue, State.busy_map_wake]
  rfl

theorem ready_enqueue (h : t.Ready) {taskName : Str} {delay : Int} (payload : Option (Json Str))
    (taskId : Id)
    (hreg : t.queue.handlers.contains taskName = true)
    (hnone : IsTimer taskName → t.queue.pending.countP (Task.named taskName) = 0)
    (hdelay : IsTimer taskName → ∀ e ∈ t.queue.executed, e.task.taskName = taskName →
      e.time + period taskName ≤ t.queue.now + delay) :
    (t.enqueue taskName delay payload taskId).Ready := by
  have hqueue : (t.enqueue taskName delay payload taskId).queue =
      t.queue.enqueue (t.queue.newTask taskName delay payload taskId) := if_pos hreg
  have hinv : (t.enqueue taskName delay payload taskId).queue.Inv :=
    h.queue.enqueue taskName delay payload taskId
  have hnamed (name : Str) : Task.named name (t.queue.newTask taskName delay payload taskId) =
      decide (taskName = name) := rfl
  refine ⟨hinv, ?_, ?_, ?_, ?_, ?_⟩
  · intro name htimer
    rw [hqueue, pending_enqueue, List.countP_cons]
    split
    · next hname =>
      obtain rfl : taskName = name := of_decide_eq_true hname
      rw [hnone htimer]
    · exact h.single name htimer
  · rw [hqueue, pending_enqueue, List.filter_cons, hnamed]
    by_cases hdaily : taskName = DAILY_REPORT_SYNC
    · have hnil : t.queue.pending.filter (Task.named DAILY_REPORT_SYNC) = [] := by
        rw [← hdaily, ← List.length_eq_zero_iff, ← List.countP_eq_length_filter]
        exact hnone (.inr hdaily)
      rw [if_pos (decide_eq_true hdaily), hnil, enqueue, if_pos hdaily]
      exact .refl _
    · rw [if_neg (by simpa using hdaily), enqueue, if_neg hdaily]
      exact h.flag
  · rw [hqueue]
    exact h.past
  · rw [hqueue, pending_enqueue]
    intro e he task htask htimer hname
    obtain rfl | htask := List.mem_cons.mp htask
    · exact hdelay htimer e he hname
    · exact h.ahead e he task htask htimer hname
  · rw [hqueue]
    exact h.spaced

theorem tally_enqueue {taskName : Str} (delay : Int) (payload : Option (Json Str))
    (taskId : Id)
    (hreg : t.queue.handlers.contains taskName = true) (name : Str) :
    (t.enqueue taskName delay payload taskId).tally name =
      t.tally name + if taskName = name then 1 else 0 := by
  have hqueue : (t.enqueue taskName delay payload taskId).queue =
      t.queue.enqueue (t.queue.newTask taskName delay payload taskId) := if_pos hreg
  have hnamed : Task.named name (t.queue.newTask taskName delay payload taskId) =
      decide (taskName = name) := rfl
  rw [tally, tally, hqueue, pending_enqueue, busy_enqueue, List.countP_cons, hnamed]
  simp only [decide_eq_true_eq]
  have hlapsed : (t.enqueue taskName delay payload taskId).lapsed = t.lapsed := rfl
  rw [hlapsed]
  omega

theorem tally_lapse (taskName name : Str) :
    (t.lapse taskName).tally name = t.tally name + if taskName = name then 1 else 0 := by
  rw [tally, tally, lapse, List.count_cons]
  simp only [beq_iff_eq]
  omega

theorem inv_of_same (h : t.Inv) {q : State} (hqueue : q.Inv)
    (hpending : q.pending = t.queue.pending) (hbusy : q.busy = t.queue.busy)
    (hexecuted : q.executed = t.queue.executed) (hnow : t.queue.now ≤ q.now)
    (hhandlers : ∀ name, IsTimer name → q.handlers.contains name = t.queue.handlers.contains name) :
    Inv { t with queue := q } where
  toReady := ready_of_same h.toReady hqueue hpending hexecuted hnow rfl
  alone name htimer := by
    rw [hhandlers name htimer, ← h.alone name htimer, tally, tally, hpending, hbusy]
  taskQueue hreg := h.taskQueue ((hhandlers _ (.inr rfl)).symm.trans hreg)

theorem step_enqueue_handlers (s : State) (taskName : Str) (delay : Int)
    (payload : Option (Json Str)) (taskId : Id) :
    (s.step (.enqueue taskName delay payload taskId)).handlers = s.handlers := by
  rw [State.step]
  split <;> rfl

theorem inv_foreign_enqueue (h : t.Inv) {taskName : Str} (hother : ¬IsTimer taskName) (delay : Int)
    (payload : Option (Json Str)) (taskId : Id) :
    Inv { t with queue := t.queue.step (.enqueue taskName delay payload taskId) } := by
  by_cases hreg : t.queue.handlers.contains taskName = true
  · have heq : t.enqueue taskName delay payload taskId =
        { t with queue := t.queue.step (.enqueue taskName delay payload taskId) } := by
      rw [enqueue, if_neg fun hdaily => hother (.inr hdaily)]
    rw [← heq]
    refine ⟨ready_enqueue h.toReady payload taskId hreg (absurd · hother) (absurd · hother), ?_, ?_⟩
    · intro name htimer
      have hne : taskName ≠ name := fun hname => hother (hname ▸ htimer)
      rw [tally_enqueue delay payload taskId hreg, if_neg hne, Nat.add_zero, h.alone name htimer,
        enqueue, step_enqueue_handlers]
    · rw [enqueue, step_enqueue_handlers]
      exact h.taskQueue
  · have heq : t.queue.step (.enqueue taskName delay payload taskId) = t.queue := if_neg hreg
    rw [heq]
    exact h

theorem inv_foreign (h : t.Inv) {i : Queue.Input} (hforeign : t.foreign i = true)
    (hi : ∀ w move, i ≠ .worker w move) : Inv { t with queue := t.queue.step i } := by
  have hqueue : (t.queue.step i).Inv := h.queue.step i
  cases i with
  | tick elapsed =>
    exact inv_of_same h hqueue rfl rfl rfl (Int.le_add_of_nonneg_right (Int.natCast_nonneg elapsed))
      fun _ _ => rfl
  | registerTask taskName =>
    have hother : ¬IsTimer taskName := by simpa [foreign] using hforeign
    revert hqueue
    rw [State.step]
    split
    · exact fun _ => h
    · intro hqueue
      refine inv_of_same h hqueue rfl rfl rfl le_rfl fun name htimer => ?_
      have hne : name ≠ taskName := fun hname => hother (hname ▸ htimer)
      simp [hne]
  | enqueue taskName delay payload taskId =>
    exact inv_foreign_enqueue h (by simpa [foreign] using hforeign) delay payload taskId
  | start =>
    revert hqueue
    rw [State.step]
    split
    · exact fun _ => h
    · intro hqueue
      refine inv_of_same h hqueue ?_ ?_ rfl le_rfl fun _ _ => rfl
      · rw [State.pending, State.held, List.filterMap_append]
        exact congrArg _ (List.append_nil _)
      · rw [State.busy, List.filterMap_append]
        exact List.append_nil _
  | stop =>
    refine inv_of_same h hqueue ?_ ?_ rfl le_rfl fun _ _ => rfl
    · rw [State.pending, State.held, State.step, State.held_map_wake]
      rfl
    · rw [State.busy, State.step, State.busy_map_wake]
      rfl
  | stopReturns k =>
    revert hqueue
    rw [State.step, State.stopReturns]
    split
    · exact fun hqueue => inv_of_same h hqueue rfl rfl rfl le_rfl fun _ _ => rfl
    · exact fun hqueue => inv_of_same h hqueue rfl rfl rfl le_rfl fun _ _ => rfl
    · exact fun _ => h
  | worker w move => exact absurd rfl (hi w move)

/-! What the two handlers do. -/

theorem inv_work (h : t.Inv) {w : Nat} {move : Move}
    (hforeign : t.foreign (.worker w move) = true) : (t.work w move).Inv where
  toReady := ready_work h.toReady w move
  alone name htimer := by
    rw [tally_work h.queue hforeign htimer, handlers_work h.queue, h.alone name htimer]
  taskQueue hreg := by
    rw [taskQueue_work]
    rw [handlers_work h.queue] at hreg
    exact h.taskQueue hreg

theorem countP_busy_pos {w : Nat} {task : Task} (hbusy : t.queue.busyAt w = some task) :
    0 < t.queue.busy.countP (Task.named task.taskName) := by
  obtain ⟨phase, hphase, hrun⟩ := Option.bind_eq_some_iff.mp hbusy
  have hmem : task ∈ t.queue.busy :=
    List.mem_filterMap.mpr ⟨phase, List.mem_of_getElem? hphase, hrun⟩
  exact List.countP_pos_iff.mpr ⟨task, hmem, decide_eq_true rfl⟩

/-- While its handler runs, a timer is registered and not pending. -/
theorem running (h : t.Inv) {w : Nat} {task : Task} (hbusy : t.queue.busyAt w = some task)
    (htimer : IsTimer task.taskName) :
    t.queue.handlers.contains task.taskName = true ∧
      t.queue.pending.countP (Task.named task.taskName) = 0 := by
  have hcount := countP_busy_pos hbusy
  have halone := h.alone task.taskName htimer
  rw [tally] at halone
  cases hreg : t.queue.handlers.contains task.taskName with
  | false =>
    rw [hreg, if_neg Bool.false_ne_true] at halone
    omega
  | true =>
    rw [hreg, if_pos rfl] at halone
    exact ⟨rfl, by omega⟩

theorem busyAt_enqueue (s : State) (task : Task) (w : Nat) :
    (s.enqueue task).busyAt w = s.busyAt w := by
  rw [State.busyAt, State.busyAt, State.enqueue, List.getElem?_map, Option.bind_map]
  congr 1
  funext phase
  cases phase <;> rfl

/-- What a handler has put on the account of its task before it ends is taken off with it. -/
theorem inv_finish (h : t.Inv) {u : Timers} (hready : u.Ready) {w : Nat} {task : Task}
    (hbusy : u.queue.busyAt w = some task) (hhandlers : u.queue.handlers = t.queue.handlers)
    (htaskQueue : u.taskQueue = t.taskQueue)
    (htally : ∀ name, u.tally name = t.tally name + if task.taskName = name then 1 else 0)
    (outcome : Outcome) : (u.work w (.finish outcome)).Inv where
  toReady := ready_work hready w _
  alone name htimer := by
    have hfinish := tally_finish hready.queue hbusy outcome name
    have hcount : [task].countP (Task.named name) = if task.taskName = name then 1 else 0 := by
      simp [List.countP_singleton, Task.named]
    rw [handlers_work hready.queue, hhandlers, ← h.alone name htimer]
    rw [htally, hcount] at hfinish
    omega
  taskQueue hreg := by
    rw [handlers_work hready.queue, hhandlers] at hreg
    rw [taskQueue_work, htaskQueue]
    exact h.taskQueue hreg

theorem inv_through (h : t.Inv) {w : Nat} {task : Task} (hbusy : t.queue.busyAt w = some task)
    (htimer : IsTimer task.taskName) (taskId : Id) (outcome : Outcome) :
    ((t.enqueue task.taskName (period task.taskName) none taskId).work w
      (.finish outcome)).Inv := by
  obtain ⟨hreg, hnone⟩ := running h hbusy htimer
  have hready : (t.enqueue task.taskName (period task.taskName) none taskId).Ready :=
    ready_enqueue h.toReady none taskId hreg (fun _ => hnone)
      fun _ e he _ => Int.add_le_add_right (h.past e he) _
  have hqueue : (t.enqueue task.taskName (period task.taskName) none taskId).queue =
      t.queue.enqueue (t.queue.newTask task.taskName (period task.taskName) none taskId) :=
    if_pos hreg
  apply inv_finish h hready _ (step_enqueue_handlers ..) rfl (tally_enqueue _ none taskId hreg)
  rw [hqueue, busyAt_enqueue, hbusy]

theorem inv_lapse (h : t.Inv) {w : Nat} {task : Task} (hbusy : t.queue.busyAt w = some task)
    (outcome : Outcome) : ((t.lapse task.taskName).work w (.finish outcome)).Inv := by
  have hready : (t.lapse task.taskName).Ready :=
    ready_of_same h.toReady h.queue rfl rfl le_rfl rfl
  exact inv_finish h hready hbusy rfl rfl (tally_lapse task.taskName) outcome

/-- Before it ends, a handler enqueues its task again or lets it lapse. -/
theorem handler_cases (t : Timers) (w : Nat) (scan : Scan) : t.step (.handler w scan) = t ∨
    ∃ task u outcome, t.queue.busyAt w = some task ∧ IsTimer task.taskName ∧
      t.step (.handler w scan) = u.work w (.finish outcome) ∧
      (u = t.lapse task.taskName ∨
        ∃ taskId, u = t.enqueue task.taskName (period task.taskName) none taskId) := by
  rw [step]
  cases hbusy : t.queue.busyAt w with
  | none => exact .inl rfl
  | some task =>
    dsimp only
    split
    · next hname =>
      refine .inr ⟨task, ?_⟩
      rw [hname]
      cases scan with
      | through taskId => exact ⟨_, _, rfl, .inl rfl, rfl, .inr ⟨taskId, rfl⟩⟩
      | fails => exact ⟨_, _, rfl, .inl rfl, rfl, .inl rfl⟩
      | cancelled => exact ⟨_, _, rfl, .inl rfl, rfl, .inl rfl⟩
    · split
      · next hname =>
        refine .inr ⟨task, ?_⟩
        rw [hname]
        cases scan with
        | through taskId =>
          rw [dailyReportHandler]
          split
          · exact ⟨_, _, rfl, .inr rfl, rfl, .inr ⟨taskId, rfl⟩⟩
          · exact ⟨_, _, rfl, .inr rfl, rfl, .inl rfl⟩
        | fails => exact ⟨_, _, rfl, .inr rfl, rfl, .inl rfl⟩
        | cancelled => exact ⟨_, _, rfl, .inr rfl, rfl, .inl rfl⟩
      · exact .inl rfl

theorem inv_handler (h : t.Inv) (w : Nat) (scan : Scan) : (t.step (.handler w scan)).Inv := by
  obtain heq | ⟨task, u, outcome, hbusy, htimer, heq, rfl | ⟨taskId, rfl⟩⟩ := handler_cases t w scan
  · rwa [heq]
  · rw [heq]
    exact inv_lapse h hbusy outcome
  · rw [heq]
    exact inv_through h hbusy htimer taskId outcome

/-! The start of the process. -/

section Start

variable {taskName : Str}

theorem register_queue (hnew : t.queue.handlers.contains taskName = false) :
    (t.register taskName).queue =
      { t.queue with handlers := t.queue.handlers ++ [taskName] } :=
  if_neg (by rw [hnew]; exact Bool.false_ne_true)

theorem ready_register (h : t.Ready) (hnew : t.queue.handlers.contains taskName = false) :
    (t.register taskName).Ready := by
  have hqueue : (t.register taskName).queue.Inv := h.queue.registerTask taskName
  refine ready_of_same h hqueue ?_ ?_ ?_ rfl
  · rw [register_queue hnew]
    rfl
  · rw [register_queue hnew]
  · rw [register_queue hnew]

theorem tally_register (hnew : t.queue.handlers.contains taskName = false) (name : Str) :
    (t.register taskName).tally name = t.tally name := by
  rw [tally, tally, register_queue hnew]
  rfl

theorem not_executed (h : t.queue.Inv) (hnew : t.queue.handlers.contains taskName = false) :
    ∀ e ∈ t.queue.executed, e.task.taskName ≠ taskName := by
  rintro e he rfl
  have hran : e.task ∈ t.queue.stock :=
    List.mem_append_right _ (List.mem_map.mpr ⟨e, he, rfl⟩)
  exact absurd (hnew.symm.trans (h.registered _ (h.mem_stock.mp hran))) Bool.noConfusion

theorem tally_new (h : t.Inv) (htimer : IsTimer taskName)
    (hnew : t.queue.handlers.contains taskName = false) : t.tally taskName = 0 := by
  rw [h.alone taskName htimer, hnew, if_neg Bool.false_ne_true]

/-- A timer is about from when it is registered. -/
theorem inv_new (h : t.Inv) (hnew : t.queue.handlers.contains taskName = false)
    {u : Timers} (hready : u.Ready)
    (hhandlers : u.queue.handlers = t.queue.handlers ++ [taskName])
    (htally : ∀ name, u.tally name = t.tally name + if taskName = name then 1 else 0)
    (htaskQueue : u.taskQueue = true ∨ taskName = IDLE_CHECK ∧ u.taskQueue = t.taskQueue) :
    u.Inv where
  toReady := hready
  alone name htimer := by
    rw [htally, hhandlers]
    by_cases hname : taskName = name
    · subst hname
      rw [tally_new h htimer hnew]
      simp
    · rw [if_neg hname, Nat.add_zero, h.alone name htimer]
      simp [Ne.symm hname]
  taskQueue hreg := by
    obtain htaskQueue | ⟨rfl, htaskQueue⟩ := htaskQueue
    · exact htaskQueue
    · rw [htaskQueue]
      apply h.taskQueue
      have hne : DAILY_REPORT_SYNC ≠ IDLE_CHECK := by decide
      rw [hhandlers] at hreg
      simpa [hne] using hreg

theorem inv_enqueue_new (h : t.Inv) (htimer : IsTimer taskName)
    (hnew : t.queue.handlers.contains taskName = false)
    (htaskQueue : t.taskQueue = true ∨ taskName = IDLE_CHECK) (taskId : Id) :
    ((t.register taskName).enqueue taskName 0 none taskId).Inv := by
  have hreg : (t.register taskName).queue.handlers.contains taskName = true := by
    rw [register_queue hnew]
    simp
  have hnone : (t.register taskName).queue.pending.countP (Task.named taskName) = 0 := by
    have htally := tally_new h htimer hnew
    rw [← tally_register hnew, tally] at htally
    omega
  have hexecuted : (t.register taskName).queue.executed = t.queue.executed := by
    rw [register_queue hnew]
  have hready : ((t.register taskName).enqueue taskName 0 none taskId).Ready := by
    refine ready_enqueue (ready_register h.toReady hnew) none taskId hreg (fun _ => hnone) ?_
    intro _ e he hname
    rw [hexecuted] at he
    exact absurd hname (not_executed h.queue hnew e he)
  refine inv_new h hnew hready ?_ ?_ ?_
  · rw [enqueue, step_enqueue_handlers, register_queue hnew]
  · intro name
    rw [tally_enqueue 0 none taskId hreg, tally_register hnew]
  · exact htaskQueue.imp_right fun hidle => ⟨hidle, rfl⟩

theorem inv_startIdleCheck (h : t.Inv) (supervisorStarts : Bool) (taskId : Id) :
    (t.startIdleCheck supervisorStarts taskId).Inv := by
  rw [startIdleCheck]
  split
  · exact h
  · next hnew =>
    have hnew := Bool.eq_false_iff.mpr hnew
    split
    · exact inv_enqueue_new h (.inl rfl) hnew (.inr rfl) taskId
    · have hready : ((t.register IDLE_CHECK).lapse IDLE_CHECK).Ready := by
        have hregistered := ready_register h.toReady hnew
        exact ready_of_same hregistered hregistered.queue rfl rfl le_rfl rfl
      refine inv_new h hnew hready ?_ ?_ (.inr ⟨rfl, rfl⟩)
      · rw [lapse, register_queue hnew]
      · intro name
        rw [tally_lapse, tally_register hnew]

theorem inv_scheduleDailyReportSync (h : t.Inv) (taskId : Id) :
    (t.scheduleDailyReportSync taskId).1.Inv := by
  rw [scheduleDailyReportSync]
  split
  · exact h
  · have hset : Inv { t with taskQueue := true } :=
      { h with taskQueue := fun _ => rfl }
    dsimp only
    split
    · exact hset
    · next hnew =>
      exact inv_enqueue_new hset (.inr rfl) (Bool.eq_false_iff.mpr hnew) (.inl rfl) taskId

end Start

theorem step_queue {i : Queue.Input} (hi : ∀ w move, i ≠ .worker w move) :
    t.step (.queue i) = if t.foreign i then { t with queue := t.queue.step i } else t := by
  cases i with
  | worker w move => exact absurd rfl (hi w move)
  | _ => rfl

theorem queue_cases (t : Timers) (i : Queue.Input) : t.step (.queue i) = t ∨
    t.foreign i = true ∧
      ((∃ w move, i = .worker w move ∧ t.step (.queue i) = t.work w move) ∨
        (∀ w move, i ≠ .worker w move) ∧
          t.step (.queue i) = { t with queue := t.queue.step i }) := by
  by_cases hi : ∀ w move, i ≠ .worker w move
  · rw [step_queue hi]
    split
    · next hforeign => exact .inr ⟨hforeign, .inr ⟨hi, rfl⟩⟩
    · exact .inl rfl
  · push Not at hi
    obtain ⟨w, move, rfl⟩ := hi
    rw [step]
    split
    · next hforeign => exact .inr ⟨hforeign, .inl ⟨w, move, rfl, rfl⟩⟩
    · exact .inl rfl

theorem inv_step (h : t.Inv) (i : Input) : (t.step i).Inv := by
  cases i with
  | queue i =>
    obtain heq | ⟨hforeign, ⟨w, move, rfl, heq⟩ | ⟨hi, heq⟩⟩ := queue_cases t i
    · rwa [heq]
    · rw [heq]
      exact inv_work h hforeign
    · rw [heq]
      exact inv_foreign h hforeign hi
  | startIdleCheck supervisorStarts taskId => exact inv_startIdleCheck h supervisorStarts taskId
  | scheduleDailyReportSync taskId => exact inv_scheduleDailyReportSync h taskId
  | handler w scan => exact inv_handler h w scan

theorem inv_empty : empty.Inv where
  queue := State.Inv.empty
  single _ _ := Nat.zero_le 1
  flag := .nil
  past := nofun
  ahead := nofun
  spaced := .nil
  alone _ _ := rfl
  taskQueue := nofun

theorem always_inv (is : List Input) : Run.Always step Inv empty is :=
  Run.always_of_step (q := Inv) (fun _ i h => inv_step h i) inv_empty is

/-- From when it is registered until its handler first fails to enqueue it again, each of the two
tasks is about once, whatever else is enqueued, started and stopped; from then on it is gone. -/
theorem always_alone (is : List Input) :
    Run.Always step (fun t => ∀ name, IsTimer name →
      (t.queue.pending.filter (Task.named name) ++ t.queue.busy.filter (Task.named name)).length =
        if t.queue.handlers.contains name ∧ name ∉ t.lapsed then 1 else 0) empty is := by
  apply (always_inv is).imp
  intro t h name htimer
  have halone := h.alone name htimer
  rw [tally, List.countP_eq_length_filter, List.countP_eq_length_filter] at halone
  rw [List.length_append]
  by_cases hlapsed : name ∈ t.lapsed
  · have hcount := List.count_pos_iff.mpr hlapsed
    rw [if_neg fun hand => hand.2 hlapsed]
    split at halone <;> omega
  · rw [List.count_eq_zero_of_not_mem hlapsed, Nat.add_zero] at halone
    rw [halone]
    simp [hlapsed]

/-- Two runs of one of the tasks are a period apart, however late the worker is. -/
theorem always_spaced (is : List Input) :
    Run.Always step (fun t => t.queue.executed.Pairwise Spaced) empty is :=
  (always_inv is).imp fun _ h => h.spaced

theorem flag_eq (h : t.Inv) : t.pendingDailyReport.toList =
    (t.queue.pending.filter (Task.named DAILY_REPORT_SYNC)).map Task.taskId := by
  have hflag := h.flag
  cases hpending : t.pendingDailyReport with
  | none =>
    rw [hpending] at hflag
    exact (List.perm_nil.mp hflag).symm
  | some taskId =>
    rw [hpending] at hflag
    exact (List.perm_singleton.mp hflag).symm

theorem isSome_flag_iff (h : t.Inv) : t.pendingDailyReport.isSome ↔
    t.queue.pending.countP (Task.named DAILY_REPORT_SYNC) ≠ 0 := by
  have hlength := congrArg List.length (flag_eq h)
  rw [List.length_map, ← List.countP_eq_length_filter] at hlength
  rw [← hlength]
  cases t.pendingDailyReport <;> simp

theorem refused_iff (t : Timers) (taskId : Id) : (t.scheduleDailyReportSync taskId).2 = false ↔
    ¬t.pendingDailyReport.isSome ∧ t.queue.handlers.contains DAILY_REPORT_SYNC = true := by
  rw [scheduleDailyReportSync]
  split
  · next hpending => simp [hpending]
  · next hpending =>
    dsimp only
    split
    · next hreg => exact iff_of_true rfl ⟨hpending, hreg⟩
    · next hnew => exact iff_of_false Bool.noConfusion fun hand => hnew hand.2

/-- The flag has the report that is pending. To schedule another is refused with an error while the
report is made, and for good once it has lapsed. -/
theorem always_flagged (is : List Input) :
    Run.Always step (fun t =>
      t.pendingDailyReport.toList =
          (t.queue.pending.filter (Task.named DAILY_REPORT_SYNC)).map Task.taskId ∧
        ∀ taskId, (t.scheduleDailyReportSync taskId).2 = false ↔
          (∃ task ∈ t.queue.busy, task.taskName = DAILY_REPORT_SYNC) ∨
            DAILY_REPORT_SYNC ∈ t.lapsed) empty is := by
  apply (always_inv is).imp
  intro t h
  refine ⟨flag_eq h, fun taskId => ?_⟩
  have halone := h.alone DAILY_REPORT_SYNC (.inr rfl)
  have hbusy : (∃ task ∈ t.queue.busy, task.taskName = DAILY_REPORT_SYNC) ↔
      t.queue.busy.countP (Task.named DAILY_REPORT_SYNC) ≠ 0 := by
    rw [← Nat.pos_iff_ne_zero, List.countP_pos_iff]
    simp only [Task.named, decide_eq_true_eq]
  have hlapsed : DAILY_REPORT_SYNC ∈ t.lapsed ↔ t.lapsed.count DAILY_REPORT_SYNC ≠ 0 := by
    rw [← Nat.pos_iff_ne_zero, List.count_pos_iff]
  rw [refused_iff, isSome_flag_iff h, hbusy, hlapsed]
  rw [tally] at halone
  split at halone
  · next hreg =>
    rw [and_iff_left hreg]
    omega
  · next hnew => exact iff_of_false (fun hand => hnew hand.2) (by omega)

/-! A task that has lapsed. -/

theorem mem_lapsed_step {name : Str} (hlapsed : name ∈ t.lapsed) (i : Input) :
    name ∈ (t.step i).lapsed := by
  cases i with
  | queue i =>
    obtain heq | ⟨-, ⟨w, move, -, heq⟩ | ⟨-, heq⟩⟩ := queue_cases t i
    · rwa [heq]
    · rwa [heq, lapsed_work]
    · rwa [heq]
  | startIdleCheck supervisorStarts taskId =>
    rw [step, startIdleCheck]
    split
    · exact hlapsed
    · split
      · exact hlapsed
      · exact List.mem_cons_of_mem _ hlapsed
  | scheduleDailyReportSync taskId =>
    rw [step, scheduleDailyReportSync]
    split
    · exact hlapsed
    · dsimp only
      split
      · exact hlapsed
      · exact hlapsed
  | handler w scan =>
    obtain heq | ⟨task, u, outcome, -, -, heq, hu⟩ := handler_cases t w scan
    · rwa [heq]
    · rw [heq, lapsed_work]
      obtain rfl | ⟨taskId, rfl⟩ := hu
      · exact List.mem_cons_of_mem _ hlapsed
      · exact hlapsed

theorem executed_work (h : t.queue.Inv) {name : Str}
    (hnone : t.queue.pending.countP (Task.named name) = 0) (w : Nat) (move : Move) :
    (t.work w move).queue.executed.filter (fun e => e.task.named name) =
      t.queue.executed.filter fun e => e.task.named name := by
  obtain heq | ⟨hturns, -⟩ := work_cases h w move
  · rw [heq]
  · obtain ⟨waiting, hexecuted⟩ := hturns.executed
    rw [hexecuted, List.filter_append]
    refine (congrArg _ (List.filter_eq_nil_iff.mpr ?_)).trans (List.append_nil _)
    intro e he hname
    obtain ⟨task, htask, rfl⟩ := List.mem_map.mp he
    have hpending : task ∈ t.queue.pending :=
      hturns.pending.subset (List.mem_append_right _ htask)
    have hcount := List.countP_pos_iff.mpr ⟨task, hpending, hname⟩
    omega

theorem executed_step_of_ne (s : State) {i : Queue.Input} (hi : ∀ w move, i ≠ .worker w move) :
    (s.step i).executed = s.executed := by
  cases i with
  | worker w move => exact absurd rfl (hi w move)
  | tick elapsed => rfl
  | registerTask taskName =>
    rw [State.step]
    split <;> rfl
  | enqueue taskName delay payload taskId =>
    rw [State.step]
    split <;> rfl
  | start =>
    rw [State.step]
    split <;> rfl
  | stop => rfl
  | stopReturns k =>
    rw [State.step, State.stopReturns]
    split <;> rfl

theorem executed_register (t : Timers) (taskName : Str) :
    (t.register taskName).queue.executed = t.queue.executed :=
  executed_step_of_ne _ fun _ _ => Queue.Input.noConfusion

theorem executed_enqueue (t : Timers) (taskName : Str) (delay : Int) (taskId : Id) :
    (t.enqueue taskName delay none taskId).queue.executed = t.queue.executed :=
  executed_step_of_ne _ fun _ _ => Queue.Input.noConfusion

theorem executed_step (h : t.Inv) {name : Str} (htimer : IsTimer name) (hlapsed : name ∈ t.lapsed)
    (i : Input) :
    (t.step i).queue.executed.filter (fun e => e.task.named name) =
      t.queue.executed.filter fun e => e.task.named name := by
  have halone := h.alone name htimer
  have hcount := List.count_pos_iff.mpr hlapsed
  have hnone : t.queue.pending.countP (Task.named name) = 0 ∧
      t.queue.busy.countP (Task.named name) = 0 := by
    rw [tally] at halone
    split at halone <;> omega
  cases i with
  | queue i =>
    obtain heq | ⟨-, ⟨w, move, -, heq⟩ | ⟨hi, heq⟩⟩ := queue_cases t i
    · rw [heq]
    · rw [heq]
      exact executed_work h.queue hnone.1 w move
    · rw [heq]
      dsimp only
      rw [executed_step_of_ne _ hi]
  | startIdleCheck supervisorStarts taskId =>
    rw [step, startIdleCheck]
    split
    · rfl
    · split
      · rw [executed_enqueue, executed_register]
      · rw [lapse, executed_register]
  | scheduleDailyReportSync taskId =>
    rw [step, scheduleDailyReportSync]
    split
    · rfl
    · dsimp only
      split
      · rfl
      · rw [executed_enqueue, executed_register]
  | handler w scan =>
    obtain heq | ⟨task, u, outcome, hbusy, htask, heq, rfl | ⟨taskId, rfl⟩⟩ :=
      handler_cases t w scan
    · rw [heq]
    · rw [heq]
      exact executed_work (t := t.lapse task.taskName) h.queue hnone.1 w _
    · have hne : task.taskName ≠ name := by
        rintro rfl
        exact absurd hnone.2 (countP_busy_pos hbusy).ne'
      have hqueue : (t.enqueue task.taskName (period task.taskName) none taskId).queue =
          t.queue.enqueue (t.queue.newTask task.taskName (period task.taskName) none taskId) :=
        if_pos (running h hbusy htask).1
      have hpending : (t.enqueue task.taskName (period task.taskName) none
          taskId).queue.pending.countP (Task.named name) = 0 := by
        rw [hqueue, pending_enqueue, List.countP_cons_of_neg, hnone.1]
        exact fun hname => hne (of_decide_eq_true hname)
      rw [heq, executed_work (h.queue.enqueue _ _ _ _) hpending, executed_enqueue]

/-- A task that has lapsed never runs again in the life of the process. -/
theorem lapsed_for_good (before after : List Input) {name : Str} (htimer : IsTimer name)
    (hlapsed : name ∈ (Run.exec step empty before).lapsed) :
    (Run.exec step empty (before ++ after)).queue.executed.filter (fun e => e.task.named name) =
      (Run.exec step empty before).queue.executed.filter fun e => e.task.named name := by
  rw [Run.exec_append]
  have hinv := (always_inv before).exec
  generalize Run.exec step empty before = t at hinv hlapsed
  induction after generalizing t with
  | nil => rfl
  | cons i after ih =>
    rw [Run.exec, ih (t.step i) (inv_step hinv i) (mem_lapsed_step hlapsed i),
      executed_step hinv htimer hlapsed i]

/-- The database is away once, while the first check is made. -/
def failedOnce : List Input :=
  [.queue .start, .startIdleCheck true "first", .queue (.worker 0 .run), .handler 0 .fails]

theorem lapsed_for_good_once :
    ((Run.exec step empty
        (failedOnce ++ [.queue (.tick 3600), .queue (.worker 0 .run)])).queue.executed.filter
      fun e => e.task.named IDLE_CHECK).length = 1 := by
  rw [lapsed_for_good failedOnce _ (.inl rfl) (by decide)]
  decide

end Timers

end Eyot.Queue
