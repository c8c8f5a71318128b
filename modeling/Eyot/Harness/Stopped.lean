import Eyot.Harness.Supervisor

/-! The persisted status of a loop that has ended. -/

namespace Eyot.Harness

open Routing (deliveryModeForInstance setLoopStatus getStateOr404)

def NotRunning (db : Db) (instanceId : Id) : Prop :=
  ∀ s ∈ runningStates db, s.instanceId ≠ instanceId

/-- The supervisor, and the instances whose loop has tripped a breaker or reported its end and has
not started again. -/
structure Watched where
  world : World
  stopped : Id → Bool

def watch (db : Db) : Watched := ⟨start db, fun _ => false⟩

def decisionAt (w : World) (instanceId : Id) (tokenEstimate : Int) (stamp now : Time) :
    Option TripReason :=
  (handleCheckpoint w.registry (loadBreakerConfig w instanceId) instanceId tokenEstimate stamp
    now).2

namespace Watched

def notes (s : Watched) : Input → Id → Bool
  | .loopStarted i _ => Function.update s.stopped i false
  | .loopStopped i => Function.update s.stopped i true
  | .checkpoint i tokens stamp now =>
    if (decisionAt s.world i tokens stamp now).isSome then Function.update s.stopped i true
    else s.stopped
  | _ => s.stopped

def step (s : Watched) (i : Input) : Watched := ⟨Harness.step s.world i, s.notes i⟩

/-- No loop that has ended is down as running, and no message goes to it as a soft inject. -/
def Settled (s : Watched) : Prop :=
  ∀ i, s.stopped i = true → NotRunning s.world.db i ∧
    deliveryModeForInstance s.world.db i ≠ .ok .softInject

/-- A loop ends only while its status is something else already, and none is resumed between its
end and its next start. -/
def Orderly (s : Watched) : Input → Prop
  | .loopStopped i => NotRunning s.world.db i
  | .checkpoint i tokens stamp now =>
    (decisionAt s.world i tokens stamp now).isSome → NotRunning s.world.db i
  | .resume i => s.stopped i = true → s.world.db.loopStates.rows.find? (isActiveState i) = none
  | _ => True

end Watched

theorem deliveryMode_of_notRunning {db : Db} {i : Id} (h : NotRunning db i) :
    deliveryModeForInstance db i ≠ .ok .softInject := by
  unfold deliveryModeForInstance
  cases hrows : db.loopStates.rows.filter fun s => s.instanceId = i && s.deletedAt.isNone with
  | nil => nofun
  | cons s rest =>
    cases rest with
    | cons s' rest => nofun
    | nil =>
      have hs : s ∈ db.loopStates.rows.filter fun s => s.instanceId = i && s.deletedAt.isNone := by
        rw [hrows]
        exact List.mem_singleton_self s
      rw [List.mem_filter, Bool.and_eq_true, decide_eq_true_eq] at hs
      have hstatus : s.loopStatus ≠ .running := by
        intro hrunning
        apply h s _ hs.2.1
        rw [runningStates, List.mem_filter, isRunning, Bool.and_eq_true, decide_eq_true_eq]
        exact ⟨hs.1, hrunning, hs.2.2⟩
      simp [Routing.scalarOneOrNone, bind, Except.bind, pure, Except.pure, hstatus]

theorem settled_iff {s : Watched} :
    s.Settled ↔ ∀ i, s.stopped i = true → NotRunning s.world.db i := by
  constructor
  · intro h i hi
    exact (h i hi).1
  · intro h i hi
    exact ⟨h i hi, deliveryMode_of_notRunning (h i hi)⟩

theorem id_of_loopStatus (newStatus : LoopStatus) (s : InstanceLoopState) :
    ({ s with loopStatus := newStatus } : InstanceLoopState).id = s.id := rfl

def setStatus (db : Db) (state : InstanceLoopState) (newStatus : LoopStatus) : Db :=
  { db with
    loopStates := db.loopStates.update state.id (fun s => { s with loopStatus := newStatus })
      (id_of_loopStatus newStatus) }

theorem mem_setStatus {db : Db} {state s : InstanceLoopState} {newStatus : LoopStatus}
    (hstate : state ∈ db.loopStates.rows) :
    s ∈ runningStates (setStatus db state newStatus) ↔
      s ∈ runningStates db ∧ s.id ≠ state.id ∨
        s = { state with loopStatus := newStatus } ∧ isRunning s = true := by
  rw [runningStates, setStatus, List.mem_filter, Table.update, Table.mem_updateWhere]
  constructor
  · rintro ⟨⟨r, hr, rfl⟩, hrunning⟩
    by_cases hid : r.id = state.id
    · have hrs : r = state := db.loopStates.eq_of_key_eq hr hstate hid
      simp only [hid, decide_true, if_true] at hrunning ⊢
      rw [hrs] at hrunning ⊢
      exact .inr ⟨rfl, hrunning⟩
    · simp only [hid, decide_false, Bool.false_eq_true, if_false] at hrunning ⊢
      exact .inl ⟨List.mem_filter.mpr ⟨hr, hrunning⟩, hid⟩
  · rintro (⟨hs, hid⟩ | ⟨rfl, hrunning⟩)
    · obtain ⟨hs, hrunning⟩ := List.mem_filter.mp hs
      exact ⟨⟨s, hs, by simp [hid]⟩, hrunning⟩
    · exact ⟨⟨state, hstate, by simp⟩, hrunning⟩

/-- A request for an instance sets the status of its active loop state, or fails. -/
theorem settle_setStatus (w : World) (i : Id) (newStatus : LoopStatus) (r : Routing.Routed Db)
    (registry : Registry)
    (h : r.result = (getStateOr404 w.db i).map fun state => setStatus w.db state newStatus) :
    settle w r registry =
      match w.db.loopStates.rows.find? (isActiveState i) with
      | some state => { w with db := setStatus w.db state newStatus, registry := registry }
      | none => w := by
  rw [settle, h]
  unfold getStateOr404 isActiveState
  cases w.db.loopStates.rows.find? fun s => s.instanceId = i && s.deletedAt.isNone with
  | some state => rfl
  | none => rfl

theorem setLoopStatus_result (db : Db) (i : Id) (newStatus : LoopStatus) (eventType : String) :
    (setLoopStatus db i newStatus eventType).result =
      (getStateOr404 db i).map fun state => setStatus db state newStatus := by
  unfold setLoopStatus
  cases getStateOr404 db i with
  | ok state => rfl
  | error e => rfl

theorem handleInterrupt_result (db : Db) (i : Id) :
    (Routing.handleInterrupt db i).result =
      (getStateOr404 db i).map fun state => setStatus db state .interrupted := by
  unfold Routing.handleInterrupt setLoopStatus
  cases getStateOr404 db i with
  | ok state => rfl
  | error e => rfl

theorem notRunning_setStatus {db : Db} {state : InstanceLoopState} {newStatus : LoopStatus}
    (hstate : state ∈ db.loopStates.rows) (hstatus : newStatus ≠ .running) {j : Id}
    (h : NotRunning db j) : NotRunning (setStatus db state newStatus) j := by
  intro s hs
  obtain ⟨hs, -⟩ | ⟨rfl, hrunning⟩ := (mem_setStatus hstate).mp hs
  · exact h s hs
  · simp [isRunning, hstatus] at hrunning

theorem notRunning_resume {db : Db} {state : InstanceLoopState} {i : Id}
    (hfind : db.loopStates.rows.find? (isActiveState i) = some state) {j : Id}
    (h : NotRunning db j) : NotRunning (setStatus db state .running) j ↔ i ≠ j := by
  have hstate := List.mem_of_find?_eq_some hfind
  have hactive := List.find?_some hfind
  rw [isActiveState, Bool.and_eq_true, decide_eq_true_eq] at hactive
  constructor
  · intro h' hij
    apply h' { state with loopStatus := .running } _ (hactive.1.trans hij)
    exact (mem_setStatus hstate).mpr (.inr ⟨rfl, by simp [isRunning, hactive.2]⟩)
  · intro hij s hs
    obtain ⟨hs, -⟩ | ⟨rfl, -⟩ := (mem_setStatus hstate).mp hs
    · exact h s hs
    · exact fun hj => hij (hactive.1.symm.trans hj)

theorem notRunning_create {w : World} {id i : Id} {config : BreakerConfig} {j : Id}
    (h : NotRunning w.db j) : NotRunning (create w id i config).db j := by
  unfold create
  split
  · exact h
  · split
    · exact h
    · rename_i loopStates hinsert
      intro s hs
      obtain ⟨hs, hrunning⟩ := List.mem_filter.mp hs
      rw [Table.insert?_rows hinsert, List.mem_append, List.mem_singleton] at hs
      obtain hs | rfl := hs
      · exact h s (List.mem_filter.mpr ⟨hs, hrunning⟩)
      · cases hrunning

namespace Watched

/-- Where a step leaves the note of who has stopped as it is, it is enough that no row gets to
run. -/
theorem settled_of_notes {s : Watched} (hs : s.Settled) {i : Input}
    (hnotes : s.notes i = s.stopped)
    (hdb : ∀ j, NotRunning s.world.db j → NotRunning (Harness.step s.world i).db j) :
    (s.step i).Settled := by
  rw [settled_iff] at hs ⊢
  intro j hj
  rw [step, hnotes] at hj
  exact hdb j (hs j hj)

theorem settled_of_stopped {s : Watched} (hs : s.Settled) {i : Input} {j : Id}
    (hnotes : s.notes i = Function.update s.stopped j true)
    (hdb : (Harness.step s.world i).db = s.world.db) :
    (s.step i).Settled ↔ NotRunning s.world.db j := by
  rw [settled_iff] at hs ⊢
  simp only [step, hnotes, hdb]
  constructor
  · intro h
    exact h j (Function.update_self _ _ _)
  · intro hj k hk
    by_cases hkj : k = j
    · exact hkj ▸ hj
    · rw [Function.update_of_ne hkj] at hk
      exact hs k hk

theorem settled_settle {s : Watched} (hs : s.Settled) {input : Input} {i : Id}
    {newStatus : LoopStatus} {r : Routing.Routed Db} {registry : Registry}
    (hstatus : newStatus ≠ .running) (hnotes : s.notes input = s.stopped)
    (hstep : Harness.step s.world input = settle s.world r registry)
    (hr : r.result = (getStateOr404 s.world.db i).map fun state =>
      setStatus s.world.db state newStatus) : (s.step input).Settled := by
  apply settled_of_notes hs hnotes
  intro j hj
  rw [hstep, settle_setStatus s.world i newStatus r registry hr]
  cases hfind : s.world.db.loopStates.rows.find? (isActiveState i) with
  | none => exact hj
  | some state => exact notRunning_setStatus (List.mem_of_find?_eq_some hfind) hstatus hj

theorem settled_resume {s : Watched} (hs : s.Settled) (i : Id) :
    (s.step (.resume i)).Settled ↔ s.Orderly (.resume i) := by
  have hstep : (s.step (.resume i)).world =
      match s.world.db.loopStates.rows.find? (isActiveState i) with
      | some state => { s.world with db := setStatus s.world.db state .running }
      | none => s.world :=
    settle_setStatus s.world i .running _ _ (setLoopStatus_result _ _ _ _)
  rw [settled_iff, Orderly] at *
  rw [hstep]
  change (∀ j, s.stopped j = true → _) ↔ _
  cases hfind : s.world.db.loopStates.rows.find? (isActiveState i) with
  | none => exact iff_of_true hs fun _ => rfl
  | some state =>
    simp only [reduceCtorEq, imp_false]
    constructor
    · intro h hi
      exact (notRunning_resume hfind (hs i hi)).mp (h i hi) rfl
    · intro hi j hj
      refine (notRunning_resume hfind (hs j hj)).mpr ?_
      rintro rfl
      exact hi hj

theorem settled_step {s : Watched} (hs : s.Settled) (i : Input) :
    (s.step i).Settled ↔ s.Orderly i := by
  cases i with
  | created id i config =>
    exact iff_of_true (settled_of_notes hs rfl fun _ hj => notRunning_create hj) trivial
  | loopStarted i now =>
    refine iff_of_true ?_ trivial
    rw [settled_iff] at hs ⊢
    intro j hj
    change Function.update s.stopped i false j = true at hj
    by_cases hji : j = i
    · rw [hji, Function.update_self] at hj
      cases hj
    · rw [Function.update_of_ne hji] at hj
      exact hs j hj
  | checkpoint i tokens stamp now =>
    rw [Orderly]
    cases hd : (decisionAt s.world i tokens stamp now).isSome with
    | true =>
      rw [settled_of_stopped (j := i) hs (by rw [notes, if_pos hd]) rfl]
      simp
    | false =>
      refine iff_of_true (settled_of_notes hs ?_ fun _ hj => hj) nofun
      rw [notes, hd]
      rfl
  | continuationInjected i now =>
    exact iff_of_true (settled_of_notes hs rfl fun _ hj => hj) trivial
  | loopStopped i => exact settled_of_stopped hs rfl rfl
  | pause i =>
    exact iff_of_true (settled_settle hs (by decide : LoopStatus.paused ≠ .running) rfl rfl
      (setLoopStatus_result _ _ _ _)) trivial
  | resume i => exact settled_resume hs i
  | interrupt i =>
    exact iff_of_true (settled_settle hs (by decide : LoopStatus.interrupted ≠ .running) rfl
      rfl (handleInterrupt_result _ _)) trivial
  | restart => exact iff_of_true (settled_of_notes hs rfl fun _ hj => hj) trivial

/-- The persisted status keeps up with the loops exactly in the runs that end none while it says
running: nothing at the end of a loop writes it. -/
theorem always_settled_iff (db : Db) (is : List Input) :
    Run.Always step Settled (watch db) is ↔ Run.Meets step Orderly (watch db) is :=
  Run.always_iff_meets (r := fun _ => True) (fun _ _ _ => trivial)
    (fun _ i _ hs => settled_step hs i) trivial
    (fun _ h => absurd h Bool.false_ne_true) is

end Watched

/-- A loop that comes to its end by itself. -/
theorem not_always_settled :
    ¬Run.Always Watched.step Watched.Settled (watch noRows)
      [.created "s" "i" LoopColumns.defaultConfig, .resume "i", .loopStarted "i" 0,
        .loopStopped "i"] := by
  intro h
  have hsettled := h.exec "i" (by decide)
  exact hsettled.2 (by decide)

end Eyot.Harness
