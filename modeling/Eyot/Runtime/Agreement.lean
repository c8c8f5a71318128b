import Eyot.Library.Run
import Eyot.Runtime.Tasks

/-! Whether the persisted loop status of an instance and its runtime task agree. -/

namespace Eyot.Runtime

/-- With no request in flight, a status of running has a task at work in `_runtime_tasks`; and no
task that is over stays there. -/
structure Agrees (s : Process) : Prop where
  running : s.ops = [] → s.loopStatus = some .running → s.table.Live
  fresh : ¬ s.table.Stale

def covered (T : TaskTable) (loopStatus : Option LoopStatus) : Bool :=
  loopStatus ≠ some .running || T.entry.isSome

namespace Process

/-- The last await of the only request in flight leaves no running status without an entry. Only
where the request starts a task behind its commit is there nothing to ask. -/
def settles (s : Process) (op : Operation) : Bool :=
  match op.todo with
  | [] => true
  | a :: todo =>
    if s.violates op a then covered s.table s.loopStatus
    else if !todo.isEmpty then true
    else
      match a with
      | .startRuntime => true
      | .commit => covered s.table (op.written.or s.loopStatus)
      | _ => covered s.table s.loopStatus

/-- No client build fails; no task leaves the loop while the status is running and nothing is in
flight; no request, failed or not, is the last to end over a running status without an entry. -/
def harmless (s : Process) : Input → Bool
  | .begins _ _ => true
  | .advance n =>
    match s.ops[n]? with
    | none => true
    | some op => s.ops.length ≠ 1 || s.settles op
  | .fail n => s.ops.length ≠ 1 || n ≠ 0 || covered s.table s.loopStatus
  | .task t e =>
    match s.table.move s.loopStatus t e with
    | some .returns => false
    | some .quits => !s.ops.isEmpty || s.loopStatus ≠ some .running
    | _ => true

variable {s : Process}

theorem agrees_iff (hsole : s.table.Sole) (hfresh : ¬ s.table.Stale) :
    Agrees s ↔ (s.ops = [] → covered s.table s.loopStatus = true) := by
  have hcovered : covered s.table s.loopStatus = true ↔
      (s.loopStatus = some .running → s.table.Live) := by
    rw [hsole.live_iff hfresh, covered, Bool.or_eq_true, decide_eq_true_eq]
    exact Decidable.imp_iff_not_or.symm
  rw [hcovered]
  constructor
  · intro h
    exact h.running
  · intro h
    exact ⟨h, hfresh⟩

/-- What the steps of a request leave alone. -/
theorem perform_ops (s : Process) (op : Operation) (a : Action) :
    (s.perform op a).1.ops = s.ops := by
  cases a <;> rfl

/-- What an action can do to the task and its entry. -/
theorem table_perform (s : Process) (op : Operation) (a : Action) :
    (s.perform op a).1.table = s.table ∨ (s.perform op a).1.table = s.table.kill ∨
      (s.perform op a).1.table = s.table.startRuntimeFor := by
  cases a with
  | setLoopStatus newStatus => exact .inl rfl
  | sendKill => exact .inr (.inl rfl)
  | commit => exact .inl rfl
  | startRuntime => exact .inr (.inr rfl)

theorem sole_perform (hsole : s.table.Sole) (op : Operation) (a : Action) :
    (s.perform op a).1.table.Sole := by
  obtain h | h | h := table_perform s op a
  · exact h ▸ hsole
  · exact h ▸ hsole.kill
  · exact h ▸ hsole.startRuntimeFor

theorem stale_perform (s : Process) (op : Operation) (a : Action) :
    (s.perform op a).1.table.Stale ↔ s.table.Stale := by
  obtain h | h | h := table_perform s op a
  · rw [h]
  · rw [h, TaskTable.stale_kill]
  · rw [h, TaskTable.stale_startRuntimeFor]

theorem covered_perform (s : Process) (op : Operation) (a : Action) :
    covered (s.perform op a).1.table (s.perform op a).1.loopStatus =
      match a with
      | .startRuntime => true
      | .commit => covered s.table (op.written.or s.loopStatus)
      | _ => covered s.table s.loopStatus := by
  cases a with
  | setLoopStatus newStatus => rfl
  | sendKill => rfl
  | commit => rfl
  | startRuntime =>
    rw [covered, perform, TaskTable.isSome_startRuntimeFor, Bool.or_true]

/-- A request that waits for the row is not the only one. -/
theorem length_of_blocked {n : Nat} {op : Operation} {a : Action} (hop : s.ops[n]? = some op)
    (h : s.blocked n op a = true) : s.ops.length ≠ 1 := by
  intro hlength
  obtain ⟨other, hother⟩ := List.length_eq_one_iff.mp hlength
  have hn : n = 0 := by
    have := (List.getElem?_eq_some_iff.mp hop).1
    omega
  cases a with
  | setLoopStatus newStatus => simp [blocked, hother, hn] at h
  | sendKill => cases h
  | commit => cases h
  | startRuntime => cases h

theorem drop_ops_eq_nil {n : Nat} {op : Operation} (hop : s.ops[n]? = some op) :
    (s.drop n).ops = [] ↔ s.ops.length = 1 := by
  have hn := (List.getElem?_eq_some_iff.mp hop).1
  rw [drop, List.eraseIdx_eq_nil_iff]
  constructor
  · rintro (hnil | ⟨hlength, -⟩)
    · simp [hnil] at hn
    · exact hlength
  · intro hlength
    exact .inr ⟨hlength, by omega⟩

theorem agrees_drop {n : Nat} {op : Operation} (hop : s.ops[n]? = some op)
    (hsole : s.table.Sole) (hfresh : ¬ s.table.Stale) :
    Agrees (s.drop n) ↔ (s.ops.length = 1 → covered s.table s.loopStatus = true) := by
  rw [agrees_iff (s := s.drop n) hsole hfresh, drop_ops_eq_nil hop]
  rfl

theorem agrees_advance (hsole : s.table.Sole) (hs : Agrees s) (n : Nat) :
    Agrees (s.advance n) ↔ s.harmless (.advance n) = true := by
  simp only [advance, harmless]
  cases hop : s.ops[n]? with
  | none => exact iff_of_true hs rfl
  | some op =>
    simp only
    rw [Bool.or_eq_true, decide_eq_true_eq, ← Decidable.imp_iff_not_or]
    unfold settles
    cases htodo : op.todo with
    | nil => exact iff_of_true hs fun _ => rfl
    | cons a todo =>
      simp only
      split
      · rename_i hblocked
        exact iff_of_true hs fun hlength => absurd hlength (length_of_blocked hop hblocked)
      · split
        · exact agrees_drop hop hsole hs.fresh
        · have hops := perform_ops s op a
          have hsole' := sole_perform hsole op a
          have hfresh' := mt (stale_perform s op a).mp hs.fresh
          cases todo with
          | nil =>
            rw [← hops] at hop
            simp only [List.isEmpty_nil, if_true, Bool.not_true, Bool.false_eq_true, if_false]
            rw [agrees_drop hop hsole' hfresh', covered_perform, hops]
          | cons b todo =>
            refine iff_of_true ?_ fun _ => rfl
            refine ⟨?_, hfresh'⟩
            intro hnil
            have hn := (List.getElem?_eq_some_iff.mp hop).1
            rw [if_neg (by simp), List.set_eq_nil_iff, hops] at hnil
            simp [hnil] at hn

theorem agrees_fail (hsole : s.table.Sole) (hs : Agrees s) (n : Nat) :
    Agrees (s.drop n) ↔ s.harmless (.fail n) = true := by
  cases hop : s.ops[n]? with
  | none =>
    have hn := List.getElem?_eq_none_iff.mp hop
    have hdrop : s.drop n = s := by rw [drop, List.eraseIdx_of_length_le hn]
    rw [hdrop]
    refine iff_of_true hs ?_
    simp only [harmless, Bool.or_eq_true, decide_eq_true_eq]
    left
    omega
  | some op =>
    have hn := (List.getElem?_eq_some_iff.mp hop).1
    rw [agrees_drop hop hsole hs.fresh]
    simp only [harmless, Bool.or_eq_true, decide_eq_true_eq]
    constructor
    · intro h
      by_cases hlength : s.ops.length = 1
      · exact .inr (h hlength)
      · exact .inl (.inl hlength)
    · rintro ((h | h) | h) hlength
      · exact absurd hlength h
      · omega
      · exact h

theorem agrees_task (hsole : s.table.Sole) (hs : Agrees s) (t : Nat) (e : TaskEvent) :
    Agrees (s.step (.task t e)) ↔ s.harmless (.task t e) = true := by
  have hsole' := hsole.step s.loopStatus t e
  have hstale := TaskTable.stale_step hsole hs.fresh s.loopStatus t e
  have hentry := TaskTable.entry_step s.table s.loopStatus t e
  rw [harmless]
  cases hmove : s.table.move s.loopStatus t e with
  | none =>
    refine iff_of_true ?_ rfl
    rw [step, TaskTable.step, hmove]
    exact hs
  | some m =>
    rw [hmove, Option.some.injEq] at hstale
    rw [hmove] at hentry
    cases m with
    | becomes q =>
      have hfresh' : ¬ (s.step (.task t e)).table.Stale := by
        intro h
        cases hstale.mp h
      refine iff_of_true ?_ rfl
      rw [agrees_iff (s := s.step (.task t e)) hsole' hfresh']
      intro hops
      have hcovered := (agrees_iff hsole hs.fresh).mp hs hops
      rw [covered] at hcovered ⊢
      rw [step, hentry, if_neg (by simp)]
      exact hcovered
    | returns =>
      have hstale' : (s.step (.task t e)).table.Stale := hstale.mpr rfl
      refine iff_of_false ?_ Bool.false_ne_true
      intro h
      exact h.fresh hstale'
    | quits =>
      have hfresh' : ¬ (s.step (.task t e)).table.Stale := by
        intro h
        cases hstale.mp h
      rw [agrees_iff (s := s.step (.task t e)) hsole' hfresh', covered, step, hentry, if_pos rfl]
      simp [Decidable.imp_iff_not_or]

theorem table_advance (s : Process) (n : Nat) :
    (s.advance n).table = s.table ∨
      ∃ op a, (s.advance n).table = (s.perform op a).1.table := by
  unfold advance
  split
  · exact .inl rfl
  · rename_i op hop
    split
    · exact .inl rfl
    · rename_i a todo htodo
      split
      · exact .inl rfl
      · split
        · exact .inl rfl
        · refine .inr ⟨op, a, ?_⟩
          simp only
          split
          · rfl
          · rfl

theorem sole_step (hsole : s.table.Sole) (i : Input) : (s.step i).table.Sole := by
  cases i with
  | begins request status =>
    rw [step]
    split
    · exact hsole
    · exact hsole
  | advance n =>
    rw [step]
    obtain h | ⟨op, a, h⟩ := table_advance s n
    · exact h ▸ hsole
    · exact h ▸ sole_perform hsole op a
  | fail n => exact hsole
  | task t e => exact hsole.step s.loopStatus t e

theorem stale_step (hsole : s.table.Sole) (hstale : s.table.Stale) (i : Input) :
    (s.step i).table.Stale := by
  cases i with
  | begins request status =>
    rw [step]
    split
    · exact hstale
    · exact hstale
  | advance n =>
    rw [step]
    obtain h | ⟨op, a, h⟩ := table_advance s n
    · exact h ▸ hstale
    · exact h ▸ (stale_perform s op a).mpr hstale
  | fail n => exact hstale
  | task t e =>
    rw [step, TaskTable.step_of_stale hsole hstale]
    exact hstale

theorem agrees_step (hsole : s.table.Sole) (hs : Agrees s) (i : Input) :
    Agrees (s.step i) ↔ s.harmless i = true := by
  cases i with
  | begins request status =>
    refine iff_of_true ?_ rfl
    rw [step]
    split
    · refine ⟨?_, hs.fresh⟩
      intro hops
      exact absurd hops (List.append_ne_nil_of_right_ne_nil _ (List.cons_ne_nil _ _))
    · exact hs
  | advance n => exact agrees_advance hsole hs n
  | fail n => exact agrees_fail hsole hs n
  | task t e => exact agrees_task hsole hs t e

/-- From a state in order, a run keeps status and task in agreement exactly when all its steps are
harmless. -/
theorem always_agrees_iff (hsole : s.table.Sole) (hs : Agrees s) (is : List Input) :
    Run.Always step Agrees s is ↔ Run.Meets step (fun s i => s.harmless i = true) s is :=
  Run.always_iff_meets (r := fun s : Process => s.table.Sole) (fun _ i h => sole_step h i)
    (fun _ i h hs => agrees_step h hs i) hsole hs is

theorem agrees_boot {loopStatus : Option LoopStatus} :
    Agrees (boot loopStatus) ↔ loopStatus ≠ some .running := by
  rw [agrees_iff (s := boot loopStatus) TaskTable.sole_empty TaskTable.not_stale_empty]
  rw [boot, covered, Bool.or_eq_true, decide_eq_true_eq]
  constructor
  · intro h
    exact (h rfl).resolve_right nofun
  · intro h _
    exact .inl h

theorem runtime_agrees_iff (loopStatus : Option LoopStatus) (is : List Input) :
    Run.Always step Agrees (boot loopStatus) is ↔
      loopStatus ≠ some .running ∧
        Run.Meets step (fun s i => s.harmless i = true) (boot loopStatus) is := by
  constructor
  · intro h
    have hboot := h.start
    exact ⟨agrees_boot.mp hboot, (always_agrees_iff TaskTable.sole_empty hboot is).mp h⟩
  · rintro ⟨hstatus, h⟩
    exact (always_agrees_iff TaskTable.sole_empty (agrees_boot.mpr hstatus) is).mpr h

/-- A resume behind the end of the paused task starts a new one. -/
example : Run.Meets step (fun s i => s.harmless i = true) (boot (some .idle))
    [.begins .activation .running, .advance 0, .advance 0, .advance 0, .task 0 .built,
      .begins (.endpoint .pause) .running, .advance 0, .advance 0, .task 0 .check,
      .task 0 .stopped, .begins (.endpoint .resume) .running, .advance 0, .advance 0,
      .advance 0, .task 1 .built] := by
  decide

/-- An idle instance is activated and paused; while its task is on the way out it is resumed, and
then the task ends. -/
def resumedWhileStopping : List Input :=
  [.begins .activation .running, .advance 0, .advance 0, .advance 0, .task 0 .built,
    .begins (.endpoint .pause) .running, .advance 0, .advance 0, .task 0 .check,
    .begins (.endpoint .resume) .running, .advance 0, .advance 0, .advance 0, .task 0 .stopped]

theorem not_agrees_resumedWhileStopping :
    ¬ Run.Always step Agrees (boot (some .idle)) resumedWhileStopping := by
  intro h
  obtain ⟨t, phase, hentry, -, -⟩ := h.exec.running rfl rfl
  exact nomatch hentry

/-- A client that could not be built leaves its task in the way of every later one. -/
theorem not_live_after_buildFails (hsole : s.table.Sole) {t : Nat}
    (ht : s.table.tasks[t]? = some .building) (is : List Input) :
    Run.Always step (fun s => ¬ s.table.Live) (s.step (.task t .buildFails)) is := by
  have hmove : s.table.move s.loopStatus t .buildFails = some .returns := by
    rw [TaskTable.move, ht]
    rfl
  have hstale : (s.step (.task t .buildFails)).table.Stale := by
    rw [step, TaskTable.step, hmove]
    exact (TaskTable.stale_setPhase hsole ht nofun .finished).mpr rfl
  have hrun : Run.Always step (fun s => s.table.Sole ∧ s.table.Stale)
      (s.step (.task t .buildFails)) is :=
    Run.always_of_step (fun s i h => ⟨sole_step h.1 i, stale_step h.1 h.2 i⟩)
      ⟨sole_step hsole _, hstale⟩ is
  exact hrun.imp fun _ h => TaskTable.not_live_of_stale h.2

end Process

end Eyot.Runtime
