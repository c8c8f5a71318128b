import Eyot.Composer.Frames
import Eyot.Data.Errors
import Eyot.Harness.Supervisor

/-! The checks a boulder snapshot passes before the supervisor hands it out. -/

namespace Eyot.Harness

open Composer (Value)

def VALID_STATUSES : List PyStr :=
  [py "pending", py "in_progress", py "completed", py "cancelled"]

/-- What comes out of the enforcer but an answer: its own error, or that of a value without
`get`. -/
inductive Raised where
  | todoEnforcerError (message : String)
  | attributeError
  deriving DecidableEq

def isDict : Value → Bool
  | .obj _ => true
  | _ => false

/-- `v.get(k)`; a key that is not there gives `None`. -/
def dictGet (v : Value) (k : String) : Except Raised Value :=
  if isDict v then .ok ((v.get? (py k)).getD .null) else .error .attributeError

section

-- How Python writes a value: `repr(v)`.
variable (repr : Value → String)

/-- The checks on one todo; tells whether it is in progress. -/
def checkTodo (i : Nat) (todo : Value) : Except Raised Bool := do
  let status ← dictGet todo "status"
  match status with
  | .str s =>
    if !VALID_STATUSES.contains s then
      .error (.todoEnforcerError s!"invalid todo status: {repr status}")
    else if s = py "completed" then do
      let note ← dictGet todo "completion_note"
      match note with
      | .str n =>
        if n = [] then .error (.todoEnforcerError s!"completed todo {i} missing completion_note")
        else .ok false
      | _ => .error (.todoEnforcerError s!"completed todo {i} missing completion_note")
    else .ok (decide (s = py "in_progress"))
  | _ => .error (.todoEnforcerError s!"invalid todo status: {repr status}")

/-- Counts the todos in progress, from the `i`-th todo on. -/
def checkTodos : Nat → List Value → Nat → Except Raised Nat
  | _, [], inProgressCount => .ok inProgressCount
  | i, todo :: todos, inProgressCount => do
    let inProgress ← checkTodo repr i todo
    checkTodos (i + 1) todos (if inProgress then inProgressCount + 1 else inProgressCount)

def validateBoulderSnapshot (snapshot : Value) : Except Raised Unit := do
  let todos ← dictGet snapshot "todos"
  match todos with
  | .arr todos => do
    let inProgressCount ← checkTodos repr 0 todos 0
    if inProgressCount > 1 then
      .error (.todoEnforcerError s!"multiple in_progress todos: {inProgressCount}")
    else .ok ()
  | _ => .error (.todoEnforcerError "todos must be a list")

end

/-! The documented invariants. -/

def statusOf (todo : Value) : Option Value := todo.get? (py "status")

def isInProgress (todo : Value) : Bool :=
  match statusOf todo with
  | some (.str s) => s = py "in_progress"
  | _ => false

/-- The status is one of the four, and what is completed says so in a note. -/
structure TodoOk (todo : Value) : Prop where
  status : ∃ s ∈ VALID_STATUSES, statusOf todo = some (.str s)
  note : statusOf todo = some (.str (py "completed")) →
    ∃ n, n ≠ [] ∧ todo.get? (py "completion_note") = some (.str n)

structure Upheld (snapshot : Value) (todos : List Value) : Prop where
  list : snapshot.get? (py "todos") = some (.arr todos)
  each : ∀ todo ∈ todos, TodoOk todo
  one : todos.countP isInProgress ≤ 1

/-- The snapshot is a dict, and no todo that is none comes before a todo that breaks a rule. -/
structure Readable (snapshot : Value) : Prop where
  dict : isDict snapshot = true
  todos : ∀ before todo after,
    snapshot.get? (py "todos") = some (.arr (before ++ todo :: after)) → isDict todo = false →
    ∃ earlier ∈ before, ¬TodoOk earlier

theorem isDict_of_get? {v w : Value} {k : PyStr} (h : v.get? k = some w) : isDict v = true := by
  cases v with
  | obj kvs => rfl
  | _ => cases h

theorem TodoOk.isDict {todo : Value} (h : TodoOk todo) : isDict todo = true := by
  obtain ⟨s, -, hs⟩ := h.status
  exact isDict_of_get? hs

theorem dictGet_of_isDict {v : Value} (h : isDict v = true) (k : String) :
    dictGet v k = .ok ((v.get? (py k)).getD .null) := if_pos h

theorem dictGet_of_not_isDict {v : Value} (h : isDict v = false) (k : String) :
    dictGet v k = .error .attributeError := if_neg (by rw [h]; nofun)

theorem str_iff {v : Option Value} {s : PyStr} : v.getD .null = .str s ↔ v = some (.str s) := by
  cases v with
  | none => exact ⟨nofun, nofun⟩
  | some v => exact ⟨fun h => congrArg some h, fun h => Option.some.inj h⟩

section

variable (repr : Value → String)

theorem checkTodo_of_not_isDict {todo : Value} (h : isDict todo = false) (i : Nat) :
    checkTodo repr i todo = .error .attributeError := by
  rw [checkTodo, dictGet_of_not_isDict h]
  rfl

theorem checkTodo_eq {todo : Value} (h : isDict todo = true) (i : Nat) :
    checkTodo repr i todo =
      match (statusOf todo).getD .null with
      | .str s =>
        if !VALID_STATUSES.contains s then
          .error (.todoEnforcerError s!"invalid todo status: {repr (.str s)}")
        else if s = py "completed" then
          match (todo.get? (py "completion_note")).getD .null with
          | .str n =>
            if n = [] then
              .error (.todoEnforcerError s!"completed todo {i} missing completion_note")
            else .ok false
          | _ => .error (.todoEnforcerError s!"completed todo {i} missing completion_note")
        else .ok (decide (s = py "in_progress"))
      | status => .error (.todoEnforcerError s!"invalid todo status: {repr status}") := by
  have hstatus : todo.get? (py "status") = statusOf todo := rfl
  rw [checkTodo, dictGet_of_isDict h, dictGet_of_isDict h, hstatus]
  generalize (statusOf todo).getD .null = status
  cases status with
  | str s => rfl
  | _ => rfl

/-- A dict is read to the end, and is refused where it breaks a rule. -/
theorem checkTodo_of_isDict {todo : Value} (h : isDict todo = true) (i : Nat) :
    (TodoOk todo ∧ checkTodo repr i todo = .ok (isInProgress todo)) ∨
      (¬TodoOk todo ∧ ∃ message,
        checkTodo repr i todo = .error (.todoEnforcerError message)) := by
  rw [checkTodo_eq repr h]
  cases hstatus : (statusOf todo).getD .null with
  | str s =>
    have hs := str_iff.mp hstatus
    by_cases hvalid : s ∈ VALID_STATUSES
    · simp only [List.contains_iff_mem.mpr hvalid, Bool.not_true, Bool.false_eq_true, if_false]
      by_cases hcompleted : s = py "completed"
      · subst hcompleted
        have hnote : TodoOk todo ↔
            ∃ n, n ≠ [] ∧ todo.get? (py "completion_note") = some (.str n) :=
          ⟨fun hok => hok.note hs, fun hn => ⟨⟨_, hvalid, hs⟩, fun _ => hn⟩⟩
        have hidle : isInProgress todo = false := by
          rw [isInProgress, hs]
          decide
        rw [if_pos rfl, hnote]
        cases hn : (todo.get? (py "completion_note")).getD .null with
        | str n =>
          have hn := str_iff.mp hn
          by_cases hempty : n = []
          · subst hempty
            refine .inr ⟨?_, _, if_pos rfl⟩
            rintro ⟨n, hne, hn'⟩
            rw [hn] at hn'
            exact hne (Json.str.inj (Option.some.inj hn')).symm
          · exact .inl ⟨⟨n, hempty, hn⟩, by rw [hidle]; exact if_neg hempty⟩
        | _ =>
          refine .inr ⟨?_, _, rfl⟩
          rintro ⟨n, -, hn'⟩
          rw [str_iff.mpr hn'] at hn
          cases hn
      · rw [if_neg hcompleted]
        refine .inl ⟨⟨⟨s, hvalid, hs⟩, fun hs' => ?_⟩, ?_⟩
        · rw [hs] at hs'
          exact absurd (Json.str.inj (Option.some.inj hs')) hcompleted
        · rw [isInProgress, hs]
    · have hcontains : (!VALID_STATUSES.contains s) = true := by
        rw [Bool.not_eq_true', ← Bool.not_eq_true, List.contains_iff_mem]
        exact hvalid
      refine .inr ⟨?_, _, if_pos hcontains⟩
      rintro ⟨⟨s', hs', hstatus'⟩, -⟩
      rw [hs] at hstatus'
      exact hvalid (Json.str.inj (Option.some.inj hstatus') ▸ hs')
  | _ =>
    refine .inr ⟨?_, _, rfl⟩
    rintro ⟨⟨s, -, hs⟩, -⟩
    rw [str_iff.mpr hs] at hstatus
    cases hstatus

/-- The first todo that breaks a rule ends the checks, with the error of a value that is no dict
if it is none. -/
theorem checkTodos_cases (i : Nat) (todos : List Value) (n : Nat) :
    ((∀ todo ∈ todos, TodoOk todo) ∧
        checkTodos repr i todos n = .ok (n + todos.countP isInProgress)) ∨
      ∃ before todo after, todos = before ++ todo :: after ∧
        (∀ earlier ∈ before, TodoOk earlier) ∧ ¬TodoOk todo ∧
        ((isDict todo = false ∧ checkTodos repr i todos n = .error .attributeError) ∨
          (isDict todo = true ∧ ∃ message,
            checkTodos repr i todos n = .error (.todoEnforcerError message))) := by
  induction todos generalizing i n with
  | nil => exact .inl ⟨nofun, rfl⟩
  | cons todo todos ih =>
    cases hdict : isDict todo with
    | false =>
      refine .inr ⟨[], todo, todos, rfl, nofun, ?_, .inl ⟨hdict, ?_⟩⟩
      · intro hok
        rw [hok.isDict] at hdict
        cases hdict
      · rw [checkTodos, checkTodo_of_not_isDict repr hdict]
        rfl
    | true =>
      rcases checkTodo_of_isDict repr hdict i with ⟨hok, hcheck⟩ | ⟨hbad, message, hcheck⟩
      · have hnext : checkTodos repr i (todo :: todos) n =
            checkTodos repr (i + 1) todos (if isInProgress todo then n + 1 else n) :=
          bind_eq_of_ok hcheck rfl
        rw [hnext]
        rcases ih (i + 1) (if isInProgress todo then n + 1 else n) with
          ⟨hall, hcount⟩ | ⟨before, bad, after, rfl, hbefore, hbad, hrest⟩
        · refine .inl ⟨List.forall_mem_cons.mpr ⟨hok, hall⟩, ?_⟩
          rw [hcount, List.countP_cons]
          split
          · rw [Nat.add_assoc, Nat.add_comm 1]
          · rfl
        · exact .inr ⟨todo :: before, bad, after, rfl,
            List.forall_mem_cons.mpr ⟨hok, hbefore⟩, hbad, hrest⟩
      · refine .inr ⟨[], todo, todos, rfl, nofun, hbad, .inr ⟨hdict, message, ?_⟩⟩
        rw [checkTodos, hcheck]
        rfl

theorem getD_arr {v : Option Value} {todos : List Value} :
    v.getD .null = .arr todos ↔ v = some (.arr todos) := by
  cases v with
  | none => exact ⟨nofun, nofun⟩
  | some v => exact ⟨fun h => congrArg some h, fun h => Option.some.inj h⟩

theorem validateBoulderSnapshot_of_list {snapshot : Value} {todos : List Value}
    (hlist : snapshot.get? (py "todos") = some (.arr todos)) :
    validateBoulderSnapshot repr snapshot =
      checkTodos repr 0 todos 0 >>= fun inProgressCount =>
        if inProgressCount > 1 then
          .error (.todoEnforcerError s!"multiple in_progress todos: {inProgressCount}")
        else .ok () := by
  rw [validateBoulderSnapshot, dictGet_of_isDict (isDict_of_get? hlist), hlist]
  rfl

/-- Behind a dict that breaks a rule, a todo may be anything. -/
theorem mem_of_split {before after before' after' : List Value} {bad todo : Value}
    (hbefore : ∀ earlier ∈ before, TodoOk earlier) (hbad : isDict bad = true)
    (htodo : isDict todo = false)
    (h : before ++ bad :: after = before' ++ todo :: after') : bad ∈ before' := by
  rcases List.append_eq_append_iff.mp h with ⟨c, rfl, hc⟩ | ⟨c, rfl, hc⟩
  · cases c with
    | nil =>
      obtain rfl : bad = todo := (List.cons.inj hc).1
      rw [hbad] at htodo
      cases htodo
    | cons x c =>
      obtain rfl : bad = x := (List.cons.inj hc).1
      exact List.mem_append_right before List.mem_cons_self
  · cases c with
    | nil =>
      obtain rfl : todo = bad := (List.cons.inj hc).1
      rw [hbad] at htodo
      cases htodo
    | cons x c =>
      obtain rfl : todo = x := (List.cons.inj hc).1
      have hok := hbefore todo (List.mem_append_right before' List.mem_cons_self)
      rw [hok.isDict] at htodo
      cases htodo

/-- What comes out of the validation, for whatever value it is given. -/
theorem validateBoulderSnapshot_cases (snapshot : Value) :
    (Readable snapshot ∧ (∃ todos, Upheld snapshot todos) ∧
        validateBoulderSnapshot repr snapshot = .ok ()) ∨
      (Readable snapshot ∧ (¬∃ todos, Upheld snapshot todos) ∧ ∃ message,
        validateBoulderSnapshot repr snapshot = .error (.todoEnforcerError message)) ∨
      (¬Readable snapshot ∧ validateBoulderSnapshot repr snapshot = .error .attributeError) := by
  cases hdict : isDict snapshot with
  | false =>
    refine .inr (.inr ⟨?_, ?_⟩)
    · intro hread
      rw [hread.dict] at hdict
      cases hdict
    · rw [validateBoulderSnapshot, dictGet_of_not_isDict hdict]
      rfl
  | true =>
    cases htodos : (snapshot.get? (py "todos")).getD .null with
    | arr todos =>
      have hlist := getD_arr.mp htodos
      rw [validateBoulderSnapshot_of_list repr hlist]
      have hreaches : ∀ {todos' : List Value}, Upheld snapshot todos' → todos' = todos := by
        intro todos' hup
        exact Json.arr.inj (Option.some.inj (hup.list.symm.trans hlist))
      rcases checkTodos_cases repr 0 todos 0 with
        ⟨hall, hcount⟩ | ⟨before, bad, after, rfl, hbefore, hbad, hend⟩
      · have hread : Readable snapshot := by
          refine ⟨hdict, fun before todo after hsplit htodo => ?_⟩
          obtain rfl : before ++ todo :: after = todos :=
            Json.arr.inj (Option.some.inj (hsplit.symm.trans hlist))
          have hok := hall todo (List.mem_append_right before List.mem_cons_self)
          rw [hok.isDict] at htodo
          cases htodo
        rw [Nat.zero_add] at hcount
        by_cases hone : todos.countP isInProgress > 1
        · refine .inr (.inl ⟨hread, ?_, _, bind_eq_of_ok hcount (if_pos hone)⟩)
          rintro ⟨todos', hup⟩
          rw [← hreaches hup] at hone
          exact absurd hup.one (Nat.not_le.mpr hone)
        · exact .inl ⟨hread, ⟨todos, hlist, hall, Nat.not_lt.mp hone⟩,
            bind_eq_of_ok hcount (if_neg hone)⟩
      · have hbroken : ¬∃ todos, Upheld snapshot todos := by
          rintro ⟨todos', hup⟩
          refine hbad (hup.each bad ?_)
          rw [hreaches hup]
          exact List.mem_append_right before List.mem_cons_self
        rcases hend with ⟨hbaddict, hend⟩ | ⟨hbaddict, message, hend⟩
        · refine .inr (.inr ⟨fun hread => ?_, ?_⟩)
          · obtain ⟨earlier, hearlier, hnot⟩ := hread.todos before bad after hlist hbaddict
            exact hnot (hbefore earlier hearlier)
          · rw [hend]
            rfl
        · refine .inr (.inl ⟨⟨hdict, fun before' todo after' hsplit htodo => ?_⟩, hbroken,
            message, ?_⟩)
          · have h := Json.arr.inj (Option.some.inj (hlist.symm.trans hsplit))
            exact ⟨bad, mem_of_split hbefore hbaddict htodo h, hbad⟩
          · rw [hend]
            rfl
    | _ =>
      refine .inr (.inl ⟨⟨hdict, fun before todo after hlist => ?_⟩, ?_,
        "todos must be a list", ?_⟩)
      · rw [hlist] at htodos
        cases htodos
      · rintro ⟨todos, hup⟩
        rw [hup.list] at htodos
        cases htodos
      · rw [validateBoulderSnapshot, dictGet_of_isDict hdict, htodos]
        rfl

/-! What the supervisor hands out. -/

structure LoopRow extends InstanceLoopState where
  boulderSnapshot : Option Value

/-- An API error, or one that no handler catches. -/
inductive CaptureFailure where
  | eyot (e : EyotError)
  | attributeError

def loopStateNotFound (instanceId : Id) : EyotError :=
  NotFoundError "loop_state.not_found" "errors.loop_state.not_found"
    s!"No InstanceLoopState for instance '{instanceId}'"

def snapshotInvalid (message : String) : EyotError :=
  ValidationError "snapshot.invalid" "errors.snapshot.invalid"
    s!"boulder_snapshot validation failed: {message}"

def getStateOr404 (rows : List LoopRow) (instanceId : Id) : Except CaptureFailure LoopRow :=
  match rows.find? fun row => isActiveState instanceId row.toInstanceLoopState with
  | some state => .ok state
  | none => .error (.eyot (loopStateNotFound instanceId))

/-- `state.boulder_snapshot or {}` -/
def snapshotOf (stored : Option Value) : Value := (Composer.whenTrue stored).getD (.obj [])

def captureSnapshot (rows : List LoopRow) (registry : Registry) (instanceId : Id) (now : Time) :
    Except CaptureFailure (Value × Int × Time) := do
  let state ← getStateOr404 rows instanceId
  let snapshot := snapshotOf state.boulderSnapshot
  match validateBoulderSnapshot repr snapshot with
  | .error (.todoEnforcerError message) => .error (.eyot (snapshotInvalid message))
  | .error .attributeError => .error .attributeError
  | .ok () => .ok (snapshot, (registry.get instanceId).continuationCount, now)

/-- The validation of a stored snapshot is exact and total, and so is what the capture answers. -/
structure Exact (stored : Option Value) : Prop where
  raises : (∃ message, validateBoulderSnapshot repr (snapshotOf stored) =
    .error (.todoEnforcerError message)) ↔ ¬∃ todos, Upheld (snapshotOf stored) todos
  nothingElse : ∀ e, validateBoulderSnapshot repr (snapshotOf stored) = .error e →
    ∃ message, e = .todoEnforcerError message
  answers : ∀ rows registry instanceId now state,
    getStateOr404 rows instanceId = .ok state → state.boulderSnapshot = stored →
    captureSnapshot repr rows registry instanceId now =
        .ok (snapshotOf stored, (registry.get instanceId).continuationCount, now) ∨
      ∃ message, captureSnapshot repr rows registry instanceId now =
        .error (.eyot (snapshotInvalid message))

theorem captureSnapshot_eq {rows : List LoopRow} {instanceId : Id} {state : LoopRow}
    (hstate : getStateOr404 rows instanceId = .ok state) (registry : Registry) (now : Time) :
    captureSnapshot repr rows registry instanceId now =
      match validateBoulderSnapshot repr (snapshotOf state.boulderSnapshot) with
      | .error (.todoEnforcerError message) => .error (.eyot (snapshotInvalid message))
      | .error .attributeError => .error .attributeError
      | .ok () =>
        .ok (snapshotOf state.boulderSnapshot, (registry.get instanceId).continuationCount,
          now) := by
  rw [captureSnapshot, hstate]
  rfl

/-- A stored snapshot is answered as it should be exactly when the enforcer can read it. -/
theorem snapshot_exact_iff (stored : Option Value) :
    Exact repr stored ↔ Readable (snapshotOf stored) := by
  rcases validateBoulderSnapshot_cases repr (snapshotOf stored) with
    ⟨hread, hup, hvalidate⟩ | ⟨hread, hbroken, message, hvalidate⟩ | ⟨hread, hvalidate⟩
  · refine iff_of_true ⟨?_, ?_, ?_⟩ hread
    · rw [hvalidate]
      exact iff_of_false (by rintro ⟨message, ⟨⟩⟩) (not_not.mpr hup)
    · rw [hvalidate]
      nofun
    · rintro rows registry instanceId now state hstate rfl
      left
      rw [captureSnapshot_eq repr hstate, hvalidate]
  · refine iff_of_true ⟨?_, ?_, ?_⟩ hread
    · exact iff_of_true ⟨message, hvalidate⟩ hbroken
    · intro e he
      rw [hvalidate] at he
      exact ⟨message, (Except.error.inj he).symm⟩
    · rintro rows registry instanceId now state hstate rfl
      right
      exact ⟨message, by rw [captureSnapshot_eq repr hstate, hvalidate]⟩
  · refine iff_of_false (fun hexact => ?_) hread
    obtain ⟨message, he⟩ := hexact.nothingElse _ hvalidate
    cases he

/-- `{"todos": ["write tests"]}` -/
def plainTodo : Value := .obj [(py "todos", .arr [.str (py "write tests")])]

theorem not_exact_plainTodo : ¬∀ stored, Exact (fun _ => "") stored := by
  intro hexact
  have hvalidate : validateBoulderSnapshot (fun _ => "") (snapshotOf (some plainTodo)) =
      .error .attributeError := rfl
  obtain ⟨message, he⟩ := (hexact (some plainTodo)).nothingElse _ hvalidate
  cases he

end

end Eyot.Harness
