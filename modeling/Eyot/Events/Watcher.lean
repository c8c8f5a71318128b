import Eyot.Data.Fnmatch
import Eyot.Data.Json
import Eyot.Library.Run
import Mathlib.Data.List.Sort

/-! The bridge between pods: the event log, the handlers `emit` calls in its own process, and the
watcher that polls the log for what other pods have written. -/

namespace Eyot.Events

structure Event where
  id : Str
  type : Str
  actorType : Str
  actorId : Option Str
  resourceType : Option Str
  resourceId : Option Str
  payload : Json Str
  requestId : Option Str

variable {H : Type}

/-- The handlers an event is given to, in the order they were registered in. -/
def dispatch (handlers : List (Str × H)) (event : Event) : List (H × Event) :=
  (handlers.filter fun h => Fnmatch.fnmatchcase event.type h.1).map fun h => (h.2, event)

/-- `_last_seen_id`: an integer at first, and whatever `max` returns after that. -/
inductive Mark where
  | number (n : Nat)
  | text (id : Str)

/-- `max(mark, event.id)`; `none` is the `TypeError` of a text against an integer. -/
def Mark.max : Mark → Str → Option Mark
  | .number _, _ => none
  | .text seen, id => some (.text (if seen < id then id else seen))

/-- What the watcher needs of the database: how a mark is bound to a `VARCHAR` parameter, if the
driver takes it at all, and the collation the ids are compared by. -/
structure Driver where
  bind : Mark → Option Str
  less : Str → Str → Bool

def Driver.query (D : Driver) (rows : List Event) (mark : Str) : List Event :=
  ((rows.filter fun e => D.less mark e.id).mergeSort fun a b => !D.less b.id a.id).take 100

/-- The pod the event was emitted in, seen from the pod the watcher runs in. -/
inductive Origin where
  | here
  | elsewhere
  deriving DecidableEq

structure Row where
  origin : Origin
  event : Event

/-- `committed` is the log in commit order and `calls` what the handlers of this process were
given. `due` counts the rows that the polls so far had time to hand over. -/
structure State (H : Type) where
  committed : List Row
  mark : Mark
  calls : List (H × Event)
  raised : Bool
  due : Nat

def start : State H := ⟨[], .number 0, [], false, 0⟩

inductive Input where
  | commit (origin : Origin) (event : Event)
  | poll

section Machine

variable (D : Driver) (handlers : List (Str × H))

/-- `emit` gives an event to the handlers of its own process; its transaction commits next. A
taken primary key makes the flush fail. -/
def commit (s : State H) (origin : Origin) (event : Event) : State H :=
  if event.id ∈ s.committed.map (·.event.id) then s
  else
    { s with
      committed := s.committed ++ [⟨origin, event⟩]
      calls := match origin with
        | .here => s.calls ++ dispatch handlers event
        | .elsewhere => s.calls }

def drain (mark : Mark) (calls : List (H × Event)) : List Event → Mark × List (H × Event) × Bool
  | [] => (mark, calls, true)
  | event :: events =>
    match mark.max event.id with
    | none => (mark, calls, false)
    | some mark => drain mark (calls ++ dispatch handlers event) events

def State.awaited (s : State H) : Nat := min (s.due + 100) s.committed.length

def pollOnce (s : State H) : State H :=
  match D.bind s.mark with
  | none => { s with raised := true, due := s.awaited }
  | some mark =>
    let (seen, calls, finished) :=
      drain handlers s.mark s.calls (D.query (s.committed.map Row.event) mark)
    { s with mark := seen, calls := calls, raised := s.raised || !finished, due := s.awaited }

def step (s : State H) : Input → State H
  | .commit origin event => commit handlers s origin event
  | .poll => pollOnce D handlers s

/-- No poll has raised, and the handlers were given, in commit order and once each, the events of
some part of the log that all polled rows are in. -/
def Bridged (s : State H) : Prop :=
  s.raised = false ∧
    ∃ n, s.due ≤ n ∧ s.calls = (s.committed.take n).flatMap fun r => dispatch handlers r.event

/-- A row that only the watcher can hand over, to a handler that wants it. -/
def Awaits (r : Row) : Prop := r.origin = .elsewhere ∧ dispatch handlers r.event ≠ []

/-- The steps that do not need the watcher. -/
def Idle (s : State H) : Input → Prop
  | .commit .elsewhere _ => True
  | .commit .here event =>
    event.id ∈ s.committed.map (·.event.id) ∨ dispatch handlers event = [] ∨
      ∀ r ∈ s.committed, ¬Awaits handlers r
  | .poll =>
    (∃ mark, D.bind (.number 0) = some mark ∧ ∀ r ∈ s.committed, D.less mark r.event.id = false) ∧
      ∀ r ∈ s.committed.take s.awaited, ¬Awaits handlers r

end Machine

variable {D : Driver} {handlers : List (Str × H)}

def ours (handlers : List (Str × H)) (rows : List Row) : List (H × Event) :=
  (rows.filter fun r => r.origin = .here).flatMap fun r => dispatch handlers r.event

theorem eq_of_mem_dispatch {c : H × Event} {event : Event} (h : c ∈ dispatch handlers event) :
    c.2 = event := by
  obtain ⟨_, _, rfl⟩ := List.mem_map.mp h
  rfl

theorem ours_append (rows rows' : List Row) :
    ours handlers (rows ++ rows') = ours handlers rows ++ ours handlers rows' := by
  rw [ours, List.filter_append, List.flatMap_append]
  rfl

theorem ours_eq_nil {rows : List Row} :
    ours handlers rows = [] ↔
      ∀ r ∈ rows, r.origin = .here → dispatch handlers r.event = [] := by
  simp [ours, List.flatMap_eq_nil_iff]

/-- Where no row needs the watcher, this pod has seen all there was for its handlers. -/
theorem ours_of_not_awaits {rows : List Row} (h : ∀ r ∈ rows, ¬Awaits handlers r) :
    ours handlers rows = rows.flatMap fun r => dispatch handlers r.event := by
  induction rows with
  | nil => rfl
  | cons r rows ih =>
    obtain ⟨hr, hrows⟩ := List.forall_mem_cons.mp h
    have hhead : ours handlers [r] = dispatch handlers r.event := by
      cases ho : r.origin with
      | here => simp [ours, ho]
      | elsewhere =>
        have : dispatch handlers r.event = [] := by
          by_contra hne
          exact hr ⟨ho, hne⟩
        simp [ours, ho, this]
    calc ours handlers (r :: rows) = ours handlers [r] ++ ours handlers rows :=
          ours_append [r] rows
      _ = dispatch handlers r.event ++ rows.flatMap fun r => dispatch handlers r.event := by
          rw [hhead, ih hrows]

/-- What holds of the watcher as long as nothing has needed it. -/
structure Untouched (handlers : List (Str × H)) (s : State H) : Prop where
  mark : s.mark = .number 0
  calls : s.calls = ours handlers s.committed
  due : s.due ≤ s.committed.length
  ids : (s.committed.map (·.event.id)).Nodup

theorem untouched_start : Untouched handlers (start (H := H)) where
  mark := rfl
  calls := rfl
  due := Nat.zero_le _
  ids := List.nodup_nil

theorem not_awaits_of_calls {s : State H} (hs : Untouched handlers s) {n : Nat}
    (h : s.calls = (s.committed.take n).flatMap fun r => dispatch handlers r.event) :
    ∀ r ∈ s.committed.take n, ¬Awaits handlers r := by
  rintro r hr ⟨ho, hne⟩
  obtain ⟨c, hc⟩ := List.exists_mem_of_ne_nil _ hne
  have hcalled : c ∈ s.calls := by
    rw [h]
    exact List.mem_flatMap.mpr ⟨r, hr, hc⟩
  rw [hs.calls, ours, List.mem_flatMap] at hcalled
  obtain ⟨r', hr', hc'⟩ := hcalled
  rw [List.mem_filter, decide_eq_true_eq] at hr'
  have hevent : r'.event = r.event := (eq_of_mem_dispatch hc').symm.trans (eq_of_mem_dispatch hc)
  have heq : r' = r :=
    List.inj_on_of_nodup_map hs.ids hr'.1 (List.mem_of_mem_take hr) (congrArg Event.id hevent)
  rw [← heq, hr'.2] at ho
  cases ho

theorem bridged_iff {s : State H} (hs : Untouched handlers s) :
    Bridged handlers s ↔ s.raised = false ∧ ∃ n, s.due ≤ n ∧
      (∀ r ∈ s.committed.take n, ¬Awaits handlers r) ∧ ours handlers (s.committed.drop n) = [] := by
  have hsplit : ∀ n, s.calls =
      ours handlers (s.committed.take n) ++ ours handlers (s.committed.drop n) := by
    intro n
    rw [hs.calls, ← ours_append, List.take_append_drop]
  apply and_congr_right
  intro _
  apply exists_congr
  intro n
  apply and_congr_right
  intro _
  constructor
  · intro h
    have hnot := not_awaits_of_calls hs h
    refine ⟨hnot, ?_⟩
    rw [hsplit n, ours_of_not_awaits hnot] at h
    exact List.append_right_eq_self.mp h
  · rintro ⟨hnot, hrest⟩
    rw [hsplit n, hrest, ours_of_not_awaits hnot, List.append_nil]

theorem commit_taken {s : State H} {origin : Origin} {event : Event}
    (h : event.id ∈ s.committed.map (·.event.id)) : commit handlers s origin event = s :=
  if_pos h

theorem commit_new {s : State H} {origin : Origin} {event : Event}
    (h : event.id ∉ s.committed.map (·.event.id)) :
    commit handlers s origin event =
      { s with
        committed := s.committed ++ [⟨origin, event⟩]
        calls := s.calls ++ ours handlers [⟨origin, event⟩] } := by
  unfold commit
  rw [if_neg h]
  cases origin with
  | here => simp [ours]
  | elsewhere => simp [ours]

theorem untouched_commit {s : State H} (hs : Untouched handlers s) (origin : Origin)
    (event : Event) : Untouched handlers (commit handlers s origin event) := by
  by_cases hid : event.id ∈ s.committed.map (·.event.id)
  · rw [commit_taken hid]
    exact hs
  · rw [commit_new hid]
    refine ⟨hs.mark, ?_, ?_, ?_⟩
    · rw [ours_append, ← hs.calls]
    · rw [List.length_append]
      exact Nat.le_add_right_of_le hs.due
    · rw [List.map_append, List.map_singleton, ← List.concat_eq_append,
        List.nodup_concat]
      exact ⟨hid, hs.ids⟩

/-- A row behind the part that has been handed over leaves this part as it is. -/
theorem bridged_snoc {s s' : State H} (hs : Untouched handlers s) (hs' : Untouched handlers s')
    (hb : Bridged handlers s) (hraised : s'.raised = s.raised) (hdue : s'.due = s.due) {r : Row}
    (hrows : s'.committed = s.committed ++ [r]) (hr : ours handlers [r] = []) :
    Bridged handlers s' := by
  obtain ⟨hnot, n, hn, htake, hdrop⟩ := (bridged_iff hs).mp hb
  rw [bridged_iff hs']
  refine ⟨hraised.trans hnot, min n s.committed.length, ?_, ?_, ?_⟩
  · rw [hdue]
    exact Nat.le_min.mpr ⟨hn, hs.due⟩
  · rw [hrows, List.take_append_of_le_length (Nat.min_le_right _ _), ← List.take_eq_take_min]
    exact htake
  · rw [hrows, List.drop_append_of_le_length (Nat.min_le_right _ _), ours_append, hr,
      ← List.drop_eq_drop_min, hdrop]
    rfl

theorem bridged_commit {s : State H} (hs : Untouched handlers s) (hb : Bridged handlers s)
    (origin : Origin) (event : Event) :
    Bridged handlers (commit handlers s origin event) ↔
      Idle D handlers s (.commit origin event) := by
  have hs' := untouched_commit hs origin event
  by_cases hid : event.id ∈ s.committed.map (·.event.id)
  · rw [commit_taken hid]
    cases origin with
    | here => exact iff_of_true hb (.inl hid)
    | elsewhere => exact iff_of_true hb trivial
  · have hrows : (commit handlers s origin event).committed = s.committed ++ [⟨origin, event⟩] := by
      rw [commit_new hid]
    have hraised : (commit handlers s origin event).raised = s.raised := by
      rw [commit_new hid]
    have hdue : (commit handlers s origin event).due = s.due := by
      rw [commit_new hid]
    cases origin with
    | elsewhere =>
      exact iff_of_true (bridged_snoc hs hs' hb hraised hdue hrows rfl) trivial
    | here =>
      constructor
      · intro h
        obtain ⟨-, n, -, htake, hdrop⟩ := (bridged_iff hs').mp h
        rw [hrows] at htake hdrop
        refine .inr (or_iff_not_imp_left.mpr fun hne r hr => ?_)
        -- the new row has handlers, so the part handed over reaches behind it
        have hn : s.committed.length < n := by
          by_contra hle
          rw [List.drop_append_of_le_length (Nat.le_of_not_lt hle), ours_append,
            List.append_eq_nil_iff] at hdrop
          exact hne (ours_eq_nil.mp hdrop.2 _ (List.mem_singleton_self _) rfl)
        apply htake r
        rw [List.take_of_length_le (by rw [List.length_append]; exact hn)]
        exact List.mem_append_left _ hr
      · rintro (h | h | h)
        · exact absurd h hid
        · exact bridged_snoc hs hs' hb hraised hdue hrows (ours_eq_nil.mpr (by simpa using h))
        · rw [bridged_iff hs', hraised, hrows, hdue]
          refine ⟨hb.1, s.committed.length + 1, Nat.le_succ_of_le hs.due, ?_, ?_⟩
          · intro r hr
            obtain hr | hr := List.mem_append.mp (List.mem_of_mem_take hr)
            · exact h r hr
            · rw [List.mem_singleton.mp hr]
              exact fun ha => nomatch ha.1
          · rw [List.drop_of_length_le (by simp)]
            rfl

theorem drain_number (n : Nat) (calls : List (H × Event)) (events : List Event) :
    drain handlers (.number n) calls events = (.number n, calls, events.isEmpty) := by
  cases events with
  | nil => rfl
  | cons event events => rfl

theorem query_isEmpty {rows : List Row} {mark : Str} :
    (D.query (rows.map Row.event) mark).isEmpty = true ↔
      ∀ r ∈ rows, D.less mark r.event.id = false := by
  have hlimit : (100 : Nat) ≠ 0 := by decide
  rw [List.isEmpty_iff, Driver.query, List.take_eq_nil_iff, or_iff_right hlimit,
    ← List.length_eq_zero_iff, List.length_mergeSort, List.length_eq_zero_iff,
    List.filter_eq_nil_iff]
  simp

theorem pollOnce_untouched {s : State H} (hs : Untouched handlers s) :
    pollOnce D handlers s =
      match D.bind (.number 0) with
      | none => { s with raised := true, due := s.awaited }
      | some mark =>
        { s with
          raised := s.raised || !(D.query (s.committed.map Row.event) mark).isEmpty
          due := s.awaited } := by
  rw [pollOnce, ← hs.mark]
  cases D.bind s.mark with
  | none => rfl
  | some mark =>
    have hdrain : ∀ events,
        drain handlers s.mark s.calls events = (s.mark, s.calls, events.isEmpty) := by
      rw [hs.mark]
      exact drain_number 0 s.calls
    simp only [hdrain]

theorem untouched_pollOnce {s : State H} (hs : Untouched handlers s) :
    Untouched handlers (pollOnce D handlers s) := by
  rw [pollOnce_untouched hs]
  cases D.bind (.number 0) with
  | none => exact ⟨hs.mark, hs.calls, Nat.min_le_right _ _, hs.ids⟩
  | some mark => exact ⟨hs.mark, hs.calls, Nat.min_le_right _ _, hs.ids⟩

theorem bridged_pollOnce {s : State H} (hs : Untouched handlers s) (hb : Bridged handlers s) :
    Bridged handlers (pollOnce D handlers s) ↔ Idle D handlers s .poll := by
  rw [bridged_iff (untouched_pollOnce hs), pollOnce_untouched hs]
  obtain ⟨hnot, n, hn, htake, hdrop⟩ := (bridged_iff hs).mp hb
  simp only [Idle]
  cases D.bind (.number 0) with
  | none => simp
  | some mark =>
    simp only [hnot, Bool.false_or, Bool.not_eq_false', query_isEmpty, Option.some.injEq,
      exists_eq_left']
    apply and_congr_right
    intro _
    constructor
    · rintro ⟨k, hk, htake', -⟩ r hr
      exact htake' r (List.take_subset_take_left _ hk hr)
    · intro h
      refine ⟨max n s.awaited, Nat.le_max_right _ _, ?_, ?_⟩
      · intro r hr
        obtain hmax | hmax := max_choice n s.awaited
        · exact htake r (hmax ▸ hr)
        · exact h r (hmax ▸ hr)
      · rw [ours_eq_nil] at hdrop ⊢
        intro r hr
        exact hdrop r (List.drop_subset_drop_left _ (Nat.le_max_left _ _) hr)

/-- The bridge holds up to the first step that needs the watcher at all. -/
theorem always_bridged_iff (D : Driver) (handlers : List (Str × H)) (is : List Input) :
    Run.Always (step D handlers) (Bridged handlers) start is ↔
      Run.Meets (step D handlers) (Idle D handlers) start is := by
  have hbridged : ∀ s i, Untouched handlers s → Bridged handlers s →
      (Bridged handlers (step D handlers s i) ↔ Idle D handlers s i) := by
    intro s i hs hb
    cases i with
    | commit origin event => exact bridged_commit hs hb origin event
    | poll => exact bridged_pollOnce hs hb
  apply Run.always_iff_meets _ hbridged untouched_start ⟨rfl, 0, Nat.le_refl _, rfl⟩
  intro s i hs
  cases i with
  | commit origin event => exact untouched_commit hs origin event
  | poll => exact untouched_pollOnce hs

def checkpointEvent : Event where
  id := "3f2504e0-4f89-41d3-9a0c-0305e82c3301".toList
  type := "harness.checkpoint".toList
  actorType := "system".toList
  actorId := none
  resourceType := none
  resourceId := none
  payload := .obj []
  requestId := none

/-- What the application has registered once it is up. -/
def registered : List (Str × String) :=
  [("harness.*".toList, "_on_harness_event"),
    ("messaging.activation_triggered".toList, "on_activation_triggered")]

/-- One event of another pod is enough, with any driver: either the poll raises, or it passes the
event over. -/
theorem not_always_bridged :
    ¬∃ D : Driver, Run.Always (step D registered) (Bridged registered) start
      [.commit .elsewhere checkpointEvent, .poll] := by
  rintro ⟨D, h⟩
  have hs : Untouched registered (step D registered start (.commit .elsewhere checkpointEvent)) :=
    untouched_commit untouched_start _ _
  have hidle := (bridged_pollOnce hs h.2.start).mp h.exec
  refine hidle.2 ⟨.elsewhere, checkpointEvent⟩ (List.mem_singleton_self _) ⟨rfl, ?_⟩
  decide

end Eyot.Events
