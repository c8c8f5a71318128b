import Eyot.Harness.Supervisor

/-! What a new supervisor process knows of the loops that were running under the old one. -/

namespace Eyot.Harness

open InstanceLoopMetrics (zero)

def decisionsOf (instanceId : Id) (w : World) : List (Id × Option TripReason) :=
  w.decisions.filter fun d => d.1 = instanceId

/-- For each running loop, the metrics after the restart are those before, and so are the decisions
of the breakers in every run from there on. -/
def Survives (w : World) : Prop :=
  ∀ s ∈ runningStates w.db,
    (restart w).registry.get s.instanceId = w.registry.get s.instanceId ∧
      ∀ later, decisionsOf s.instanceId (Run.exec step (restart w) later) =
        decisionsOf s.instanceId (Run.exec step w later)

/-- The supervisor has counted nothing for a running loop yet. -/
def Uncounted (w : World) : Prop :=
  ∀ s ∈ runningStates w.db, ∀ metrics, w.registry s.instanceId = some metrics → metrics = zero

/-- No handler writes the counters of a row. -/
def Unwritten (w : World) : Prop := ∀ id, (w.columns id).metrics = zero

theorem unwritten_start (db : Db) : Unwritten (start db) := fun _ => rfl

theorem unwritten_create {w : World} (h : Unwritten w) (id instanceId : Id)
    (config : BreakerConfig) : Unwritten (create w id instanceId config) := by
  unfold create
  split
  · exact h
  · split
    · exact h
    · intro k
      change (Function.update w.columns id (.fresh config) k).metrics = zero
      by_cases hk : k = id
      · rw [hk, Function.update_self]
        rfl
      · rw [Function.update_of_ne hk]
        exact h k

theorem settle_columns (w : World) (r : Routing.Routed Db) (registry : Registry) :
    (settle w r registry).columns = w.columns := by
  unfold settle
  split <;> rfl

theorem unwritten_step {w : World} (h : Unwritten w) (i : Input) : Unwritten (step w i) := by
  cases i with
  | created id instanceId config => exact unwritten_create h id instanceId config
  | pause i | resume i | interrupt i =>
    rw [step, Unwritten, settle_columns]
    exact h
  | loopStarted | checkpoint | continuationInjected | loopStopped | restart => exact h

theorem unwritten_exec (db : Db) (is : List Input) : Unwritten (Run.exec step (start db) is) :=
  (Run.always_of_step (q := Unwritten) (fun _ i h => unwritten_step h i) (unwritten_start db)
    is).exec

theorem foldl_put_zero {columns : Id → LoopColumns} (h : ∀ id, (columns id).metrics = zero)
    (rows : List InstanceLoopState) (registry : Registry) (i : Id) :
    rows.foldl (fun registry s => registry.put s.instanceId (columns s.id).metrics) registry i =
      if i ∈ rows.map InstanceLoopState.instanceId then some zero else registry i := by
  induction rows generalizing registry with
  | nil => simp
  | cons s rows ih =>
    rw [List.foldl_cons, ih, List.map_cons, h]
    by_cases hs : i = s.instanceId
    · simp [hs]
    · simp [hs, registry.put_of_ne hs]

/-- So a new process starts every running loop from zero. -/
theorem rehydrate_running {w : World} (h : Unwritten w) {s : InstanceLoopState}
    (hs : s ∈ runningStates w.db) : (restart w).registry s.instanceId = some zero := by
  calc (restart w).registry s.instanceId
      = if s.instanceId ∈ (runningStates w.db).map InstanceLoopState.instanceId then some zero
          else none := foldl_put_zero h _ _ _
    _ = some zero := if_pos (List.mem_map_of_mem hs)

theorem get_eq_zero_iff {registry : Registry} {i : Id} :
    registry.get i = zero ↔ ∀ metrics, registry i = some metrics → metrics = zero := by
  rw [Registry.get]
  cases registry i with
  | none => simp
  | some m => simp

/-- Two supervisors that differ, for one instance, at most in whether it has an entry and in when
it was last seen. Both are overwritten before the next decision. -/
structure Alike (i : Id) (w w' : World) : Prop where
  db : w.db = w'.db
  columns : w.columns = w'.columns
  decisions : decisionsOf i w = decisionsOf i w'
  metrics : ∀ now, (w.registry.get i).seen now = (w'.registry.get i).seen now

theorem alike_of_registry {i : Id} {w w' : World} (h : Alike i w w') {registry registry' : Registry}
    (hmetrics : ∀ now, (registry.get i).seen now = (registry'.get i).seen now) :
    Alike i { w with registry := registry } { w' with registry := registry' } :=
  ⟨h.db, h.columns, h.decisions, hmetrics⟩

theorem checkpoint_seen (m : InstanceLoopMetrics) (tokens : Int) (stamp : Time) :
    m.checkpoint tokens stamp = (m.seen stamp).checkpoint tokens stamp := rfl

theorem seen_continuationInjected (registry : Registry) (i j : Id) (at_ now : Time) :
    ((handleContinuationInjected registry j at_).get i).seen now = (registry.get i).seen now := by
  unfold handleContinuationInjected
  by_cases hij : i = j
  · subst hij
    cases h : registry i with
    | none => rfl
    | some m =>
      simp only [Registry.get, Registry.put_self, h]
      rfl
  · cases registry j with
    | none => rfl
    | some m => simp only [Registry.get, Registry.put_of_ne _ hij]

theorem alike_settle {i : Id} {w w' : World} (h : Alike i w w') (r : Routing.Routed Db)
    {registry registry' : Registry}
    (hmetrics : ∀ now, (registry.get i).seen now = (registry'.get i).seen now) :
    Alike i (settle w r registry) (settle w' r registry') := by
  unfold settle
  cases r.result with
  | ok db => exact ⟨rfl, h.columns, h.decisions, hmetrics⟩
  | error e => exact h

theorem loadBreakerConfig_congr {i : Id} {w w' : World} (h : Alike i w w') (j : Id) :
    loadBreakerConfig w j = loadBreakerConfig w' j := by
  rw [loadBreakerConfig, loadBreakerConfig, h.db, h.columns]

theorem seen_update_congr {i : Id} {registry registry' : Registry} (j : Id)
    (e : Option InstanceLoopMetrics)
    (h : ∀ now, (registry.get i).seen now = (registry'.get i).seen now) (now : Time) :
    (Registry.get (Function.update registry j e) i).seen now =
      (Registry.get (Function.update registry' j e) i).seen now := by
  by_cases hij : i = j
  · subst hij
    simp only [Registry.get, Function.update_self]
  · simp only [Registry.get, Function.update_of_ne hij]
    exact h now

theorem alike_checkpoint {i : Id} {w w' : World} (h : Alike i w w') (j : Id) (tokens : Int)
    (stamp now : Time) :
    Alike i (checkpoint w j tokens stamp now) (checkpoint w' j tokens stamp now) := by
  have hconfig := loadBreakerConfig_congr h j
  by_cases hij : i = j
  · subst hij
    have hm : (w.registry.get i).checkpoint tokens stamp =
        (w'.registry.get i).checkpoint tokens stamp := by
      rw [checkpoint_seen, h.metrics stamp, ← checkpoint_seen]
    refine ⟨h.db, h.columns, ?_, ?_⟩
    · simp only [checkpoint, decisionsOf, List.filter_append, handleCheckpoint_eq, hconfig, hm]
      rw [show w.decisions.filter _ = w'.decisions.filter _ from h.decisions]
      cases loadBreakerConfig w' i |>.bind fun c =>
        checkBreakers ((w'.registry.get i).checkpoint tokens stamp) c now with
      | none => rfl
      | some r => rfl
    · intro t
      simp only [checkpoint, handleCheckpoint_eq, hconfig, hm]
      cases loadBreakerConfig w' i |>.bind fun c =>
        checkBreakers ((w'.registry.get i).checkpoint tokens stamp) c now with
      | none => simp [Registry.get]
      | some r => simp [Registry.get]
  · have hji : ¬j = i := fun e => hij e.symm
    refine ⟨h.db, h.columns, ?_, ?_⟩
    · simp only [checkpoint, decisionsOf, List.filter_append, List.filter_singleton, hji,
        decide_false, cond_false, List.append_nil]
      exact h.decisions
    · intro t
      simp only [checkpoint, Registry.get, handleCheckpoint_of_ne _ _ hij]
      exact h.metrics t

theorem alike_create {i : Id} {w w' : World} (h : Alike i w w') (id j : Id)
    (config : BreakerConfig) : Alike i (create w id j config) (create w' id j config) := by
  unfold create
  rw [h.db]
  split
  · exact h
  · split
    · exact h
    · exact ⟨rfl, by rw [h.columns], h.decisions, h.metrics⟩

theorem alike_step {i : Id} {w w' : World} (h : Alike i w w') (input : Input) :
    Alike i (step w input) (step w' input) := by
  cases input with
  | created id j config => exact alike_create h id j config
  | loopStarted j now =>
    exact alike_of_registry h (seen_update_congr j (some (.started now)) h.metrics)
  | checkpoint j tokens stamp now => exact alike_checkpoint h j tokens stamp now
  | continuationInjected j now =>
    refine alike_of_registry h fun t => ?_
    rw [seen_continuationInjected, seen_continuationInjected]
    exact h.metrics t
  | loopStopped j => exact alike_of_registry h (seen_update_congr j none h.metrics)
  | pause j =>
    rw [step, step, h.db]
    exact alike_settle h _ h.metrics
  | resume j =>
    rw [step, step, h.db]
    exact alike_settle h _ h.metrics
  | interrupt j =>
    rw [step, step, h.db]
    exact alike_settle h _ (seen_update_congr j none h.metrics)
  | restart =>
    refine alike_of_registry h fun t => ?_
    rw [h.db, h.columns]

theorem alike_exec {i : Id} {w w' : World} (h : Alike i w w') (later : List Input) :
    Alike i (Run.exec step w later) (Run.exec step w' later) := by
  induction later generalizing w w' with
  | nil => exact h
  | cons input later ih => exact ih (alike_step h input)

/-- A restart goes unnoticed exactly where there was nothing to lose. -/
theorem survives_iff_uncounted (db : Db) (is : List Input) :
    Survives (Run.exec step (start db) is) ↔ Uncounted (Run.exec step (start db) is) := by
  have hun := unwritten_exec db is
  generalize Run.exec step (start db) is = w at hun ⊢
  apply forall_congr'
  intro s
  apply forall_congr'
  intro hs
  have hzero : (restart w).registry.get s.instanceId = zero := by
    rw [Registry.get, rehydrate_running hun hs, Option.getD_some]
  rw [← get_eq_zero_iff, hzero]
  constructor
  · rintro ⟨h, -⟩
    exact h.symm
  · intro h
    refine ⟨h.symm, fun later => ?_⟩
    have halike : Alike s.instanceId (restart w) w :=
      ⟨rfl, rfl, rfl, fun now => by rw [hzero, h]⟩
    exact (alike_exec halike later).decisions

/-- A loop that has used up more than half of its tokens. -/
def halfSpent : List Input :=
  [.created "s" "i" LoopColumns.defaultConfig, .resume "i", .loopStarted "i" 0,
    .checkpoint "i" 60000 1 1]

/-- With as many tokens again it trips, but not after a restart. -/
theorem not_survives_halfSpent : ¬Survives (Run.exec step (start noRows) halfSpent) := by
  intro h
  have hdecisions := (h ⟨"s", "i", .running, none⟩ (by decide)).2 [.checkpoint "i" 60000 2 2]
  exact absurd hdecisions (by decide)

end Eyot.Harness
