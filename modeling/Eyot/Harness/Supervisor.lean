import Eyot.Routing.DirectiveRouter
import Eyot.Library.Run
import Mathlib.Logic.Function.Basic

/-! The harness supervisor: the loop metrics it keeps in memory, the circuit breakers that read
them, and the handlers of the harness events. -/

namespace Eyot.Harness

open Function (update)

structure InstanceLoopMetrics where
  continuationCount : Int
  tokenEstimate : Int
  wallClockStarted : Option Time
  lastCheckpointAt : Option Time
  deriving DecidableEq

namespace InstanceLoopMetrics

def zero : InstanceLoopMetrics := ⟨0, 0, none, none⟩

def started (now : Time) : InstanceLoopMetrics := { zero with wallClockStarted := some now }

def checkpoint (m : InstanceLoopMetrics) (tokenEstimate : Int) (now : Time) :
    InstanceLoopMetrics :=
  { m with
    continuationCount := m.continuationCount + 1
    tokenEstimate := m.tokenEstimate + tokenEstimate
    lastCheckpointAt := some now }

def seen (m : InstanceLoopMetrics) (now : Time) : InstanceLoopMetrics :=
  { m with lastCheckpointAt := some now }

end InstanceLoopMetrics

open InstanceLoopMetrics (zero)

structure BreakerConfig where
  maxContinuations : Int
  maxWallClockSeconds : Int
  maxTokenEstimate : Int
  idleTimeoutSeconds : Int
  deriving DecidableEq

inductive TripReason where
  | maxContinuations | tokenBudget | wallClock | idleTimeout
  deriving DecidableEq

/-- `(now - since).total_seconds() >= seconds`; a time counts microseconds, as a `datetime` does. -/
def lasted (since now : Time) (seconds : Int) : Bool := seconds * 1000000 ≤ (now : Int) - since

/-- The first breaker that trips, in the documented order. -/
def checkBreakers (metrics : InstanceLoopMetrics) (config : BreakerConfig) (now : Time) :
    Option TripReason :=
  if config.maxContinuations ≤ metrics.continuationCount then some .maxContinuations
  else if config.maxTokenEstimate ≤ metrics.tokenEstimate then some .tokenBudget
  else if metrics.wallClockStarted.any fun t => lasted t now config.maxWallClockSeconds then
    some .wallClock
  else if metrics.lastCheckpointAt.any fun t => lasted t now config.idleTimeoutSeconds then
    some .idleTimeout
  else none

/-- `supervisor._registry`. -/
abbrev Registry := Id → Option InstanceLoopMetrics

namespace Registry

def get (registry : Registry) (instanceId : Id) : InstanceLoopMetrics :=
  (registry instanceId).getD zero

def pop (registry : Registry) (instanceId : Id) : Registry := update registry instanceId none

def put (registry : Registry) (instanceId : Id) (m : InstanceLoopMetrics) : Registry :=
  update registry instanceId (some m)

@[simp] theorem pop_self (registry : Registry) (i : Id) : registry.pop i i = none :=
  Function.update_self _ _ _

@[simp] theorem put_self (registry : Registry) (i : Id) (m : InstanceLoopMetrics) :
    registry.put i m i = some m :=
  Function.update_self _ _ _

theorem pop_of_ne (registry : Registry) {i j : Id} (h : j ≠ i) : registry.pop i j = registry j :=
  Function.update_of_ne h _ _

theorem put_of_ne (registry : Registry) {i j : Id} (h : j ≠ i) (m : InstanceLoopMetrics) :
    registry.put i m j = registry j :=
  Function.update_of_ne h _ _

end Registry

def handleLoopStarted (registry : Registry) (instanceId : Id) (now : Time) : Registry :=
  registry.put instanceId (.started now)

def handleContinuationInjected (registry : Registry) (instanceId : Id) (now : Time) : Registry :=
  match registry instanceId with
  | some metrics => registry.put instanceId (metrics.seen now)
  | none => registry

def handleLoopStopped (registry : Registry) (instanceId : Id) : Registry := registry.pop instanceId

/-- `_check_breakers`. A trip has emitted `harness.loop_stopped` by the time the entry is dropped
here, and so has dropped it once already. -/
def checkRegistered (registry : Registry) (config : Option BreakerConfig) (instanceId : Id)
    (now : Time) : Registry × Option TripReason :=
  match registry instanceId, config with
  | some metrics, some config =>
    match checkBreakers metrics config now with
    | some reason => ((handleLoopStopped registry instanceId).pop instanceId, some reason)
    | none => (registry, none)
  | _, _ => (registry, none)

/-- The checkpoint is stamped at `stamp`; the breakers are looked at once their configuration has
been read, at `now`. -/
def handleCheckpoint (registry : Registry) (config : Option BreakerConfig) (instanceId : Id)
    (tokenEstimate : Int) (stamp now : Time) : Registry × Option TripReason :=
  checkRegistered
    (registry.put instanceId ((registry.get instanceId).checkpoint tokenEstimate stamp)) config
    instanceId now

theorem handleCheckpoint_eq (registry : Registry) (config : Option BreakerConfig) (i : Id)
    (tokens : Int) (stamp now : Time) :
    handleCheckpoint registry config i tokens stamp now =
      let metrics := (registry.get i).checkpoint tokens stamp
      match config.bind fun c => checkBreakers metrics c now with
      | some reason => (registry.pop i, some reason)
      | none => (registry.put i metrics, none) := by
  simp only [handleCheckpoint, checkRegistered, Registry.put_self, handleLoopStopped]
  cases config with
  | none => rfl
  | some c =>
    simp only [Option.bind_some]
    cases checkBreakers ((registry.get i).checkpoint tokens stamp) c now with
    | none => rfl
    | some reason => simp [Registry.pop, Registry.put]

/-- What a handler of the events of one instance leaves of the others. -/
theorem handleCheckpoint_of_ne (registry : Registry) (config : Option BreakerConfig) {i j : Id}
    (h : j ≠ i) (tokens : Int) (stamp now : Time) :
    (handleCheckpoint registry config i tokens stamp now).1 j = registry j := by
  rw [handleCheckpoint_eq]
  dsimp only
  split
  · exact registry.pop_of_ne h
  · exact registry.put_of_ne h _

/-- The columns of a loop state that the router does not look at. -/
structure LoopColumns where
  continuationCount : Int
  totalTokenEstimate : Int
  wallClockStartedAt : Option Time
  lastCheckpointAt : Option Time
  config : BreakerConfig

namespace LoopColumns

def metrics (c : LoopColumns) : InstanceLoopMetrics :=
  ⟨c.continuationCount, c.totalTokenEstimate, c.wallClockStartedAt, c.lastCheckpointAt⟩

/-- A new row, with the column defaults for all it counts. -/
def fresh (config : BreakerConfig) : LoopColumns := ⟨0, 0, none, none, config⟩

def defaultConfig : BreakerConfig := ⟨50, 3600, 100000, 300⟩

end LoopColumns

/-- `columns` is read by the id of the row. -/
structure World where
  db : Db
  columns : Id → LoopColumns
  registry : Registry
  decisions : List (Id × Option TripReason)

def start (db : Db) : World where
  db := { db with loopStates := .empty }
  columns := fun _ => .fresh LoopColumns.defaultConfig
  registry := fun _ => none
  decisions := []

def noRows : Db where
  workspaces := .empty
  entities := .empty
  instances := .empty
  memberships := .empty
  passages := .empty
  loopStates := .empty
  uniqueActiveEdge := Passage.uniqueActiveEdge_nil

def isActiveState (instanceId : Id) (s : InstanceLoopState) : Bool :=
  s.instanceId = instanceId && s.deletedAt.isNone

def isRunning (s : InstanceLoopState) : Bool := s.loopStatus = .running && s.deletedAt.isNone

def loadBreakerConfig (w : World) (instanceId : Id) : Option BreakerConfig :=
  (w.db.loopStates.rows.find? (isActiveState instanceId)).map fun s => (w.columns s.id).config

def runningStates (db : Db) : List InstanceLoopState := db.loopStates.rows.filter isRunning

/-- The registry of a new process. -/
def rehydrate (db : Db) (columns : Id → LoopColumns) : Registry :=
  (runningStates db).foldl (fun registry s => registry.put s.instanceId (columns s.id).metrics)
    fun _ => none

def restart (w : World) : World := { w with registry := rehydrate w.db w.columns }

inductive Input where
  | created (id instanceId : Id) (config : BreakerConfig)
  | loopStarted (instanceId : Id) (now : Time)
  | checkpoint (instanceId : Id) (tokenEstimate : Int) (stamp now : Time)
  | continuationInjected (instanceId : Id) (now : Time)
  | loopStopped (instanceId : Id)
  | pause (instanceId : Id)
  | resume (instanceId : Id)
  | interrupt (instanceId : Id)
  | restart

/-- A lazily created loop state; both the key and `uq_loop_states_instance` can refuse it. -/
def create (w : World) (id instanceId : Id) (config : BreakerConfig) : World :=
  if w.db.loopStates.rows.any (isActiveState instanceId) then w
  else
    match w.db.loopStates.insert? ⟨id, instanceId, .idle, none⟩ with
    | none => w
    | some loopStates =>
      { w with
        db := { w.db with loopStates := loopStates }
        columns := update w.columns id (.fresh config) }

/-- A request that fails is rolled back. -/
def settle (w : World) (r : Routing.Routed Db) (registry : Registry) : World :=
  match r.result with
  | .ok db => { w with db := db, registry := registry }
  | .error _ => w

def checkpoint (w : World) (instanceId : Id) (tokenEstimate : Int) (stamp now : Time) : World :=
  let (registry, decision) := handleCheckpoint w.registry (loadBreakerConfig w instanceId)
    instanceId tokenEstimate stamp now
  { w with registry := registry, decisions := w.decisions ++ [(instanceId, decision)] }

def step (w : World) : Input → World
  | .created id i config => create w id i config
  | .loopStarted i now => { w with registry := handleLoopStarted w.registry i now }
  | .checkpoint i tokens stamp now => checkpoint w i tokens stamp now
  | .continuationInjected i now => { w with registry := handleContinuationInjected w.registry i now }
  | .loopStopped i => { w with registry := handleLoopStopped w.registry i }
  | .pause i => settle w (Routing.handlePause w.db i) w.registry
  | .resume i => settle w (Routing.handleResume w.db i) w.registry
  | .interrupt i => settle w (Routing.handleInterrupt w.db i) (w.registry.pop i)
  | .restart => restart w

end Eyot.Harness
