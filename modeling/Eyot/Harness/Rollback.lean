import Eyot.Harness.Supervisor
import Eyot.Library.FailingFold

/-! What is left in the registry when the transaction of a harness operation fails. -/

namespace Eyot.Harness.Rollback

open Staged (Stage)

inductive Work where
  | execute | flush | commit
  deriving DecidableEq

/-- The requests and the events that touch the registry; a pause and a resume do not. A checkpoint
comes with the configuration that its own session reads. -/
inductive Operation where
  | tripBreaker (instanceId : Id)
  | interrupt (instanceId : Id)
  | loopStarted (instanceId : Id) (now : Time)
  | loopStopped (instanceId : Id)
  | continuationInjected (instanceId : Id) (now : Time)
  | checkpoint (instanceId : Id) (config : Option BreakerConfig) (tokenEstimate : Int)
      (stamp now : Time)

/-- `emit` up to its return: the row is flushed, then the supervisor handles the event. -/
def emitting (handler : Option (Registry → Registry)) : List (Stage Work Registry) :=
  .work .flush :: (handler.map Stage.touch).toList

/-- `_set_loop_status`, whose event the supervisor does nothing on. -/
def setLoopStatus : List (Stage Work Registry) :=
  .work .execute :: emitting none ++ [.work .flush]

/-- What an operation does, up to the commit of its transaction by whoever called it. -/
def stages : Operation → List (Stage Work Registry)
  | .tripBreaker i =>
    emitting none ++ emitting (some fun registry => handleLoopStopped registry i) ++ emitting none ++
      [.work .commit, .touch fun registry => registry.pop i]
  | .interrupt i =>
    setLoopStatus ++ emitting none ++
      [.work .flush, .touch fun registry => registry.pop i, .work .commit]
  | .loopStarted i now =>
    emitting (some fun registry => handleLoopStarted registry i now) ++ [.work .commit]
  | .loopStopped i =>
    emitting (some fun registry => handleLoopStopped registry i) ++ [.work .commit]
  | .continuationInjected i now =>
    emitting (some fun registry => handleContinuationInjected registry i now) ++ [.work .commit]
  | .checkpoint i config tokens stamp now =>
    emitting (some fun registry => (handleCheckpoint registry config i tokens stamp now).1) ++
      [.work .commit]

namespace Operation

def instanceId : Operation → Id
  | .tripBreaker i | .interrupt i | .loopStarted i _ | .loopStopped i
  | .continuationInjected i _ | .checkpoint i .. => i

/-- The entry an operation leaves for its instance. -/
def entry (registry : Registry) : Operation → Option InstanceLoopMetrics
  | .tripBreaker _ | .interrupt _ | .loopStopped _ => none
  | .loopStarted _ now => some (.started now)
  | .continuationInjected i now => (registry i).map fun metrics => metrics.seen now
  | .checkpoint i config tokens stamp now =>
    let metrics := (registry.get i).checkpoint tokens stamp
    if (config.bind fun c => checkBreakers metrics c now).isSome then none else some metrics

def write (op : Operation) (registry : Registry) : Registry :=
  Function.update registry op.instanceId (op.entry registry)

/-- The work in front of the registry write, and behind it. -/
def front : Operation → List Work
  | .tripBreaker _ => [.flush, .flush]
  | .interrupt _ => [.execute, .flush, .flush, .flush, .flush]
  | .loopStarted .. | .loopStopped _ | .continuationInjected .. | .checkpoint .. => [.flush]

def behind : Operation → List Work
  | .tripBreaker _ => [.flush, .commit]
  | _ => [.commit]

/-- A trip writes once more when all is done. -/
def again : Operation → List (Registry → Registry)
  | .tripBreaker i => [fun registry => registry.pop i]
  | _ => []

end Operation

theorem continuationInjected_eq (registry : Registry) (i : Id) (now : Time) :
    handleContinuationInjected registry i now =
      (Operation.continuationInjected i now).write registry := by
  rw [handleContinuationInjected, Operation.write, Operation.entry, Operation.instanceId]
  cases h : registry i with
  | none => exact (Function.update_eq_self_iff.mpr h.symm).symm
  | some metrics => rfl

theorem checkpoint_eq (registry : Registry) (config : Option BreakerConfig) (i : Id) (tokens : Int)
    (stamp now : Time) :
    (handleCheckpoint registry config i tokens stamp now).1 =
      (Operation.checkpoint i config tokens stamp now).write registry := by
  rw [handleCheckpoint_eq, Operation.write, Operation.entry, Operation.instanceId]
  dsimp only
  cases config.bind fun c => checkBreakers ((registry.get i).checkpoint tokens stamp) c now with
  | none => rfl
  | some reason => rfl

theorem write_eq_self_iff {op : Operation} {registry : Registry} :
    op.write registry = registry ↔ registry op.instanceId = op.entry registry := by
  rw [Operation.write, Function.update_eq_self_iff]
  exact eq_comm

theorem stages_eq (op : Operation) :
    stages op = op.front.map .work ++ .touch op.write ::
      (op.behind.map .work ++ op.again.map .touch) := by
  cases op with
  | tripBreaker | interrupt | loopStarted | loopStopped => rfl
  | continuationInjected i now =>
    rw [stages, funext fun registry => continuationInjected_eq registry i now]
    rfl
  | checkpoint i config tokens stamp now =>
    rw [stages, funext fun registry => checkpoint_eq registry config i tokens stamp now]
    rfl

/-- A failed operation leaves the registry as it was exactly when it did not get as far as its
write, or wrote what was there. -/
theorem leaves_iff (op : Operation) (failure : Staged.Failure (stages op)) (registry : Registry) :
    failure.leaves registry = registry ↔
      failure.position < op.front.length ∨ registry op.instanceId = op.entry registry := by
  rw [Staged.leaves_eq op.front op.behind op.write op.again (stages_eq op) failure registry]
  by_cases h : failure.position < op.front.length
  · simp [h]
  · rw [if_neg h, write_eq_self_iff, or_iff_right h]

def failedCommit : Staged.Failure (stages (.tripBreaker "i")) := ⟨4, .commit, rfl⟩

/-- The commit of a trip fails, and what the loop had counted is gone. -/
theorem not_leaves_failedCommit :
    failedCommit.leaves (Registry.put (fun _ => none) "i" ⟨50, 900, some 0, some 7⟩) ≠
      Registry.put (fun _ => none) "i" ⟨50, 900, some 0, some 7⟩ := by
  intro h
  have hentry := congrFun h "i"
  exact absurd hentry (by decide)

end Eyot.Harness.Rollback
