import Eyot.Data.Json
import Eyot.Data.Rows
import Eyot.Data.Text
import Eyot.Library.MinQueue
import Mathlib.Data.Int.Order.Basic
import Mathlib.Data.Prod.Lex

/-! The task queue in memory: its worker between two awaits, and what else runs in the loop. -/

namespace Eyot.Queue

open MinQueue (popMin)

structure Task where
  runAt : Int
  seq : Nat
  taskId : Id
  taskName : Str
  payload : Json Str

def Task.order (t : Task) : Int ×ₗ Nat := toLex (t.runAt, t.seq)

/-- A task that has been given to its handler, when, and what was waiting beside it when the worker
made up its mind: when it took the task off the queue, or when the deadline it slept for was
reported. -/
structure Execution where
  task : Task
  time : Int
  waiting : List Task

/-- Where a worker is: `ready` to go round its loop, at one of the two waits for the event, back
from the second with the deadline, in a handler, or at its end. -/
inductive Phase where
  | ready
  | idle (woken : Bool)
  | sleeping (head : Task) (woken : Bool)
  | expired (head : Task) (waiting : List Task)
  | executing (task : Task)
  | finished
  | crashed

/-- How a handler ends; an exception that is no `Exception` is not caught. -/
inductive Outcome where
  | returns
  | raises
  | escapes

inductive Move where
  | run
  | deadline
  | finish (outcome : Outcome)

/-- `enqueued` and `executed` are kept for the record. -/
structure Shared where
  now : Int
  seq : Nat
  queue : List Task
  handlers : List Str
  stopping : Bool
  enqueued : List Task
  executed : List Execution

namespace Shared

variable (s : Shared)

/-- `_execute`, up to the handler. -/
def execute (t : Task) (waiting : List Task) : Shared × Phase :=
  if s.handlers.contains t.taskName then
    ({ s with executed := s.executed ++ [⟨t, s.now, waiting⟩] }, .executing t)
  else (s, .ready)

/-- Both waits are begun with the event cleared. -/
def loopHead : Shared × Phase :=
  if s.stopping then (s, .finished)
  else
    match popMin Task.order s.queue with
    | none => (s, .idle false)
    | some (t, rest) =>
      let s := { s with queue := rest }
      if t.runAt ≤ s.now then s.execute t rest else (s, .sleeping t false)

/-- A wake-up that comes before the deadline is what `wait_for` reports. -/
def advance : Phase → Move → Option (Shared × Phase)
  | .ready, .run | .idle true, .run => some s.loopHead
  | .sleeping t true, .run => some { s with queue := t :: s.queue }.loopHead
  | .sleeping t false, .deadline =>
    if t.runAt ≤ s.now then some (s, .expired t s.queue) else none
  | .expired t waiting, .run => some (s.execute t waiting)
  | .executing _, .finish .escapes => some (s, .crashed)
  | .executing _, .finish _ => some s.loopHead
  | _, _ => none

end Shared

/-- `_wakeup.set()`, to one that waits. -/
def Phase.wake : Phase → Phase
  | .idle _ => .idle true
  | .sleeping t _ => .sleeping t true
  | phase => phase

/-- All workers that were ever started, the one that `_worker_task` holds, and which of them the
calls of `stop` that have not returned are waiting for. -/
structure State extends Shared where
  workers : List Phase
  workerTask : Option Nat
  stops : List Nat

inductive Input where
  | tick (elapsed : Nat)
  | registerTask (taskName : Str)
  | enqueue (taskName : Str) (delay : Int) (payload : Option (Json Str)) (taskId : Id)
  | start
  | stop
  | stopReturns (k : Nat)
  | worker (w : Nat) (move : Move)

namespace State

variable (s : State)

def empty : State where
  now := 0
  seq := 0
  queue := []
  handlers := []
  stopping := false
  enqueued := []
  executed := []
  workers := []
  workerTask := none
  stops := []

def newTask (taskName : Str) (delay : Int) (payload : Option (Json Str)) (taskId : Id) : Task :=
  ⟨s.now + delay, s.seq + 1, taskId, taskName, payload.getD (.obj [])⟩

def enqueue (t : Task) : State :=
  { s with
    seq := t.seq
    queue := t :: s.queue
    enqueued := s.enqueued ++ [t]
    workers := s.workers.map Phase.wake }

/-- A worker that has crashed makes `stop` raise before it clears the field. -/
def stopReturns (k : Nat) : State :=
  match s.stops[k]?.bind fun w => s.workers[w]? with
  | some .finished => { s with workerTask := none, stops := s.stops.eraseIdx k }
  | some .crashed => { s with stops := s.stops.eraseIdx k }
  | _ => s

def worker (w : Nat) (move : Move) : State :=
  match s.workers[w]?.bind fun phase => s.toShared.advance phase move with
  | none => s
  | some (shared, phase) => { s with toShared := shared, workers := s.workers.set w phase }

/-- What happens from one suspension point to the next; what cannot happen is passed over. -/
def step : Input → State
  | .tick elapsed => { s with now := s.now + elapsed }
  | .registerTask taskName =>
    if s.handlers.contains taskName then s else { s with handlers := s.handlers ++ [taskName] }
  | .enqueue taskName delay payload taskId =>
    if s.handlers.contains taskName then s.enqueue (s.newTask taskName delay payload taskId) else s
  | .start =>
    if s.workerTask.isSome then s
    else { s with
      stopping := false
      workers := s.workers ++ [.ready]
      workerTask := some s.workers.length }
  | .stop =>
    { s with
      stopping := true
      workers := s.workers.map Phase.wake
      stops := s.stops ++ s.workerTask.toList }
  | .stopReturns k => s.stopReturns k
  | .worker w move => s.worker w move

end State

end Eyot.Queue
