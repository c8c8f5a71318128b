import Eyot.Data.Rows

/-! A run of the deploy pipeline and the requests to cancel it, which take turns at their awaits. Of
the deploy record only the status is kept: its message and its times are for readers. -/

namespace Eyot.Deploy

inductive DeployStatus where
  | pending | running | success | failed | cancelled
  deriving DecidableEq

def DeployStatus.Terminal : DeployStatus → Prop
  | .pending | .running => False
  | .success | .failed | .cancelled => True

/-- What is put into the cluster before the watch; the deployment is applied and then scaled. -/
inductive Resource where
  | namespace_ | configmap | secret | pvc | deployment | scale | service | networkPolicy
  deriving DecidableEq

def Resource.next : Resource → Option Resource
  | .namespace_ => some .configmap
  | .configmap => some .secret
  | .secret => some .pvc
  | .pvc => some .deployment
  | .deployment => some .scale
  | .scale => some .service
  | .service => some .networkPolicy
  | .networkPolicy => none

def deployPipelineTimeoutSeconds : Nat := 300

/-- Where the pipeline is suspended. Between `created` and the first await it registers itself. -/
inductive Point where
  | created
  | gateway
  | applying (r : Resource)
  /-- A poll of the deployment, with `left` more to come. -/
  | watching (left : Nat)
  | postReady
  | finishing
  | committing (read : DeployStatus)
  | failing
  | committingFailure (read : DeployStatus)
  | tearingDown
  | ended
  deriving DecidableEq

/-- How an await comes back: with its value (of a poll: the ready replicas, and whether an image
cannot be pulled), with an exception, or cancelled. What was awaited may have been done all the
same. -/
inductive Wake where
  | returned (readyReplicas : Nat) (pullFailed : Bool)
  | raised (applied : Bool)
  | cancelled (applied : Bool)

def Wake.applied : Wake → Bool
  | .returned _ _ => true
  | .raised applied | .cancelled applied => applied

/-- A request to cancel, with the status its record had when it came in. -/
inductive Call where
  | idle
  | reading (asked : DeployStatus)
  | committing (asked read : DeployStatus)
  | deleting (asked : DeployStatus)
  | answered

inductive Reply where
  | returned
  | raised (applied : Bool)

def Reply.applied : Reply → Bool
  | .returned => true
  | .raised applied => applied

structure State where
  status : DeployStatus
  instance_ : Instance
  namespaceThere : Bool
  replicas : Nat
  point : Point
  registered : Bool
  cancelRequested : Bool
  calls : Nat → Call

/-- A column is only written when it differs from what was read. -/
def State.write (s : State) (read new : DeployStatus) : State :=
  if read = new then s else { s with status := new }

def State.markInstance (s : State) (status : InstanceStatus) : State :=
  if s.instance_.deletedAt.isNone then
    { s with instance_ := { s.instance_ with status := status } }
  else s

/-- What the pipeline waits for, done. -/
def State.effect (s : State) : Point → State
  | .applying .namespace_ => { s with namespaceThere := true }
  | .postReady => s.markInstance .running
  | .committing read => s.write read .success
  | .committingFailure read => (s.write read .failed).markInstance .failed
  | .tearingDown => { s with namespaceThere := false }
  | _ => s

def State.onReturned (s : State) (readyReplicas : Nat) (pullFailed : Bool) : Point :=
  match s.point with
  | .created => .gateway
  | .gateway => .applying .namespace_
  | .applying r =>
    match r.next with
    | some r' => .applying r'
    | none => .watching (deployPipelineTimeoutSeconds - 1)
  | .watching left =>
    if s.replicas ≤ readyReplicas then .postReady
    else if pullFailed then .failing
    else
      match left with
      | 0 => .failing
      | left + 1 => .watching left
  | .postReady => .finishing
  | .finishing => .committing s.status
  | .committing _ => .ended
  | .failing => .committingFailure s.status
  | .committingFailure _ => .tearingDown
  | .tearingDown => .ended
  | .ended => .ended

/-- The gateway is asked for outside the `try`, and nothing catches what the handler raises but
around the teardown. -/
def Point.onRaised : Point → Point
  | .created => .gateway
  | .applying _ | .watching _ | .postReady | .finishing | .committing _ => .failing
  | .gateway | .failing | .committingFailure _ | .tearingDown | .ended => .ended

/-- `except Exception` lets a cancellation through, and `finally` only takes the task out of the
registry. -/
def State.after (s : State) (w : Wake) : Point :=
  if s.cancelRequested then .ended
  else
    match w with
    | .returned readyReplicas pullFailed => s.onReturned readyReplicas pullFailed
    | .raised _ => s.point.onRaised
    | .cancelled _ => .ended

def State.goto (s : State) (p : Point) : State :=
  { s with point := p, registered := s.registered && decide (p ≠ .ended) }

def State.resume (s : State) (w : Wake) : State :=
  match s.point with
  | .created => { s with registered := true }.goto (s.after w)
  | .ended => s
  | p => (if w.applied then s.effect p else s).goto (s.after w)

def State.cancelDeployTask (s : State) : State :=
  if s.registered then
    { s with registered := false, cancelRequested := s.cancelRequested || decide (s.point ≠ .ended) }
  else s

def State.setCall (s : State) (n : Nat) (c : Call) : State :=
  { s with calls := fun m => if m = n then c else s.calls m }

/-- The next await of request `n`; only the one for the cluster is allowed to fail. -/
def State.cancelDeploy (s : State) (n : Nat) (r : Reply) : State :=
  match s.calls n with
  | .idle => s.cancelDeployTask.setCall n (.reading s.status)
  | .reading asked =>
    match r with
    | .returned => s.setCall n (.committing asked s.status)
    | .raised _ => s.setCall n .answered
  | .committing asked read =>
    let s' := if r.applied then s.write read .cancelled else s
    match r with
    | .returned => s'.setCall n (.deleting asked)
    | .raised _ => s'.setCall n .answered
  | .deleting _ =>
    let s' := if r.applied then { s with namespaceThere := false } else s
    s'.setCall n .answered
  | .answered => s

inductive Action where
  | pipeline (w : Wake)
  | cancel (n : Nat) (r : Reply)

def step (s : State) : Action → State
  | .pipeline w => s.resume w
  | .cancel n r => s.cancelDeploy n r

/-- The task is made and has not begun, and nobody has asked to cancel it. -/
def launch (status : DeployStatus) (i : Instance) (namespaceThere : Bool) (replicas : Nat) :
    State where
  status := status
  instance_ := i
  namespaceThere := namespaceThere
  replicas := replicas
  point := .created
  registered := false
  cancelRequested := false
  calls _ := .idle

end Eyot.Deploy
