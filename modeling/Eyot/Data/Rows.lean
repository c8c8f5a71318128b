import Eyot.Data.Json
import Eyot.Data.Text
import Eyot.Library.Table
import Mathlib.Data.String.Basic

/-! The rows of the workspace tables, with the columns the modelled code reads or writes. -/

namespace Eyot

abbrev Id := String
abbrev Time := Nat

structure Workspace where
  id : Id
  namespaceId : Id
  deletedAt : Option Time
  deriving DecidableEq

structure Entity where
  id : Id
  namespaceId : Id
  slug : Str
  deletedAt : Option Time
  deriving DecidableEq

inductive InstanceStatus where
  | creating | pending | deploying | running | restarting | failed | deleting
  deriving DecidableEq

structure Instance where
  id : Id
  entityId : Id
  workspaceId : Id
  status : InstanceStatus
  deletedAt : Option Time
  deriving DecidableEq

structure Membership where
  id : Id
  workspaceId : Id
  userId : Option Id
  instanceId : Option Id
  deletedAt : Option Time
  deriving DecidableEq

structure Passage where
  id : Id
  workspaceId : Id
  fromMembershipId : Id
  toMembershipId : Id
  isActive : Bool
  mode : String
  edgeMeta : Option (Json Str)
  deletedAt : Option Time

inductive LoopStatus where
  | idle | running | paused | interrupted | completed | failed
  deriving DecidableEq

structure InstanceLoopState where
  id : Id
  instanceId : Id
  loopStatus : LoopStatus
  deletedAt : Option Time
  deriving DecidableEq

namespace Passage

/-- The rows the partial index and every reader of the topology look at. -/
def isLive (p : Passage) : Bool := p.isActive && p.deletedAt.isNone

def edgeKey (p : Passage) : Id × Id × Id :=
  (p.workspaceId, p.fromMembershipId, p.toMembershipId)

/-- `uq_passages_active_edge`. -/
def UniqueActiveEdge (ps : List Passage) : Prop :=
  ((ps.filter isLive).map edgeKey).Nodup

instance (ps : List Passage) : Decidable (UniqueActiveEdge ps) :=
  inferInstanceAs (Decidable (List.Nodup _))

theorem uniqueActiveEdge_nil : UniqueActiveEdge [] := List.nodup_nil

end Passage

structure Db where
  workspaces : Table Workspace.id
  entities : Table Entity.id
  instances : Table Instance.id
  memberships : Table Membership.id
  passages : Table Passage.id
  loopStates : Table InstanceLoopState.id
  uniqueActiveEdge : Passage.UniqueActiveEdge passages.rows

end Eyot
