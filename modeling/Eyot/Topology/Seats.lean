import Eyot.Topology.Messaging

/-! The rest of what touches the topology: seats that are taken or taken again, and the deletion of
instances and workspaces. -/

namespace Eyot.Topology

/-- A key drawn for a row is never the empty string. -/
structure SeatContext extends Context where
  newId_ne : newId ≠ ""

/-- Exactly one of `user_id` and `instance_id`. -/
inductive Holder where
  | user (id : Id)
  | instance_ (id : Id)

def Holder.holds : Holder → Membership → Bool
  | .user id, m => m.userId = some id
  | .instance_ id, m => m.instanceId = some id

def Holder.seat (newId workspaceId : Id) : Holder → Membership
  | .user id => ⟨newId, workspaceId, some id, none, none⟩
  | .instance_ id => ⟨newId, workspaceId, none, some id, none⟩

/-- The foreign key of the seat of an instance. -/
def Holder.isThere (db : Db) : Holder → Bool
  | .user _ => true
  | .instance_ id => (db.instances.find? id).isSome

def workspaceNotFound (id : Id) : Failure :=
  .eyot (NotFoundError "workspace.not_found" "errors.workspace.not_found"
    s!"Workspace '{id}' not found")

def instanceNotFound (id : Id) : Failure :=
  .eyot (NotFoundError "instance.not_found" "errors.instance.not_found"
    s!"Instance '{id}' not found")

def membershipDuplicate : Failure :=
  .eyot (ConflictError "membership.duplicate" "errors.membership.duplicate"
    "Membership already exists for this user/instance in this workspace")

def membershipPositionTaken (position : Int × Int) : Failure :=
  .eyot (ConflictError "membership.position_taken" "errors.membership.position_taken"
    s!"Position ({position.1}, {position.2}) is already used in this workspace")

def takeAgain (m : Membership) : Membership := { m with deletedAt := none }

theorem takeAgain_id : ∀ m, (takeAgain m).id = m.id := fun _ => rfl

/-- The first row of an unordered query. -/
def firstSeat (ctx : Context) (ms : List Membership) : Option Membership :=
  ms[ctx.scan % ms.length]?

/-- `positionTaken` is what the index of the positions says. A seat that was given up is taken again
as it is; whose it is, and whether the instance is still there, nobody asks. -/
def createMembership (ctx : SeatContext) (db : Db) (workspaceId : Id) (holder : Holder)
    (position : Int × Int) (positionTaken : Bool) : Except Failure Db :=
  match (db.workspaces.find? workspaceId).filter fun w => w.deletedAt.isNone with
  | none => .error (workspaceNotFound workspaceId)
  | some _ =>
    let seats := db.memberships.rows.filter fun m =>
      decide (m.workspaceId = workspaceId) && holder.holds m
    match firstSeat ctx.toContext seats with
    | some existing =>
      if existing.deletedAt.isNone then .error membershipDuplicate
      else if positionTaken || seats.any (fun m => m.deletedAt.isNone) then .error .integrityError
      else
        let memberships := db.memberships.update existing.id takeAgain takeAgain_id
        commit ctx.toContext { db with memberships := memberships } db.passages
    | none =>
      if positionTaken || !holder.isThere db then .error (membershipPositionTaken position)
      else
        match db.memberships.insert? (holder.seat ctx.newId workspaceId) with
        | none => .error (membershipPositionTaken position)
        | some memberships =>
          commit ctx.toContext { db with memberships := memberships } db.passages

def leave (now : Time) (m : Membership) : Membership := { m with deletedAt := some now }

theorem leave_id (now : Time) : ∀ m, (leave now m).id = m.id := fun _ => rfl

def teardown (now : Time) (i : Instance) : Instance :=
  { i with status := .deleting, deletedAt := some now }

theorem teardown_id (now : Time) : ∀ i, (teardown now i).id = i.id := fun _ => rfl

/-- For a caller who may edit the workspace of the instance. -/
def deleteInstance (ctx : Context) (db : Db) (instanceId : Id) : Except Failure Db :=
  match (db.instances.find? instanceId).filter fun i => i.deletedAt.isNone with
  | none => .error (instanceNotFound instanceId)
  | some i =>
    if i.status = .deleting then .ok db
    else
      let seatIds := (db.memberships.rows.filter (seatOf instanceId)).map Membership.id
      let memberships := db.memberships.updateWhere (seatOf instanceId) (leave ctx.now)
        (leave_id ctx.now)
      let instances := db.instances.update instanceId (teardown ctx.now) (teardown_id ctx.now)
      commit ctx { db with memberships := memberships, instances := instances }
        (softDeletePassagesTouching ctx.now db.passages seatIds)

def softDeleteInstance (now : Time) (i : Instance) : Instance := { i with deletedAt := some now }

theorem softDeleteInstance_id (now : Time) : ∀ i, (softDeleteInstance now i).id = i.id :=
  fun _ => rfl

def softDeletePassage (now : Time) (p : Passage) : Passage :=
  { p with deletedAt := some now, isActive := false }

theorem softDeletePassage_id (now : Time) : ∀ p, (softDeletePassage now p).id = p.id :=
  fun _ => rfl

def softDeleteWorkspace (now : Time) (w : Workspace) : Workspace := { w with deletedAt := some now }

theorem softDeleteWorkspace_id (now : Time) : ∀ w, (softDeleteWorkspace now w).id = w.id :=
  fun _ => rfl

/-- The instances, memberships and passages of the workspace, by their own workspace id. -/
def deleteWorkspace (ctx : Context) (db : Db) (workspaceId : Id) : Except Failure Db :=
  match (db.workspaces.find? workspaceId).filter fun w => w.deletedAt.isNone with
  | none => .error (workspaceNotFound workspaceId)
  | some _ =>
    let instances := db.instances.updateWhere
      (fun i => decide (i.workspaceId = workspaceId) && i.deletedAt.isNone)
      (softDeleteInstance ctx.now) (softDeleteInstance_id ctx.now)
    let memberships := db.memberships.updateWhere
      (fun m => decide (m.workspaceId = workspaceId) && m.deletedAt.isNone)
      (leave ctx.now) (leave_id ctx.now)
    let passages := db.passages.updateWhere
      (fun p => decide (p.workspaceId = workspaceId) && p.deletedAt.isNone)
      (softDeletePassage ctx.now) (softDeletePassage_id ctx.now)
    let workspaces := db.workspaces.update workspaceId (softDeleteWorkspace ctx.now)
      (softDeleteWorkspace_id ctx.now)
    commit ctx { db with
      instances := instances, memberships := memberships, workspaces := workspaces } passages

/-- What writes memberships or passages, or takes instances away from under them. -/
inductive Operation where
  | messaging (req : Request)
  | createMembership (ctx : SeatContext) (workspaceId : Id) (holder : Holder)
      (position : Int × Int) (positionTaken : Bool)
  | deleteInstance (ctx : Context) (instanceId : Id)
  | deleteWorkspace (ctx : Context) (workspaceId : Id)
  | cleanup (ctx : Context) (membershipIds : List Id)

def perform (db : Db) : Operation → Except Failure Db
  | .messaging req => handle db req
  | .createMembership ctx workspaceId holder position positionTaken =>
    createMembership ctx db workspaceId holder position positionTaken
  | .deleteInstance ctx instanceId => deleteInstance ctx db instanceId
  | .deleteWorkspace ctx workspaceId => deleteWorkspace ctx db workspaceId
  | .cleanup ctx membershipIds =>
    commit ctx db (softDeletePassagesTouching ctx.now db.passages membershipIds)

/-- An operation that fails is rolled back. -/
def afterwards (db : Db) (op : Operation) : Db :=
  match perform db op with
  | .ok db' => db'
  | .error _ => db

end Eyot.Topology
