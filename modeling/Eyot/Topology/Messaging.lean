import Eyot.Data.Errors
import Eyot.Topology.Passages

/-! The membership and passage endpoints of the messaging API, run one after the other. -/

namespace Eyot.Topology

structure PassageCreate where
  workspaceId : Id
  fromMembershipId : Id
  toMembershipId : Id
  edgeMeta : Option (Json Str)

/-- A partial update: `none` is a field the request leaves out, `some none` an explicit null. -/
structure PassageUpdate where
  isActive : Option (Option Bool)
  edgeMeta : Option (Option (Json Str))

def membershipNotFound (id : Id) : Failure :=
  .eyot (NotFoundError "membership.not_found" "errors.membership.not_found"
    s!"Membership '{id}' not found")

def passageNotFound (id : Id) : Failure :=
  .eyot (NotFoundError "passage.not_found" "errors.passage.not_found" s!"Passage '{id}' not found")

def passageDuplicate : Failure :=
  .eyot (ConflictError "passage.duplicate" "errors.passage.duplicate"
    "Passage already exists between these endpoints")

def passageWouldCreateCycle : Failure :=
  .eyot (ConflictError "passage.would_create_cycle" "errors.passage.would_create_cycle"
    "Adding this edge would create a cycle")

/-- What a request meets outside its own arguments: the clock, the identifier it would draw,
which of several matching rows an unordered query returns first, and whether the connection
is gone by the time it commits. -/
structure Context where
  now : Time
  newId : Id
  scan : Nat
  connectionLost : Bool

/-- Commits new passage rows; the partial unique index has the last word. -/
def commit (ctx : Context) (db : Db) (passages : Table Passage.id) : Except Failure Db :=
  if ctx.connectionLost then .error .connectionLost
  else if h : Passage.UniqueActiveEdge passages.rows then
    .ok { db with passages := passages, uniqueActiveEdge := h }
  else .error .integrityError

def firstRow (ctx : Context) (ps : List Passage) : Option Passage := ps[ctx.scan % ps.length]?

def hasMembership (db : Db) (id : Id) : Bool :=
  (db.memberships.find? id).any fun m => m.deletedAt.isNone

/-- The row of an undirected pair, in either orientation, soft-deleted rows included. -/
def existingPassage (ctx : Context) (db : Db) (workspaceId fromId toId : Id) : Option Passage :=
  firstRow ctx (db.passages.rows.filter fun p => p.workspaceId = workspaceId && joins p fromId toId)

def revive (fromId toId : Id) (p : Passage) : Passage :=
  { p with
    deletedAt := none
    isActive := true
    mode := passageModeDual
    fromMembershipId := fromId
    toMembershipId := toId }

def newPassage (ctx : Context) (body : PassageCreate) (fromId toId : Id) : Passage where
  id := ctx.newId
  workspaceId := body.workspaceId
  fromMembershipId := fromId
  toMembershipId := toId
  isActive := true
  mode := passageModeDual
  edgeMeta := body.edgeMeta
  deletedAt := none

/-- Inserts and commits; an integrity error is answered as a duplicate. -/
def insertPassage (ctx : Context) (db : Db) (p : Passage) : Except Failure Db :=
  match db.workspaces.find? p.workspaceId, db.passages.insert? p with
  | some _, some passages =>
    match commit ctx db passages with
    | .error .integrityError => .error passageDuplicate
    | result => result
  | _, _ => .error passageDuplicate

def createPassage (ctx : Context) (db : Db) (body : PassageCreate) : Except Failure (Db × Passage) :=
  let (fromId, toId) := normalizeEndpoints body.fromMembershipId body.toMembershipId
  if !hasMembership db fromId then .error (membershipNotFound fromId)
  else if !hasMembership db toId then .error (membershipNotFound toId)
  else
    match existingPassage ctx db body.workspaceId fromId toId with
    | some existing =>
      if existing.deletedAt.isNone then .error passageDuplicate
      else do
        -- The row comes back as it is: no search is made on this path.
        let db ← commit ctx db (db.passages.update existing.id (revive fromId toId) fun _ => rfl)
        return (db, revive fromId toId existing)
    | none =>
      if !checkAcyclic body.workspaceId db.passages.rows fromId toId then
        .error passageWouldCreateCycle
      else do
        let passage := newPassage ctx body fromId toId
        let db ← insertPassage ctx db passage
        return (db, passage)

def setFields (isActive : Bool) (edgeMeta : Option (Option (Json Str))) (p : Passage) : Passage :=
  { p with isActive := isActive, edgeMeta := edgeMeta.getD p.edgeMeta }

def updatePassage (ctx : Context) (db : Db) (passageId : Id) (body : PassageUpdate) :
    Except Failure (Db × Passage) :=
  match db.passages.find? passageId with
  | none => .error (passageNotFound passageId)
  | some p =>
    if p.deletedAt.isSome then .error (passageNotFound passageId)
    else
      match body.isActive.getD (some p.isActive) with
      | none => .error .integrityError
      | some isActive => do
        let db ← commit ctx db
          (db.passages.update passageId (setFields isActive body.edgeMeta) fun _ => rfl)
        return (db, setFields isActive body.edgeMeta p)

def deletePassage (ctx : Context) (db : Db) (passageId : Id) : Except Failure Db :=
  match db.passages.find? passageId with
  | none => .error (passageNotFound passageId)
  | some p =>
    if p.deletedAt.isSome then .error (passageNotFound passageId)
    else commit ctx db
      (db.passages.update passageId (fun p => { p with deletedAt := some ctx.now }) fun _ => rfl)

def touches (ids : List Id) (p : Passage) : Bool :=
  p.deletedAt.isNone && (p.fromMembershipId ∈ ids || p.toMembershipId ∈ ids)

def softDeletePassagesTouching (now : Time) (passages : Table Passage.id) (membershipIds : List Id) :
    Table Passage.id :=
  let ids := membershipIds.filter (· ≠ "")
  if ids.isEmpty then passages
  else passages.updateWhere (touches ids)
    (fun p => { p with deletedAt := some now, isActive := false }) fun _ => rfl

/-- The live instance a seat belongs to. -/
def linkedInstance (db : Db) (m : Membership) : Option Instance :=
  (m.instanceId.bind db.instances.find?).filter fun i => i.deletedAt.isNone

def seatOf (instanceId : Id) (m : Membership) : Bool :=
  m.instanceId = some instanceId && m.deletedAt.isNone

def deleteMembership (ctx : Context) (db : Db) (membershipId : Id) : Except Failure Db :=
  match db.memberships.find? membershipId with
  | none => .error (membershipNotFound membershipId)
  | some m =>
    if m.deletedAt.isSome then .error (membershipNotFound membershipId)
    else
      match linkedInstance db m with
      | some instance_ =>
        let siblingIds := (db.memberships.rows.filter (seatOf instance_.id)).map Membership.id
        let db' := { db with
          instances := db.instances.update instance_.id
            (fun i => { i with status := .deleting, deletedAt := some ctx.now }) fun _ => rfl
          memberships := db.memberships.updateWhere (seatOf instance_.id)
            (fun m => { m with deletedAt := some ctx.now }) fun _ => rfl }
        commit ctx db' (softDeletePassagesTouching ctx.now db.passages siblingIds)
      | none =>
        let db' := { db with
          memberships := db.memberships.update membershipId
            (fun m => { m with deletedAt := some ctx.now }) fun _ => rfl }
        commit ctx db' (softDeletePassagesTouching ctx.now db.passages [membershipId])

inductive Call where
  | createPassage (body : PassageCreate)
  | updatePassage (passageId : Id) (body : PassageUpdate)
  | deletePassage (passageId : Id)
  | deleteMembership (membershipId : Id)

/-- A request of any signed-in user; none of the four handlers asks who it is. -/
structure Request where
  actor : Id
  ctx : Context
  call : Call

def handle (db : Db) (req : Request) : Except Failure Db :=
  match req.call with
  | .createPassage body => (createPassage req.ctx db body).map Prod.fst
  | .updatePassage passageId body => (updatePassage req.ctx db passageId body).map Prod.fst
  | .deletePassage passageId => deletePassage req.ctx db passageId
  | .deleteMembership membershipId => deleteMembership req.ctx db membershipId

/-- A request that fails is rolled back. -/
def step (db : Db) (req : Request) : Db :=
  match handle db req with
  | .ok db' => db'
  | .error _ => db

end Eyot.Topology
