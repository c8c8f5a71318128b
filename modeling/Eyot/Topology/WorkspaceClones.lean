import Eyot.Library.Table
import Eyot.Topology.Seats

/-! The canvas of the workspaces, as the database keeps it, and the request that copies one. -/

namespace Eyot.Topology

structure CanvasWorkspace extends Workspace where
  name : Str
  slug : Str

/-- A membership in its place on the canvas. -/
structure CanvasMembership extends Membership where
  posx : Int
  posy : Int

/-- What there is once for a workspace: a central hub, or a vault. -/
structure WorkspacePart where
  id : Id
  workspaceId : Id
  deletedAt : Option Time

/-- Events have a user for actor here. -/
structure AuditEvent where
  type : String
  actorId : Id
  resourceType : String
  resourceId : Id
  payload : List (String × String)

structure Canvas where
  workspaces : List CanvasWorkspace
  centralHubs : List WorkspacePart
  vaults : List WorkspacePart
  memberships : List CanvasMembership
  passages : List Passage
  events : List AuditEvent

namespace CanvasMembership

def isActive (m : CanvasMembership) : Bool := m.deletedAt.isNone

def isUser (m : CanvasMembership) : Bool := m.deletedAt.isNone && m.userId.isSome

def isInstance (m : CanvasMembership) : Bool := m.deletedAt.isNone && m.instanceId.isSome

end CanvasMembership

/-! The primary keys, the unique indexes and the checks. -/

@[mk_iff] structure PartsKeyed (parts : List WorkspacePart) : Prop where
  ids : UniqueOn (fun _ => true) (·.id) parts
  workspaces : UniqueOn (·.deletedAt.isNone) (·.workspaceId) parts

@[mk_iff] structure Canvas.Keyed (t : Canvas) : Prop where
  workspaceIds : UniqueOn (fun _ => true) (·.id) t.workspaces
  workspaceSlugs : UniqueOn (·.deletedAt.isNone) (fun w => (w.namespaceId, w.slug)) t.workspaces
  centralHubs : PartsKeyed t.centralHubs
  vaults : PartsKeyed t.vaults
  membershipIds : UniqueOn (fun _ => true) (·.id) t.memberships
  membershipUsers : UniqueOn CanvasMembership.isUser (fun m => (m.workspaceId, m.userId))
    t.memberships
  membershipInstances : UniqueOn CanvasMembership.isInstance
    (fun m => (m.workspaceId, m.instanceId)) t.memberships
  membershipPositions : UniqueOn CanvasMembership.isActive
    (fun m => (m.workspaceId, m.posx, m.posy)) t.memberships
  exclusive : ∀ m ∈ t.memberships, m.userId.isSome ≠ m.instanceId.isSome
  passageIds : UniqueOn (fun _ => true) (·.id) t.passages
  passageEdges : UniqueOn Passage.isLive Passage.edgeKey t.passages

/-- The foreign keys. -/
@[mk_iff] structure Canvas.Referenced (t : Canvas) : Prop where
  centralHubs : ∀ part ∈ t.centralHubs, part.workspaceId ∈ t.workspaces.map (·.id)
  vaults : ∀ part ∈ t.vaults, part.workspaceId ∈ t.workspaces.map (·.id)
  memberships : ∀ m ∈ t.memberships, m.workspaceId ∈ t.workspaces.map (·.id)
  passages : ∀ p ∈ t.passages, p.workspaceId ∈ t.workspaces.map (·.id)
  endpoints : ∀ p ∈ t.passages, p.fromMembershipId ∈ t.memberships.map (·.id) ∧
    p.toMembershipId ∈ t.memberships.map (·.id)

instance (parts : List WorkspacePart) : Decidable (PartsKeyed parts) :=
  decidable_of_iff' _ (partsKeyed_iff parts)

instance (t : Canvas) : Decidable t.Keyed := decidable_of_iff' _ (Canvas.keyed_iff t)

instance (t : Canvas) : Decidable t.Referenced := decidable_of_iff' _ (Canvas.referenced_iff t)

/-- A canvas that the database may hold. -/
structure Surface extends Canvas where
  keyed : toCanvas.Keyed
  referenced : toCanvas.Referenced

/-- Sends what has been added; the database has the last word. -/
def flush (t : Canvas) : Except Failure Surface :=
  if h : t.Keyed ∧ t.Referenced then .ok ⟨t, h.1, h.2⟩ else .error .integrityError

/-- The identifiers that a copy draws. -/
structure CloneDraws where
  suffix : Str
  workspaceId : Id
  centralHubId : Id
  vaultId : Id
  membershipId : Id → Id
  passageId : Id → Id

structure CloneRequest where
  sourceId : Id
  actorUserId : Id
  name : Option Str
  slug : Option Str

def slugMax : Nat := 255

def newSlug (draws : CloneDraws) (sourceSlug : Str) : Option Str → Str
  | some slug => slug
  | none =>
    let suffix := "-clone-".toList ++ draws.suffix
    sourceSlug.take (slugMax - suffix.length) ++ suffix

def workspaceSlugTaken (slug : Str) : Failure :=
  .eyot (ConflictError "workspace.slug_taken" "errors.workspace.slug_taken"
    s!"Workspace slug '{String.ofList slug}' is already taken")

def awakened (t : Canvas) (workspaceId : Id) : List CanvasMembership :=
  t.memberships.filter fun m => decide (m.workspaceId = workspaceId) && m.isUser

def passagesOf (t : Canvas) (workspaceId : Id) : List Passage :=
  t.passages.filter fun p => decide (p.workspaceId = workspaceId) && p.deletedAt.isNone

def membershipCopy (draws : CloneDraws) (m : CanvasMembership) : CanvasMembership where
  id := draws.membershipId m.id
  workspaceId := draws.workspaceId
  userId := m.userId
  instanceId := none
  deletedAt := none
  posx := m.posx
  posy := m.posy

/-- `mem_map` -/
def memMap (draws : CloneDraws) (ms : List CanvasMembership) (id : Id) : Option Id :=
  (ms.find? fun m => m.id = id).map fun m => draws.membershipId m.id

/-- The row of a passage between the copies of its endpoints. -/
def passageCopy (draws : CloneDraws) (p : Passage) (nf nt : Id) : Passage where
  id := draws.passageId p.id
  workspaceId := draws.workspaceId
  fromMembershipId := if nt < nf then nt else nf
  toMembershipId := if nt < nf then nf else nt
  isActive := p.isActive
  mode := p.mode
  edgeMeta := p.edgeMeta
  deletedAt := none

def passageDropped (newId actorUserId : Id) (p : Passage) : AuditEvent where
  type := "workspace.clone_passage_dropped"
  actorId := actorUserId
  resourceType := "passage"
  resourceId := p.id
  payload := [("source_passage_id", p.id), ("reason", "lost_endpoint"),
    ("new_workspace_id", newId)]

def workspaceCloned (actorUserId sourceId newId : Id) : AuditEvent where
  type := "workspace.cloned"
  actorId := actorUserId
  resourceType := "workspace"
  resourceId := newId
  payload := [("actor_user_id", actorUserId), ("source_id", sourceId), ("new_id", newId)]

def emit (t : Canvas) (e : AuditEvent) : Except Failure Surface :=
  flush { t with events := t.events ++ [e] }

def copyMemberships (draws : CloneDraws) :
    Surface → List CanvasMembership → Except Failure Surface
  | s, [] => .ok s
  | s, m :: ms => do
    let s ← flush { s.toCanvas with memberships := s.memberships ++ [membershipCopy draws m] }
    copyMemberships draws s ms

/-- A copied passage waits for the next flush. -/
def copyPassages (draws : CloneDraws) (actorUserId : Id) (copyOf : Id → Option Id) :
    Canvas → List Passage → Except Failure Canvas
  | t, [] => .ok t
  | t, p :: ps =>
    match copyOf p.fromMembershipId, copyOf p.toMembershipId with
    | some nf, some nt =>
      copyPassages draws actorUserId copyOf
        { t with passages := t.passages ++ [passageCopy draws p nf nt] } ps
    | _, _ => do
      let s ← emit t (passageDropped draws.workspaceId actorUserId p)
      copyPassages draws actorUserId copyOf s.toCanvas ps

def findWorkspace (t : Canvas) (id : Id) : Option CanvasWorkspace :=
  (t.workspaces.find? fun w => w.id = id).filter fun w => w.deletedAt.isNone

def slugClash (t : Canvas) (namespaceId : Id) (slug : Str) : Bool :=
  t.workspaces.any fun w =>
    decide (w.namespaceId = namespaceId) && decide (w.slug = slug) && w.deletedAt.isNone

def newWorkspace (draws : CloneDraws) (source : CanvasWorkspace) (request : CloneRequest) :
    CanvasWorkspace where
  id := draws.workspaceId
  namespaceId := source.namespaceId
  deletedAt := none
  name := request.name.getD source.name
  slug := newSlug draws source.slug request.slug

def cloneWorkspace (draws : CloneDraws) (s : Surface) (request : CloneRequest) :
    Except Failure (Surface × CanvasWorkspace) :=
  match findWorkspace s.toCanvas request.sourceId with
  | none => .error (workspaceNotFound request.sourceId)
  | some source =>
    let newWs := newWorkspace draws source request
    if slugClash s.toCanvas newWs.namespaceId newWs.slug then
      .error (workspaceSlugTaken newWs.slug)
    else do
      let s ← flush { s.toCanvas with workspaces := s.workspaces ++ [newWs] }
      let s ← flush { s.toCanvas with
        centralHubs := s.centralHubs ++ [⟨draws.centralHubId, newWs.id, none⟩]
        vaults := s.vaults ++ [⟨draws.vaultId, newWs.id, none⟩] }
      let ms := awakened s.toCanvas source.id
      let s ← copyMemberships draws s ms
      let t ← copyPassages draws request.actorUserId (memMap draws ms) s.toCanvas
        (passagesOf s.toCanvas source.id)
      let s ← flush t
      let s ← emit s.toCanvas (workspaceCloned request.actorUserId source.id newWs.id)
      return (s, newWs)

end Eyot.Topology
