import Eyot.Data.Rows
import Eyot.Market.CatalogRequests

/-! Organizations, namespaces, workspaces, entities, instances and memberships: what makes them and
what takes them away again. -/

namespace Eyot.Hierarchy

open Market (Organization)

structure Namespace where
  id : Id
  orgId : Id
  slug : Str
  deleted : Bool

structure Workspace where
  id : Id
  namespaceId : Id
  slug : Str
  deleted : Bool

structure Entity where
  id : Id
  namespaceId : Id
  slug : Str
  isCerebellum : Bool
  deleted : Bool

structure Instance where
  id : Id
  entityId : Id
  workspaceId : Id
  status : InstanceStatus
  deleted : Bool

/-- Who sits there: a user or an instance. -/
inductive Seat where
  | user (id : Id)
  | instance_ (id : Id)
  deriving DecidableEq

structure Membership where
  id : Id
  workspaceId : Id
  seat : Seat
  deleted : Bool

structure State where
  organizations : Table Organization.id
  namespaces : Table Namespace.id
  workspaces : Table Workspace.id
  entities : Table Entity.id
  instances : Table Instance.id
  memberships : Table Membership.id

def State.empty : State := ⟨.empty, .empty, .empty, .empty, .empty, .empty⟩

/-- A super-admin passes every check of permissions; others, where their contracts say so. -/
structure Caller where
  isSuperAdmin : Bool
  granted : Bool

namespace State

variable (s : State)

def activeOrganization? (id : Id) : Option Organization :=
  (s.organizations.find? id).filter fun o => !o.deleted

def activeNamespace? (id : Id) : Option Namespace :=
  (s.namespaces.find? id).filter fun n => !n.deleted

def activeWorkspace? (id : Id) : Option Workspace :=
  (s.workspaces.find? id).filter fun w => !w.deleted

def activeEntity? (id : Id) : Option Entity :=
  (s.entities.find? id).filter fun e => !e.deleted

def activeInstance? (id : Id) : Option Instance :=
  (s.instances.find? id).filter fun i => !i.deleted

def activeMembership? (id : Id) : Option Membership :=
  (s.memberships.find? id).filter fun m => !m.deleted

def defaultOrganization? : Option Organization :=
  s.organizations.rows.find? fun o => decide (o.slug = "default".toList) && !o.deleted

/-- `get_default_namespace` -/
def defaultNamespace? : Option Namespace :=
  s.defaultOrganization?.bind fun o => s.namespaces.rows.find? fun n =>
    decide (n.orgId = o.id) && decide (n.slug = "default".toList) && !n.deleted

/-- The id is taken as it is; only the default is looked up. -/
def resolveNamespaceId (namespaceId : Option Id) : Option Id :=
  (namespaceId.filter fun id => id ≠ "").or (s.defaultNamespace?.map Namespace.id)

def resolveOrgId (orgId : Option Id) : Option Id :=
  match orgId.filter fun id => id ≠ "" with
  | some id => (s.activeOrganization? id).map Organization.id
  | none => s.defaultOrganization?.map Organization.id

/-! `require_permission`: a namespace, or the one of a workspace, has to be active, but nobody looks
for super-admins. -/

def permitsOnOrganization (caller : Caller) : Bool := caller.isSuperAdmin || caller.granted

def permitsOnNamespace (caller : Caller) (id : Id) : Bool :=
  caller.isSuperAdmin || (s.activeNamespace? id).isSome && caller.granted

def permitsOnWorkspace (caller : Caller) (id : Id) : Bool :=
  caller.isSuperAdmin ||
    (s.activeWorkspace? id).any (fun w => (s.activeNamespace? w.namespaceId).isSome) &&
      caller.granted

/-! New rows; a parent that is not there fails the foreign key. -/

def addOrganization (o : Organization) : Option State :=
  (s.organizations.insert? o).map fun t => { s with organizations := t }

def addNamespace (n : Namespace) : Option State :=
  if (s.organizations.find? n.orgId).isNone then none
  else (s.namespaces.insert? n).map fun t => { s with namespaces := t }

def addWorkspace (w : Workspace) : Option State :=
  if (s.namespaces.find? w.namespaceId).isNone then none
  else (s.workspaces.insert? w).map fun t => { s with workspaces := t }

def addEntity (e : Entity) : Option State :=
  if (s.namespaces.find? e.namespaceId).isNone then none
  else (s.entities.insert? e).map fun t => { s with entities := t }

def addInstance (i : Instance) : Option State :=
  if (s.workspaces.find? i.workspaceId).isNone || (s.entities.find? i.entityId).isNone then none
  else (s.instances.insert? i).map fun t => { s with instances := t }

def addMembership (m : Membership) : Option State :=
  if (s.workspaces.find? m.workspaceId).isNone then none
  else (s.memberships.insert? m).map fun t => { s with memberships := t }

end State

/-! What is soft-deleted keeps its place. -/

def Organization.softDelete (o : Organization) : Organization := { o with deleted := true }
def Namespace.softDelete (n : Namespace) : Namespace := { n with deleted := true }
def Workspace.softDelete (w : Workspace) : Workspace := { w with deleted := true }
def Entity.softDelete (e : Entity) : Entity := { e with deleted := true }
def Instance.softDelete (i : Instance) : Instance := { i with deleted := true }
def Membership.softDelete (m : Membership) : Membership := { m with deleted := true }

/-- An instance that is deleted by itself leaves with the status of that. -/
def Instance.leave (i : Instance) : Instance := { i with status := .deleting, deleted := true }

def Membership.revive (m : Membership) : Membership := { m with deleted := false }

theorem Organization.softDelete_id : ∀ o, (Organization.softDelete o).id = o.id := fun _ => rfl
theorem Namespace.softDelete_id : ∀ n, (Namespace.softDelete n).id = n.id := fun _ => rfl
theorem Workspace.softDelete_id : ∀ w, (Workspace.softDelete w).id = w.id := fun _ => rfl
theorem Entity.softDelete_id : ∀ e, (Entity.softDelete e).id = e.id := fun _ => rfl
theorem Instance.softDelete_id : ∀ i, (Instance.softDelete i).id = i.id := fun _ => rfl
theorem Membership.softDelete_id : ∀ m, (Membership.softDelete m).id = m.id := fun _ => rfl
theorem Instance.leave_id : ∀ i, (Instance.leave i).id = i.id := fun _ => rfl
theorem Membership.revive_id : ∀ m, (Membership.revive m).id = m.id := fun _ => rfl

/-- The keys of what a workspace or an instance is made with. -/
structure NewIds where
  workspaceId : Id
  entityId : Id
  instanceId : Id
  membershipId : Id

/-- `_runtime_unique_slug`: the base, or the first number behind it that is free. -/
def runtimeUniqueSlug (taken : List Str) (base : Str) : Str :=
  if taken.contains base then
    (((List.range taken.length).map fun i => base ++ '-' :: (toString (i + 2)).toList).find?
      fun slug => !taken.contains slug).getD base
  else base

section

variable (s : State)

def createOrganization (id : Id) (slug : Str) : Option State :=
  if s.organizations.rows.any fun o => decide (o.slug = slug) && !o.deleted then none
  else s.addOrganization ⟨id, slug, false⟩

def createNamespace (caller : Caller) (id : Id) (orgId : Option Id) (slug : Str) : Option State :=
  (s.resolveOrgId orgId).bind fun orgId =>
    if !State.permitsOnOrganization caller || s.namespaces.rows.any (fun n =>
        decide (n.orgId = orgId) && decide (n.slug = slug) && !n.deleted) then none
    else s.addNamespace ⟨id, orgId, slug, false⟩

/-- `ensure_cerebellum_entity_and_instance` of a new workspace. -/
def ensureCerebellum (ids : NewIds) (w : Workspace) : Option State :=
  let inNamespace := s.entities.rows.filter fun e =>
    decide (e.namespaceId = w.namespaceId) && !e.deleted
  let ensured : Option (State × Id) :=
    match inNamespace.filter Entity.isCerebellum with
    | [] =>
      let slug := runtimeUniqueSlug (inNamespace.map Entity.slug) "cerebellum".toList
      (s.addEntity ⟨ids.entityId, w.namespaceId, slug, true, false⟩).map fun s => (s, ids.entityId)
    | [e] => some (s, e.id)
    | _ => none
  ensured.bind fun (s, entityId) =>
    match s.instances.rows.filter fun i =>
        decide (i.entityId = entityId) && decide (i.workspaceId = w.id) && !i.deleted with
    | [] => s.addInstance ⟨ids.instanceId, entityId, w.id, .creating, false⟩
    | [_] => some s
    | _ => none

/-- With its cerebellum, and a seat for who makes it. -/
def createWorkspace (caller : Caller) (ids : NewIds) (userId : Id) (namespaceId : Option Id)
    (slug : Str) : Option State :=
  (s.resolveNamespaceId namespaceId).bind fun namespaceId =>
    if !s.permitsOnNamespace caller namespaceId || s.workspaces.rows.any (fun w =>
        decide (w.namespaceId = namespaceId) && decide (w.slug = slug) && !w.deleted) then none
    else
      let w : Workspace := ⟨ids.workspaceId, namespaceId, slug, false⟩
      (s.addWorkspace w).bind fun s => (ensureCerebellum s ids w).bind fun s =>
        s.addMembership ⟨ids.membershipId, w.id, .user userId, false⟩

def createEntity (caller : Caller) (id : Id) (namespaceId : Option Id) (slug : Str)
    (isCerebellum : Bool) : Option State :=
  (s.resolveNamespaceId namespaceId).bind fun namespaceId =>
    let inNamespace := s.entities.rows.filter fun e =>
      decide (e.namespaceId = namespaceId) && !e.deleted
    if !s.permitsOnNamespace caller namespaceId ||
        inNamespace.any (fun e => decide (e.slug = slug)) ||
        isCerebellum && inNamespace.any Entity.isCerebellum then none
    else s.addEntity ⟨id, namespaceId, slug, isCerebellum, false⟩

/-- `create_introduced_instance`, with its seat. -/
def createIntroducedInstance (ids : NewIds) (entityId workspaceId : Id)
    (requireNamespaceMatch : Bool) : Option State :=
  match s.activeWorkspace? workspaceId, s.activeEntity? entityId with
  | some w, some e =>
    if requireNamespaceMatch && decide (e.namespaceId ≠ w.namespaceId) ||
        s.instances.rows.any (fun i => decide (i.workspaceId = workspaceId) &&
          decide (i.entityId = entityId) && !i.deleted) then none
    else (s.addInstance ⟨ids.instanceId, entityId, workspaceId, .creating, false⟩).bind fun s =>
      s.addMembership ⟨ids.membershipId, workspaceId, .instance_ ids.instanceId, false⟩
  | _, _ => none

def createInstance (caller : Caller) (ids : NewIds) (entityId workspaceId : Id) : Option State :=
  if s.permitsOnWorkspace caller workspaceId then
    createIntroducedInstance s ids entityId workspaceId false
  else none

def introduceEntity (caller : Caller) (ids : NewIds) (workspaceId entityId : Id) : Option State :=
  if s.permitsOnWorkspace caller workspaceId then
    createIntroducedInstance s ids entityId workspaceId true
  else none

/-- A seat that has been given up is taken again, and no permission is asked for. -/
def createMembership (id workspaceId : Id) (seat : Seat) : Option State :=
  match s.activeWorkspace? workspaceId with
  | none => none
  | some _ =>
    match s.memberships.rows.find? fun m =>
        decide (m.workspaceId = workspaceId) && decide (m.seat = seat) with
    | some m =>
      if m.deleted then
        some { s with
          memberships := s.memberships.update m.id Membership.revive Membership.revive_id }
      else none
    | none =>
      match seat with
      | .user _ => s.addMembership ⟨id, workspaceId, seat, false⟩
      | .instance_ instanceId =>
        if (s.instances.find? instanceId).isNone then none
        else s.addMembership ⟨id, workspaceId, seat, false⟩

/-- An active namespace of the organization. -/
def State.nsOf (orgId : Id) (n : Namespace) : Bool := decide (n.orgId = orgId) && !n.deleted

def State.inNsOf (orgId namespaceId : Id) : Bool :=
  (s.namespaces.find? namespaceId).any (State.nsOf orgId)

/-- An active workspace of one of them. -/
def State.inWsOf (orgId workspaceId : Id) : Bool :=
  (s.workspaces.find? workspaceId).any fun w => s.inNsOf orgId w.namespaceId && !w.deleted

/-- What is in an active namespace of the organization goes with it. -/
def State.withoutOrganization (orgId : Id) : State where
  organizations := s.organizations.update orgId Organization.softDelete Organization.softDelete_id
  namespaces := s.namespaces.updateWhere (State.nsOf orgId) Namespace.softDelete
    Namespace.softDelete_id
  workspaces := s.workspaces.updateWhere (fun w => s.inNsOf orgId w.namespaceId && !w.deleted)
    Workspace.softDelete Workspace.softDelete_id
  entities := s.entities.updateWhere (fun e => s.inNsOf orgId e.namespaceId && !e.deleted)
    Entity.softDelete Entity.softDelete_id
  instances := s.instances.updateWhere (fun i => s.inWsOf orgId i.workspaceId && !i.deleted)
    Instance.softDelete Instance.softDelete_id
  memberships := s.memberships.updateWhere (fun m => s.inWsOf orgId m.workspaceId && !m.deleted)
    Membership.softDelete Membership.softDelete_id

def deleteOrganization (caller : Caller) (orgId : Id) : Option State :=
  match s.activeOrganization? orgId with
  | none => none
  | some _ =>
    if State.permitsOnOrganization caller then some (s.withoutOrganization orgId) else none

/-- The default one stays. What is in the namespace is not looked at. -/
def deleteNamespace (namespaceId : Id) : Option State :=
  match s.defaultNamespace?, s.activeNamespace? namespaceId with
  | some default_, some _ =>
    if namespaceId = default_.id then none
    else some { s with
      namespaces := s.namespaces.update namespaceId Namespace.softDelete Namespace.softDelete_id }
  | _, _ => none

def deleteWorkspace (workspaceId : Id) : Option State :=
  match s.activeWorkspace? workspaceId with
  | none => none
  | some _ => some { s with
      instances := s.instances.updateWhere
        (fun i => decide (i.workspaceId = workspaceId) && !i.deleted) Instance.softDelete
        Instance.softDelete_id
      memberships := s.memberships.updateWhere
        (fun m => decide (m.workspaceId = workspaceId) && !m.deleted) Membership.softDelete
        Membership.softDelete_id
      workspaces := s.workspaces.update workspaceId Workspace.softDelete
        Workspace.softDelete_id }

def deleteEntity (caller : Caller) (entityId : Id) : Option State :=
  match s.activeEntity? entityId with
  | none => none
  | some e =>
    if !s.permitsOnNamespace caller e.namespaceId || s.instances.rows.any (fun i =>
        decide (i.entityId = entityId) && !i.deleted) then none
    else some { s with
      entities := s.entities.update entityId Entity.softDelete Entity.softDelete_id }

/-- The instance goes, and with it all its seats. -/
def State.dropInstance (instanceId : Id) : State :=
  { s with
    instances := s.instances.update instanceId Instance.leave Instance.leave_id
    memberships := s.memberships.updateWhere
      (fun m => decide (m.seat = .instance_ instanceId) && !m.deleted) Membership.softDelete
      Membership.softDelete_id }

def deleteInstance (caller : Caller) (instanceId : Id) : Option State :=
  match s.activeInstance? instanceId with
  | none => none
  | some i =>
    if s.permitsOnWorkspace caller i.workspaceId then
      if i.status = .deleting then some s else some (s.dropInstance instanceId)
    else none

/-- With the seat of an instance the instance goes. -/
def deleteMembership (membershipId : Id) : Option State :=
  match s.activeMembership? membershipId with
  | none => none
  | some m =>
    let left := { s with
      memberships := s.memberships.update membershipId Membership.softDelete
        Membership.softDelete_id }
    match m.seat with
    | .user _ => some left
    | .instance_ instanceId =>
      match s.activeInstance? instanceId with
      | some _ => some (s.dropInstance instanceId)
      | none => some left

end

inductive Request where
  | createOrganization (id : Id) (slug : Str)
  | createNamespace (caller : Caller) (id : Id) (orgId : Option Id) (slug : Str)
  | createWorkspace (caller : Caller) (ids : NewIds) (userId : Id) (namespaceId : Option Id)
      (slug : Str)
  | createEntity (caller : Caller) (id : Id) (namespaceId : Option Id) (slug : Str)
      (isCerebellum : Bool)
  | createInstance (caller : Caller) (ids : NewIds) (entityId workspaceId : Id)
  | introduceEntity (caller : Caller) (ids : NewIds) (workspaceId entityId : Id)
  | createMembership (id workspaceId : Id) (seat : Seat)
  | deleteOrganization (caller : Caller) (id : Id)
  | deleteNamespace (id : Id)
  | deleteWorkspace (id : Id)
  | deleteEntity (caller : Caller) (id : Id)
  | deleteInstance (caller : Caller) (id : Id)
  | deleteMembership (id : Id)

namespace State

def serve? (s : State) : Request → Option State
  | .createOrganization id slug => createOrganization s id slug
  | .createNamespace caller id orgId slug => createNamespace s caller id orgId slug
  | .createWorkspace caller ids userId namespaceId slug =>
    createWorkspace s caller ids userId namespaceId slug
  | .createEntity caller id namespaceId slug isCerebellum =>
    createEntity s caller id namespaceId slug isCerebellum
  | .createInstance caller ids entityId workspaceId =>
    createInstance s caller ids entityId workspaceId
  | .introduceEntity caller ids workspaceId entityId =>
    introduceEntity s caller ids workspaceId entityId
  | .createMembership id workspaceId seat => createMembership s id workspaceId seat
  | .deleteOrganization caller id => deleteOrganization s caller id
  | .deleteNamespace id => deleteNamespace s id
  | .deleteWorkspace id => deleteWorkspace s id
  | .deleteEntity caller id => deleteEntity s caller id
  | .deleteInstance caller id => deleteInstance s caller id
  | .deleteMembership id => deleteMembership s id

def serve (s : State) (r : Request) : State := (s.serve? r).getD s

end State

end Eyot.Hierarchy
