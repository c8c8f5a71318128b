import Eyot.Access.OrgScope
import Eyot.Library.StableSort

/-! The members of an organization: who comes in, which atoms they have, who goes. -/

namespace Eyot.Access

open Market (Organization)
open Routing (scalarOneOrNone)

def ATOM_CATALOG : List Str :=
  ["can_manage_organization".toList, "can_manage_org_members".toList,
    "can_manage_namespace".toList, "can_manage_workspace".toList, "can_edit_workspace".toList,
    "can_view_workspace".toList, "can_operate_workspace".toList, "can_manage_genes".toList,
    "can_manage_capabilities".toList, "can_manage_ai_genes".toList,
    "can_clone_base_class".toList, "can_clone_entity".toList, "can_clone_organization".toList,
    "can_clone_workspace".toList, "can_manage_knowledge".toList, "can_manage_meetings".toList]

/-- The two atoms whose loss would lock the organization out of managing itself. -/
def manageAtoms : List Str :=
  ["can_manage_organization".toList, "can_manage_org_members".toList]

/-- How a commit ends; when the connection is lost, it may have been written all the same. -/
inductive Commit where
  | done | integrityError
  | connectionLost (written : Bool)

/-- What is new in a request: the keys of its rows, the time, the end of its commit. `ilike` is the
case-insensitive prefix match of the database. -/
structure Context where
  caller : Id
  now : Time
  newContractId : Id
  newGeneId : Str → Id
  newLinkId : Id → Id
  ilike : Str → Str → Bool
  commit : Commit

def contractNotFound (id : Id) : Refusal :=
  .api (NotFoundError "organization_contract.not_found" "errors.organization_contract.not_found"
    s!"OrganizationContract '{id}' not found") []

def memberNotFound (message : String) : Refusal :=
  .api (NotFoundError "user.not_found" "errors.user.not_found" message) []

def memberExists (username : Str) : Refusal :=
  .api (ConflictError "organization.member_exists" "errors.organization.member_exists"
    s!"User '{String.ofList username}' is already a member of this organization") []

def cannotLockSelf : Refusal :=
  .api ⟨"errors.org.cannot_lock_self", "organization.cannot_lock_self",
    "Cannot strip your own last can_manage_org_members grant", 400, []⟩ []

def unauthorized : Refusal :=
  .api ⟨"auth.user_not_found", "errors.auth.user_not_found", "User not found", 401, []⟩ []

def unknownSlugs (slugs : List Str) : String :=
  let names := List.intercalate ", ".toList (sortBy id slugs.dedup)
  s!"Unknown atom gene slug(s): {String.ofList names}"

/-- A key that is taken after all means the same as one that is found taken. -/
def onConflict (username : Str) : Refusal → Refusal
  | .failure .integrityError => memberExists username
  | e => e

structure Member where
  id : Id
  user : Id × Str × Str × Option Str
  atoms : List (Id × Str × Str)
  createdAt : Time

def ofFailure {α : Type} (x : Except Failure α) : Except Refusal α := x.mapError .failure

section

variable (ctx : Context) (s : Db)

/-- `get_current_user` -/
def currentUser : Except Refusal User :=
  match s.activeUser? ctx.caller with
  | none => .error unauthorized
  | some user => .ok user

/-- `_get_org_for_user`: those who are no members are not told that it is there. -/
def getOrgForUser (user : User) (orgId : Id) : Except Refusal Organization :=
  match s.activeOrganization? orgId with
  | none => .error (organizationNotFound orgId)
  | some org =>
    if user.isSuperAdmin then .ok org
    else do
      match ← ofFailure (scalarOneOrNone (s.organization.activeContracts org.id user.id)) with
      | none => throw (organizationNotFound orgId)
      | some _ =>
        if s.hasAtom org.id user.id then pure org else throw (organizationNotFound orgId)

def ensureAtomGene (s : Db) (slug : Str) : Except Refusal Db := do
  match ← ofFailure (scalarOneOrNone
      (s.userGenes.rows.filter fun g => decide (g.slug = slug) && !g.deleted)) with
  | some _ => pure s
  | none =>
    match s.userGenes.insert? ⟨ctx.newGeneId slug, slug, slug, false⟩ with
    | none => throw (.failure .integrityError)
    | some userGenes => pure { s with userGenes := userGenes }

def ensureAtomGenes : Except Refusal Db := ATOM_CATALOG.foldlM (ensureAtomGene ctx) s

/-- The active genes with one of the slugs. -/
def Db.genesOf (slugs : List Str) : List UserGene :=
  s.userGenes.rows.filter fun g => slugs.contains g.slug && !g.deleted

/-- `_atom_genes`; every slug of the catalog has one gene by now. -/
def atomGenes (slugs : List Str) : Except Refusal (Db × List UserGene) :=
  if slugs.isEmpty then .ok (s, [])
  else
    let unknown := slugs.filter fun slug => !ATOM_CATALOG.contains slug
    if unknown.isEmpty then (ensureAtomGenes ctx s).map fun s => (s, s.genesOf slugs)
    else .error (.api (ValidationError "user_gene.not_found" "errors.user_gene.not_found"
      (unknownSlugs unknown)) [])

def resolveUniqueUser (q : Str) : Except Refusal User :=
  let needle := pythonText.strip q
  match s.users.rows.filter fun u =>
      !u.deleted && (ctx.ilike needle u.username || ctx.ilike needle u.email) with
  | [] => .error (memberNotFound s!"No user matches '{String.ofList q}'")
  | [user] => .ok user
  | _ => .error (.api (ValidationError "organization.member_ambiguous"
      "errors.organization.member_ambiguous"
      s!"'{String.ofList q}' matches more than one user — provide a more specific prefix") [])

/-- `_get_org_contract` -/
def getOrgContract (orgId contractId : Id) : Except Refusal Contract :=
  match (s.organization.contracts.find? contractId).filter fun c =>
      !c.deleted && decide (c.scopeId = orgId) with
  | none => .error (contractNotFound contractId)
  | some c => .ok c

def orgMemberItem (c : Contract) : Option Member :=
  (s.users.find? c.userId).map fun user =>
    { id := c.id
      user := (user.id, user.username, user.email, user.nickname)
      atoms := (sortBy UserGene.slug ((s.organization.activeGenes c.id).filterMap fun l =>
        (s.userGenes.find? l.userGeneId).filter fun g => !g.deleted)).map fun g =>
          (g.id, g.slug, g.name)
      createdAt := c.createdAt }

def orgHasOtherManageHolder (orgId contractId : Id) : Bool :=
  s.organization.genes.rows.any fun l =>
    decide (l.contractId ≠ contractId) && !l.deleted &&
      (s.organization.contracts.find? l.contractId).any (fun c =>
        decide (c.scopeId = orgId) && !c.deleted) &&
      (s.userGenes.find? l.userGeneId).any fun g => !g.deleted && manageAtoms.contains g.slug

def guardCannotLockSelf (user : User) (orgId : Id) (c : Contract) (desiredSlugs : Option (List Str))
    (deleting : Bool) : Except Refusal Unit :=
  if user.isSuperAdmin || decide (c.userId ≠ user.id) then .ok ()
  else if deleting then
    if orgHasOtherManageHolder s orgId c.id then .ok () else .error cannotLockSelf
  else
    let current := s.organization.contractSlugs s.userGenes c.id
    let desired := desiredSlugs.getD []
    if current.contains "can_manage_org_members".toList &&
        !desired.contains "can_manage_org_members".toList then
      .error cannotLockSelf
    else if !manageAtoms.any desired.contains && !orgHasOtherManageHolder s orgId c.id then
      .error cannotLockSelf
    else .ok ()

/-- `ensure_org_contract` -/
def ensureOrgContract (organizationId userId : Id) : Except Refusal (Db × Contract) := do
  match ← ofFailure (scalarOneOrNone (s.organization.activeContracts organizationId userId)) with
  | some c => pure (s, c)
  | none =>
    let c : Contract := ⟨ctx.newContractId, organizationId, userId, ctx.now, false⟩
    match s.organization.contracts.insert? c with
    | none => throw (.failure .integrityError)
    | some contracts =>
      pure ({ s with organization := { s.organization with contracts := contracts } }, c)

def addGene (contractId : Id) (s : Db) (geneId : Id) : Except Refusal Db :=
  match s.organization.genes.insert? ⟨ctx.newLinkId geneId, contractId, geneId, false⟩ with
  | none => .error (.failure .integrityError)
  | some genes => .ok { s with organization := { s.organization with genes := genes } }

/-- `grant_atoms`; a gene the contract has is not added again. -/
def grantAtoms (contractId : Id) (atomSlugs : List Str) : Except Refusal Db :=
  let genes := s.genesOf atomSlugs
  let missing := atomSlugs.filter fun slug => !(genes.map UserGene.slug).contains slug
  if missing.isEmpty then
    genes.foldlM (fun s gene =>
      if (s.organization.activeGenes contractId).any fun l => l.userGeneId = gene.id then pure s
      else addGene ctx contractId s gene.id) s
  else .error (.valueError (unknownSlugs missing))

def softDeleteGene (l : ContractGene) : ContractGene := { l with deleted := true }

theorem softDeleteGene_id : ∀ l, (softDeleteGene l).id = l.id := fun _ => rfl

def softDeleteContract (c : Contract) : Contract := { c with deleted := true }

theorem softDeleteContract_id : ∀ c, (softDeleteContract c).id = c.id := fun _ => rfl

/-- The active links of the contract to other genes go. -/
def Grants.keepGenes (t : Grants) (contractId : Id) (geneIds : List Id) : Grants :=
  { t with
    genes := t.genes.updateWhere (fun l =>
      decide (l.contractId = contractId) && !l.deleted && !geneIds.contains l.userGeneId)
      softDeleteGene softDeleteGene_id }

def Grants.dropContract (t : Grants) (contractId : Id) : Grants where
  contracts := t.contracts.update contractId softDeleteContract softDeleteContract_id
  genes := (t.keepGenes contractId []).genes

/-- By id, or by a prefix that is nobody else's. -/
inductive Target where
  | userId (id : Id)
  | q (text : Str)

def Target.resolve : Target → Except Refusal User
  | .userId id =>
    match s.activeUser? id with
    | none => .error (memberNotFound s!"User '{id}' not found")
    | some user => .ok user
  | .q text => resolveUniqueUser ctx s text

/-- What a request has written when it comes to its commit, and the contract it is about. -/
abbrev Prepared := Except Refusal (Db × Contract)

def createOrgMember (orgId : Id) (target : Target) (atomSlugs : List Str) : Prepared := do
  let caller ← currentUser ctx s
  let org ← getOrgForUser s caller orgId
  requirePermission s caller.id "can_manage_org_members".toList ⟨some org.id, none, none⟩
  let user ← target.resolve ctx s
  match ← ofFailure (scalarOneOrNone (s.organization.activeContracts org.id user.id)) with
  | some _ => throw (memberExists user.username)
  | none =>
    let (s, _) ← atomGenes ctx s atomSlugs
    Except.mapError (onConflict user.username) do
      let (s, c) ← ensureOrgContract ctx s org.id user.id
      let s ← grantAtoms ctx s c.id atomSlugs
      pure (s, c)

/-- `update_org_member_atoms`: the old links that are not asked for go, the new ones come. -/
def updateOrgMemberAtoms (orgId contractId : Id) (atomSlugs : List Str) : Prepared := do
  let caller ← currentUser ctx s
  let org ← getOrgForUser s caller orgId
  requirePermission s caller.id "can_manage_org_members".toList ⟨some org.id, none, none⟩
  let c ← getOrgContract s org.id contractId
  let (s, genes) ← atomGenes ctx s atomSlugs
  guardCannotLockSelf s caller org.id c (some atomSlugs) false
  let current := (s.organization.activeGenes c.id).map ContractGene.userGeneId
  let desired := genes.map UserGene.id
  let kept := { s with organization := s.organization.keepGenes c.id desired }
  let s ← (desired.filter fun id => !current.contains id).foldlM (addGene ctx c.id) kept
  pure (s, c)

def deleteOrgMember (orgId contractId : Id) : Prepared := do
  let caller ← currentUser ctx s
  let org ← getOrgForUser s caller orgId
  requirePermission s caller.id "can_manage_org_members".toList ⟨some org.id, none, none⟩
  let c ← getOrgContract s org.id contractId
  guardCannotLockSelf s caller org.id c none true
  pure ({ s with organization := s.organization.dropContract c.id }, c)

end

inductive MemberCall where
  | create (orgId : Id) (target : Target) (atomSlugs : List Str)
  | update (orgId contractId : Id) (atomSlugs : List Str)
  | delete (orgId contractId : Id)

structure MemberRequest where
  ctx : Context
  call : MemberCall

def prepare (s : Db) (r : MemberRequest) : Prepared :=
  match r.call with
  | .create orgId target atomSlugs => createOrgMember r.ctx s orgId target atomSlugs
  | .update orgId contractId atomSlugs => updateOrgMemberAtoms r.ctx s orgId contractId atomSlugs
  | .delete orgId contractId => deleteOrgMember r.ctx s orgId contractId

/-- A request that does not get as far as its commit, or whose commit fails, writes nothing. -/
def answer (s : Db) (r : MemberRequest) : Db × Except Refusal (Option Member) :=
  match prepare s r with
  | .error e => (s, .error e)
  | .ok (s', c) =>
    match r.ctx.commit with
    | .integrityError =>
      match r.call with
      | .create .. =>
        (s, .error (memberExists ((s.users.find? c.userId).elim [] User.username)))
      | _ => (s, .error (.failure .integrityError))
    | .connectionLost written => (if written then s' else s, .error (.failure .connectionLost))
    | .done =>
      match r.call with
      | .delete .. => (s', .ok none)
      | _ =>
        match orgMemberItem s' c with
        | none => (s', .error (memberNotFound s!"User '{c.userId}' not found"))
        | some item => (s', .ok (some item))

def serve (s : Db) (r : MemberRequest) : Db := (answer s r).1

end Eyot.Access
