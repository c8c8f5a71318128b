import Eyot.Data.Errors
import Eyot.Data.Rows
import Eyot.Market.CatalogRequests

/-! What a user may do: contracts with organizations and namespaces, and the atoms they grant. -/

namespace Eyot.Access

open Market (Namespace Organization)

structure User where
  id : Id
  username : Str
  nickname : Option Str
  email : Str
  isSuperAdmin : Bool
  deleted : Bool

structure UserGene where
  id : Id
  slug : Str
  name : Str
  deleted : Bool

/-- A row of `organization_contracts` or of `namespace_contracts`, with what it is a contract on. -/
structure Contract where
  id : Id
  scopeId : Id
  userId : Id
  createdAt : Time
  deleted : Bool

structure ContractGene where
  id : Id
  contractId : Id
  userGeneId : Id
  deleted : Bool

structure Grants where
  contracts : Table Contract.id
  genes : Table ContractGene.id

structure Db where
  users : Table User.id
  organizations : Table Organization.id
  namespaces : Table Namespace.id
  workspaces : Table Workspace.id
  userGenes : Table UserGene.id
  organization : Grants
  namespaced : Grants

/-- What ends a request: an error of the API with its details, of the database or of Python. -/
inductive Refusal where
  | api (e : EyotError) (details : List (String × Option Id))
  | failure (f : Failure)
  | valueError (message : String)

namespace Grants

variable (t : Grants) (userGenes : Table UserGene.id)

def activeContracts (scopeId userId : Id) : List Contract :=
  t.contracts.rows.filter fun c =>
    decide (c.scopeId = scopeId) && decide (c.userId = userId) && !c.deleted

def activeGenes (contractId : Id) : List ContractGene :=
  t.genes.rows.filter fun l => decide (l.contractId = contractId) && !l.deleted

/-- `_contract_slugs` -/
def contractSlugs (contractId : Id) : List Str :=
  (t.activeGenes contractId).filterMap fun l =>
    ((userGenes.find? l.userGeneId).filter fun g => !g.deleted).map UserGene.slug

/-- One half of `list_grant_slugs`. -/
def grantSlugs (scopeId userId : Id) : List Str :=
  (t.activeContracts scopeId userId).flatMap fun c => t.contractSlugs userGenes c.id

end Grants

/-- The contract carries the atom. -/
def Carries (t : Grants) (userGenes : Table UserGene.id) (contractId : Id) (slug : Str) : Prop :=
  ∃ l ∈ t.genes.rows, l.contractId = contractId ∧ l.deleted = false ∧
    ∃ g, userGenes.find? l.userGeneId = some g ∧ g.deleted = false ∧ g.slug = slug

/-- The user holds the atom through an active contract. -/
def Holds (t : Grants) (userGenes : Table UserGene.id) (scopeId userId : Id) (slug : Str) : Prop :=
  ∃ c ∈ t.contracts.rows, c.scopeId = scopeId ∧ c.userId = userId ∧ c.deleted = false ∧
    Carries t userGenes c.id slug

section

variable {t : Grants} {userGenes : Table UserGene.id}

theorem mem_activeContracts {scopeId userId : Id} {c : Contract} :
    c ∈ t.activeContracts scopeId userId ↔
      c ∈ t.contracts.rows ∧ c.scopeId = scopeId ∧ c.userId = userId ∧ c.deleted = false := by
  rw [Grants.activeContracts, List.mem_filter]
  simp only [Bool.and_eq_true, decide_eq_true_eq, Bool.not_eq_true', and_assoc]

theorem mem_activeGenes {contractId : Id} {l : ContractGene} :
    l ∈ t.activeGenes contractId ↔
      l ∈ t.genes.rows ∧ l.contractId = contractId ∧ l.deleted = false := by
  rw [Grants.activeGenes, List.mem_filter]
  simp only [Bool.and_eq_true, decide_eq_true_eq, Bool.not_eq_true']

theorem mem_contractSlugs {contractId : Id} {slug : Str} :
    slug ∈ t.contractSlugs userGenes contractId ↔ Carries t userGenes contractId slug := by
  simp only [Grants.contractSlugs, List.mem_filterMap, Carries, mem_activeGenes,
    Option.map_eq_some_iff, Option.filter_eq_some_iff, Bool.not_eq_true', and_assoc]

theorem mem_grantSlugs {scopeId userId : Id} {slug : Str} :
    slug ∈ t.grantSlugs userGenes scopeId userId ↔ Holds t userGenes scopeId userId slug := by
  simp only [Grants.grantSlugs, List.mem_flatMap, mem_activeContracts, mem_contractSlugs, Holds,
    and_assoc]

end

namespace Db

variable (s : Db)

def activeUser? (id : Id) : Option User := (s.users.find? id).filter fun u => !u.deleted

def activeOrganization? (id : Id) : Option Organization :=
  (s.organizations.find? id).filter fun o => !o.deleted

def activeNamespace? (id : Id) : Option Namespace :=
  (s.namespaces.find? id).filter fun n => !n.deleted

def activeWorkspace? (id : Id) : Option Workspace :=
  (s.workspaces.find? id).filter fun w => w.deletedAt.isNone

end Db

end Eyot.Access
