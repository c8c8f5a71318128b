import Eyot.Access.Permissions
import Eyot.Routing.Effects
import Mathlib.Data.List.Dedup

/-! The organization that a request is about: the one of the header, or the only one the user has a
contract with. -/

namespace Eyot.Access

open Routing (scalarOneOrNone)

def organizationNotFound (id : Id) : Refusal :=
  .api (NotFoundError "organization.not_found" "errors.organization.not_found"
    s!"Organization '{id}' not found") []

def notAMember (userId orgId : Id) : Refusal :=
  .api (ForbiddenError "organization.not_a_member" "errors.organization.not_a_member"
    s!"User '{userId}' is not a member of organization '{orgId}'")
    [("user_id", some userId), ("organization_id", some orgId)]

namespace Db

variable (s : Db)

def hasAtom (orgId userId : Id) : Bool :=
  (s.organization.activeContracts orgId userId).any fun c =>
    !(s.organization.activeGenes c.id).isEmpty

/-- `SELECT DISTINCT organization_id` of the active contracts of the user. -/
def contractedOrganizations (userId : Id) : List Id :=
  ((s.organization.contracts.rows.filter fun c =>
    decide (c.userId = userId) && !c.deleted).map Contract.scopeId).dedup

end Db

def resolveCurrentOrgId (s : Db) (userId : Id) : Option Id → Except Refusal (Option Id)
  | some xOrganizationId =>
    match s.activeOrganization? xOrganizationId with
    | none => .error (organizationNotFound xOrganizationId)
    | some org =>
      match s.activeUser? userId with
      | none => .error (userNotFound userId)
      | some user =>
        if user.isSuperAdmin then .ok (some org.id)
        else
          match scalarOneOrNone (s.organization.activeContracts org.id userId) with
          | .error e => .error (.failure e)
          | .ok none => .error (notAMember userId org.id)
          | .ok (some _) =>
            if s.hasAtom org.id userId then .ok (some org.id)
            else .error (notAMember userId org.id)
  | none =>
    match s.contractedOrganizations userId with
    | [orgId] => .ok (some orgId)
    | _ => .ok none

/-- The organization without a header is the one with it. -/
def SameWithHeader (s : Db) (userId : Id) : Prop :=
  ∀ orgId, resolveCurrentOrgId s userId none = .ok (some orgId) →
    resolveCurrentOrgId s userId (some orgId) = .ok (some orgId)

/-- An active contract of the user. -/
def Db.Signed (s : Db) (userId : Id) (c : Contract) : Prop :=
  c ∈ s.organization.contracts.rows ∧ c.userId = userId ∧ c.deleted = false

/-- The only organization of a user is active, and the one contract with it has an atom. -/
def SoleIsJoined (s : Db) (userId : Id) : Prop :=
  ∀ c, s.Signed userId c → (∀ c', s.Signed userId c' → c'.scopeId = c.scopeId) →
    (s.activeOrganization? c.scopeId).isSome ∧ (∀ c', s.Signed userId c' → c' = c) ∧
      ∃ l ∈ s.organization.genes.rows, l.contractId = c.id ∧ l.deleted = false

variable {s : Db} {orgId userId : Id}

theorem eq_singleton_iff {α : Type} {l : List α} (h : l.Nodup) {a : α} :
    l = [a] ↔ a ∈ l ∧ ∀ b ∈ l, b = a := by
  constructor
  · rintro rfl
    simp
  · rintro ⟨ha, hall⟩
    apply List.perm_singleton.mp
    rw [List.perm_ext_iff_of_nodup h (List.nodup_singleton a)]
    intro b
    rw [List.mem_singleton]
    exact ⟨hall b, fun hb => hb ▸ ha⟩

theorem scalarOneOrNone_eq_some {α : Type} {l : List α} {a : α} :
    scalarOneOrNone l = .ok (some a) ↔ l = [a] := by
  rcases l with _ | ⟨b, _ | ⟨b', l⟩⟩ <;> simp [scalarOneOrNone]

theorem headerless_iff :
    resolveCurrentOrgId s userId none = .ok (some orgId) ↔
      ∃ c, s.Signed userId c ∧ c.scopeId = orgId ∧
        ∀ c', s.Signed userId c' → c'.scopeId = orgId := by
  have hmem : ∀ id, id ∈ s.contractedOrganizations userId ↔
      ∃ c, s.Signed userId c ∧ c.scopeId = id := by
    intro id
    simp only [Db.contractedOrganizations, List.mem_dedup, List.mem_map, List.mem_filter,
      Bool.and_eq_true, decide_eq_true_eq, Bool.not_eq_true', Db.Signed]
  have hone : resolveCurrentOrgId s userId none = .ok (some orgId) ↔
      s.contractedOrganizations userId = [orgId] := by
    simp only [resolveCurrentOrgId]
    rcases s.contractedOrganizations userId with _ | ⟨id, _ | ⟨id', ids⟩⟩ <;> simp
  have hnodup : (s.contractedOrganizations userId).Nodup := List.nodup_dedup _
  rw [hone, eq_singleton_iff hnodup]
  simp only [hmem]
  constructor
  · rintro ⟨⟨c, hc, horg⟩, hall⟩
    exact ⟨c, hc, horg, fun c' hc' => hall _ ⟨c', hc', rfl⟩⟩
  · rintro ⟨c, hc, horg, hall⟩
    refine ⟨⟨c, hc, horg⟩, ?_⟩
    rintro _ ⟨c', hc', rfl⟩
    exact hall c' hc'

theorem withHeader_iff {user : User} (huser : s.activeUser? userId = some user)
    (hsuper : user.isSuperAdmin = false) :
    resolveCurrentOrgId s userId (some orgId) = .ok (some orgId) ↔
      (s.activeOrganization? orgId).isSome ∧
        ∃ c, s.organization.activeContracts orgId userId = [c] ∧
          s.organization.activeGenes c.id ≠ [] := by
  simp only [resolveCurrentOrgId]
  cases horg : s.activeOrganization? orgId with
  | none => simp
  | some org =>
    obtain rfl : org.id = orgId := Table.find?_key (Option.filter_eq_some_iff.mp horg).1
    simp only [huser, hsuper, Bool.false_eq_true, if_false, Option.isSome_some, true_and]
    cases hone : scalarOneOrNone (s.organization.activeContracts org.id userId) with
    | error e =>
      simp only [← scalarOneOrNone_eq_some, hone, reduceCtorEq, false_and, exists_false]
    | ok o =>
      cases o with
      | none => simp [← scalarOneOrNone_eq_some, hone]
      | some c =>
        have hcontracts := scalarOneOrNone_eq_some.mp hone
        have hatom : s.hasAtom org.id userId = true ↔ s.organization.activeGenes c.id ≠ [] := by
          simp [Db.hasAtom, hcontracts]
        simp only [hcontracts, List.cons.injEq, and_true, exists_eq_left', ← hatom]
        split <;> simp_all

/-- Without a header an organization counts only if the user has joined it, just when the only
contracts that users have are good ones. -/
theorem sameWithHeader_iff (s : Db) (userId : Id) (user : User)
    (huser : s.activeUser? userId = some user) (hsuper : user.isSuperAdmin = false) :
    SameWithHeader s userId ↔ SoleIsJoined s userId := by
  have hcontract : ∀ orgId c, (∀ c', s.Signed userId c' → c'.scopeId = orgId) →
      (c ∈ s.organization.activeContracts orgId userId ↔ s.Signed userId c) := by
    intro orgId c hall
    rw [mem_activeContracts]
    exact ⟨fun h => ⟨h.1, h.2.2⟩, fun h => ⟨h.1, hall c h, h.2⟩⟩
  have hnodup : ∀ orgId, (s.organization.activeContracts orgId userId).Nodup := fun orgId =>
    (List.Nodup.of_map _ s.organization.contracts.keys_nodup).filter _
  simp only [SameWithHeader, headerless_iff, withHeader_iff huser hsuper, SoleIsJoined]
  constructor
  · intro h c hc hall
    obtain ⟨horg, c₀, hone, hatom⟩ := h c.scopeId ⟨c, hc, rfl, hall⟩
    obtain ⟨-, hunique⟩ := (eq_singleton_iff (hnodup _)).mp hone
    have honly : ∀ c', s.Signed userId c' → c' = c₀ := fun c' hc' =>
      hunique c' ((hcontract _ c' hall).mpr hc')
    obtain rfl := honly c hc
    obtain ⟨l, hl⟩ := List.exists_mem_of_ne_nil _ hatom
    exact ⟨horg, honly, l, mem_activeGenes.mp hl⟩
  · rintro h _ ⟨c, hc, rfl, hall⟩
    obtain ⟨horg, honly, l, hl⟩ := h c hc hall
    refine ⟨horg, c, ?_, List.ne_nil_of_mem (mem_activeGenes.mpr hl)⟩
    rw [eq_singleton_iff (hnodup _)]
    refine ⟨(hcontract _ c hall).mpr hc, ?_⟩
    intro c' hc'
    exact honly c' ((hcontract _ c' hall).mp hc')

/-- A member of acme whose atoms have all been taken. -/
def bare : Db where
  users := .single ⟨"wei", "wei".toList, none, "wei@acme".toList, false, false⟩
  organizations := .single ⟨"acme", "acme".toList, false⟩
  namespaces := .empty
  workspaces := .empty
  userGenes := .single ⟨"atom", "can_view_workspace".toList, "view".toList, false⟩
  organization :=
    ⟨.single ⟨"seal", "acme", "wei", 0, false⟩, .single ⟨"grant", "seal", "atom", true⟩⟩
  namespaced := ⟨.empty, .empty⟩

theorem sameWithHeader_iff_bare : SameWithHeader bare "wei" ↔ SoleIsJoined bare "wei" :=
  sameWithHeader_iff bare "wei" _ rfl rfl

theorem not_sameWithHeader_bare :
    (∃ user, bare.activeUser? "wei" = some user ∧ user.isSuperAdmin = false) ∧
      ¬SameWithHeader bare "wei" := by
  constructor
  · exact ⟨_, rfl, rfl⟩
  · intro h
    cases h "acme" rfl

end Eyot.Access
