import Eyot.Access.Members
import Eyot.Library.FailingFold
import Eyot.Library.Keeps
import Eyot.Library.Run

/-! Organizations keep someone who manages them. -/

namespace Eyot.Access

open FailingFold
open Routing (scalarOneOrNone)

variable {s s' s'' : Db} {ctx : Context} {orgId contractId : Id}

/-- An active contract with the organization carries an atom to manage it. -/
def Manages (s : Db) (orgId contractId : Id) : Prop :=
  ∃ c ∈ s.organization.contracts.rows, c.id = contractId ∧ c.scopeId = orgId ∧
    c.deleted = false ∧ ∃ slug ∈ manageAtoms, Carries s.organization s.userGenes c.id slug

def Managed (s : Db) (orgId : Id) : Prop := ∃ contractId, Manages s orgId contractId

/-- Nothing is taken from the contracts in `p`, nor from what those in `q` carry. -/
structure Spares (p q : Id → Prop) (s s' : Db) : Prop where
  users : s'.users = s.users
  contracts : ∀ c ∈ s.organization.contracts.rows, p c.id → c ∈ s'.organization.contracts.rows
  genes : ∀ l ∈ s.organization.genes.rows, q l.contractId → l ∈ s'.organization.genes.rows
  userGenes : ∀ id g, s.userGenes.find? id = some g → s'.userGenes.find? id = some g

namespace Spares

variable {p q p' q' : Id → Prop}

theorem refl (s : Db) : Spares p q s s :=
  ⟨rfl, fun _ hc _ => hc, fun _ hl _ => hl, fun _ _ hg => hg⟩

theorem trans (h : Spares p q s s') (h' : Spares p q s' s'') : Spares p q s s'' where
  users := h'.users.trans h.users
  contracts c hc hp := h'.contracts c (h.contracts c hc hp) hp
  genes l hl hq := h'.genes l (h.genes l hl hq) hq
  userGenes id g hg := h'.userGenes id g (h.userGenes id g hg)

theorem weaken (h : Spares p q s s') (hp : ∀ id, p' id → p id) (hq : ∀ id, q' id → q id) :
    Spares p' q' s s' :=
  ⟨h.users, fun c hc hc' => h.contracts c hc (hp _ hc'), fun l hl hl' => h.genes l hl (hq _ hl'),
    h.userGenes⟩

theorem carries (h : Spares p q s s') (hq : q contractId) {slug : Str}
    (hc : Carries s.organization s.userGenes contractId slug) :
    Carries s'.organization s'.userGenes contractId slug := by
  obtain ⟨l, hl, rfl, hactive, g, hg, hslug⟩ := hc
  exact ⟨l, h.genes l hl hq, rfl, hactive, g, h.userGenes _ g hg, hslug⟩

theorem manages (h : Spares p q s s') (hp : p contractId) (hq : q contractId)
    (hm : Manages s orgId contractId) : Manages s' orgId contractId := by
  obtain ⟨c, hc, rfl, horg, hactive, slug, hslug, hcarries⟩ := hm
  exact ⟨c, h.contracts c hc hp, rfl, horg, hactive, slug, hslug, h.carries hq hcarries⟩

end Spares

/-- Nothing is taken away. -/
abbrev Adds : Db → Db → Prop := Spares (fun _ => True) fun _ => True

theorem ofFailure_eq_ok {α : Type} {x : Except Failure α} {a : α} :
    ofFailure x = .ok a ↔ x = .ok a := mapError_eq_ok

/-- Genes are all that is new. -/
def AddsGenes (s s' : Db) : Prop := Adds s s' ∧ s'.organization = s.organization

theorem AddsGenes.refl (s : Db) : AddsGenes s s := ⟨.refl s, rfl⟩

theorem AddsGenes.trans (h : AddsGenes s s') (h' : AddsGenes s' s'') : AddsGenes s s'' :=
  ⟨Spares.trans h.1 h'.1, h'.2.trans h.2⟩

theorem ensureAtomGene_eq_ok {slug : Str} (h : ensureAtomGene ctx s slug = .ok s') :
    AddsGenes s s' ∧ ∃ g ∈ s'.userGenes.rows, g.slug = slug ∧ g.deleted = false := by
  rw [ensureAtomGene, bind_eq_ok] at h
  obtain ⟨o, hone, h⟩ := h
  rw [ofFailure_eq_ok] at hone
  cases o with
  | some g =>
    obtain rfl := Except.ok.inj h
    have hg : g ∈ s.userGenes.rows.filter fun g => decide (g.slug = slug) && !g.deleted := by
      rw [scalarOneOrNone_eq_some.mp hone]
      exact List.mem_singleton_self g
    simp only [List.mem_filter, Bool.and_eq_true, decide_eq_true_eq, Bool.not_eq_true'] at hg
    exact ⟨.refl s, g, hg⟩
  | none =>
    simp only at h
    split at h
    · cases h
    · rename_i userGenes hinsert
      obtain rfl := Except.ok.inj h
      refine ⟨⟨⟨rfl, fun _ hc _ => hc, fun _ hl _ => hl, ?_⟩, rfl⟩,
        ⟨ctx.newGeneId slug, slug, slug, false⟩, (Table.mem_insert? hinsert).mpr (.inr rfl), rfl,
        rfl⟩
      intro id g hg
      exact Table.find?_of_insert? hinsert hg

theorem ensureAtomGenes_eq_ok (h : ensureAtomGenes ctx s = .ok s') :
    AddsGenes s s' ∧
      ∀ slug ∈ ATOM_CATALOG, ∃ g ∈ s'.userGenes.rows, g.slug = slug ∧ g.deleted = false := by
  have hstep : ∀ {s₁ slug s₂}, ensureAtomGene ctx s₁ slug = .ok s₂ → AddsGenes s₁ s₂ := fun h =>
    (ensureAtomGene_eq_ok h).1
  refine ⟨foldlM_keeps AddsGenes.refl AddsGenes.trans hstep h, ?_⟩
  intro slug hslug
  obtain ⟨s₁, s₂, hs₂, hrest, -⟩ :=
    foldlM_reaches AddsGenes.refl AddsGenes.trans hstep hslug h
  obtain ⟨-, g, hg, hprops⟩ := ensureAtomGene_eq_ok hs₂
  have hfind := hrest.userGenes g.id g (s₂.userGenes.find?_of_mem hg)
  exact ⟨g, Table.find?_mem hfind, hprops⟩

theorem atomGenes_eq_ok {slugs : List Str} {genes : List UserGene}
    (h : atomGenes ctx s slugs = .ok (s', genes)) :
    AddsGenes s s' ∧
      ∀ slug ∈ slugs, ∃ g ∈ genes, s'.userGenes.find? g.id = some g ∧ g.slug = slug ∧
        g.deleted = false := by
  simp only [atomGenes] at h
  split at h
  · rename_i hempty
    obtain ⟨rfl, rfl⟩ := Prod.mk.inj (Except.ok.inj h)
    rw [List.isEmpty_iff] at hempty
    subst hempty
    exact ⟨.refl s, nofun⟩
  · split at h
    · rename_i hunknown
      cases hs : ensureAtomGenes ctx s with
      | error e =>
        rw [hs] at h
        cases h
      | ok s₁ =>
        rw [hs] at h
        obtain ⟨rfl, rfl⟩ := Prod.mk.inj (Except.ok.inj h)
        obtain ⟨hadds, hgenes⟩ := ensureAtomGenes_eq_ok hs
        refine ⟨hadds, ?_⟩
        intro slug hslug
        have hknown : slug ∈ ATOM_CATALOG := by
          by_contra hnot
          rw [List.isEmpty_iff, List.filter_eq_nil_iff] at hunknown
          apply hunknown slug hslug
          rw [Bool.not_eq_true', List.contains_eq_mem, decide_eq_false_iff_not]
          exact hnot
        obtain ⟨g, hg, hgslug, hactive⟩ := hgenes slug hknown
        refine ⟨g, ?_, s₁.userGenes.find?_of_mem hg, hgslug, hactive⟩
        rw [Db.genesOf, List.mem_filter, hactive, hgslug, List.contains_iff_mem.mpr hslug]
        exact ⟨hg, rfl⟩
    · cases h

theorem addGene_eq_ok {geneId : Id} (h : addGene ctx contractId s geneId = .ok s') :
    Adds s s' ∧ s'.organization.contracts = s.organization.contracts ∧
      ∃ l ∈ s'.organization.genes.rows, l.contractId = contractId ∧ l.userGeneId = geneId ∧
        l.deleted = false := by
  simp only [addGene] at h
  split at h
  · cases h
  · rename_i genes hinsert
    obtain rfl := Except.ok.inj h
    refine ⟨⟨rfl, fun _ hc _ => hc, ?_, fun _ _ hg => hg⟩, rfl,
      ⟨ctx.newLinkId geneId, contractId, geneId, false⟩,
      (Table.mem_insert? hinsert).mpr (.inr rfl), rfl, rfl, rfl⟩
    intro l hl _
    exact (Table.mem_insert? hinsert).mpr (.inl hl)

theorem mem_keepGenes {t : Grants} {geneIds : List Id} {l : ContractGene} (hl : l ∈ t.genes.rows)
    (h : l.contractId ≠ contractId ∨ l.userGeneId ∈ geneIds) :
    l ∈ (t.keepGenes contractId geneIds).genes.rows := by
  apply Table.mem_updateWhere_of_not softDeleteGene_id hl
  rcases h with h | h
  · simp [h]
  · simp [h]

theorem spares_keepGenes (s : Db) (contractId : Id) (geneIds : List Id) :
    Spares (fun _ => True) (· ≠ contractId) s
      { s with organization := s.organization.keepGenes contractId geneIds } :=
  ⟨rfl, fun _ hc _ => hc, fun _ hl hne => mem_keepGenes hl (.inl hne), fun _ _ hg => hg⟩

theorem spares_dropContract (s : Db) (contractId : Id) :
    Spares (· ≠ contractId) (· ≠ contractId) s
      { s with organization := s.organization.dropContract contractId } := by
  refine ⟨rfl, ?_, fun _ hl hne => mem_keepGenes hl (.inl hne), fun _ _ hg => hg⟩
  intro c hc hne
  exact Table.mem_updateWhere_of_not softDeleteContract_id hc (decide_eq_false hne)

theorem ensureOrgContract_eq_ok {userId : Id} {c : Contract}
    (h : ensureOrgContract ctx s orgId userId = .ok (s', c)) : Adds s s' := by
  rw [ensureOrgContract, bind_eq_ok] at h
  obtain ⟨o, -, h⟩ := h
  cases o with
  | some c =>
    obtain ⟨rfl, -⟩ := Prod.mk.inj (Except.ok.inj h)
    exact .refl s
  | none =>
    simp only at h
    split at h
    · cases h
    · rename_i contracts hinsert
      obtain ⟨rfl, -⟩ := Prod.mk.inj (Except.ok.inj h)
      exact ⟨rfl, fun c hc _ => (Table.mem_insert? hinsert).mpr (.inl hc), fun _ hl _ => hl,
        fun _ _ hg => hg⟩

theorem grantAtoms_eq_ok {atomSlugs : List Str}
    (h : grantAtoms ctx s contractId atomSlugs = .ok s') : Adds s s' := by
  simp only [grantAtoms] at h
  split at h
  · refine foldlM_keeps Spares.refl Spares.trans ?_ h
    intro s₁ gene s₂ h
    split at h
    · obtain rfl := Except.ok.inj h
      exact .refl s₁
    · exact (addGene_eq_ok h).1
  · cases h

/-! What the requests leave. -/

theorem createOrgMember_eq_ok {target : Target} {atomSlugs : List Str} {c : Contract}
    (h : createOrgMember ctx s orgId target atomSlugs = .ok (s', c)) : Adds s s' := by
  simp only [createOrgMember, bind_eq_ok] at h
  obtain ⟨caller, -, org, -, -, -, user, -, o, -, h⟩ := h
  cases o with
  | some _ => cases h
  | none =>
    simp only [bind_eq_ok, mapError_eq_ok] at h
    obtain ⟨⟨s₁, genes⟩, hgenes, ⟨s₂, c'⟩, hc, s₃, hs₃, h⟩ := h
    obtain ⟨rfl, -⟩ := Prod.mk.inj (Except.ok.inj h)
    exact ((atomGenes_eq_ok hgenes).1.1.trans (ensureOrgContract_eq_ok hc)).trans
      (grantAtoms_eq_ok hs₃)

theorem currentUser_eq_ok {user : User} (h : currentUser ctx s = .ok user) :
    s.activeUser? ctx.caller = some user ∧ user.id = ctx.caller := by
  simp only [currentUser] at h
  split at h
  · cases h
  · rename_i user' huser
    obtain rfl := Except.ok.inj h
    exact ⟨huser, Table.find?_key (Option.filter_eq_some_iff.mp huser).1⟩

/-- Whoever is let through, but for super-admins, manages the organization by a contract. -/
theorem manages_of_permission {caller : User} (hcaller : currentUser ctx s = .ok caller)
    (hsuper : caller.isSuperAdmin = false)
    (h : requirePermission s caller.id "can_manage_org_members".toList
      ⟨some orgId, none, none⟩ = .ok ()) :
    ∃ c ∈ s.organization.contracts.rows, c.userId = caller.id ∧ Manages s orgId c.id := by
  obtain ⟨hactive, hid⟩ := currentUser_eq_ok hcaller
  rw [requirePermission_eq_ok, hid, hactive] at h
  obtain ⟨user, huser, hsuper' | ⟨nsId, hns, home, hhome, -, hholds⟩⟩ := h
  · cases huser
    rw [hsuper] at hsuper'
    cases hsuper'
  · obtain rfl := Except.ok.inj hns
    cases hhome
    rcases hholds with ⟨c, hc, horg, huser, hactive, hcarries⟩ | ⟨id, hid, -⟩
    · exact ⟨c, hc, huser.trans hid.symm, c, hc, rfl, horg, hactive, _, .tail _ (.head _), hcarries⟩
    · cases hid

theorem manages_of_other (h : orgHasOtherManageHolder s orgId contractId = true) :
    ∃ id, id ≠ contractId ∧ Manages s orgId id := by
  obtain ⟨l, hl, h⟩ := List.any_eq_true.mp h
  simp only [Bool.and_eq_true, decide_eq_true_eq, Bool.not_eq_true', Option.any_eq_true] at h
  obtain ⟨⟨⟨hne, hactive⟩, c, hc, horg, hcactive⟩, g, hg, hgactive, hslug⟩ := h
  refine ⟨l.contractId, hne, c, Table.find?_mem hc, Table.find?_key hc, horg, hcactive, g.slug,
    List.contains_iff_mem.mp hslug, l, hl, (Table.find?_key hc).symm, hactive, g, hg, hgactive, rfl⟩

theorem getOrgContract_eq_ok {c : Contract} (h : getOrgContract s orgId contractId = .ok c) :
    c ∈ s.organization.contracts.rows ∧ c.deleted = false ∧ c.scopeId = orgId := by
  simp only [getOrgContract] at h
  split at h
  · cases h
  · rename_i c' hc
    obtain rfl := Except.ok.inj h
    obtain ⟨hfind, hc⟩ := Option.filter_eq_some_iff.mp hc
    simp only [Bool.and_eq_true, Bool.not_eq_true', decide_eq_true_eq] at hc
    exact ⟨Table.find?_mem hfind, hc⟩

/-- Whoever gives up a contract leaves another that manages. -/
theorem manages_of_guard_deleting {caller : User} {c : Contract} {slugs : Option (List Str)}
    (hsuper : caller.isSuperAdmin = false) (hown : c.userId = caller.id)
    (h : guardCannotLockSelf s caller orgId c slugs true = .ok ()) :
    ∃ id, id ≠ c.id ∧ Manages s orgId id := by
  simp only [guardCannotLockSelf, hsuper, hown, ne_eq, not_true_eq_false, decide_false,
    Bool.or_self, Bool.false_eq_true, if_false, if_true] at h
  split at h
  · rename_i hother
    exact manages_of_other hother
  · cases h

/-- Whoever changes the own atoms keeps one that manages, or leaves another contract that does. -/
theorem manages_of_guard {caller : User} {c : Contract} {slugs : List Str}
    (hsuper : caller.isSuperAdmin = false) (hown : c.userId = caller.id)
    (h : guardCannotLockSelf s caller orgId c (some slugs) false = .ok ()) :
    (∃ slug ∈ manageAtoms, slug ∈ slugs) ∨ ∃ id, id ≠ c.id ∧ Manages s orgId id := by
  simp only [guardCannotLockSelf, hsuper, hown, ne_eq, not_true_eq_false, decide_false,
    Bool.or_self, Bool.false_eq_true, if_false, Option.getD_some] at h
  split at h
  · cases h
  · split at h
    · cases h
    · rename_i hleft
      rw [Bool.and_eq_true, Bool.not_eq_true', Bool.not_eq_true', not_and_or,
        Bool.not_eq_false, Bool.not_eq_false] at hleft
      rcases hleft with hkept | hother
      · obtain ⟨slug, hslug, hin⟩ := List.any_eq_true.mp hkept
        exact .inl ⟨slug, hslug, List.contains_iff_mem.mp hin⟩
      · exact .inr (manages_of_other hother)

/-- The atoms that are asked for are there afterwards. -/
theorem carries_of_update {s₁ : Db} {genes : List UserGene} {slug : Str} {g : UserGene}
    (hg : g ∈ genes) (hfind : s.userGenes.find? g.id = some g) (hslug : g.slug = slug)
    (hactive : g.deleted = false)
    (hkept : s₁ = { s with
      organization := s.organization.keepGenes contractId (genes.map UserGene.id) })
    (h : ((genes.map UserGene.id).filter fun id =>
        !((s.organization.activeGenes contractId).map ContractGene.userGeneId).contains id).foldlM
      (addGene ctx contractId) s₁ = .ok s') :
    Carries s'.organization s'.userGenes contractId slug := by
  subst hkept
  have hstep : ∀ {s₁ id s₂}, addGene ctx contractId s₁ id = .ok s₂ → Adds s₁ s₂ := fun h =>
    (addGene_eq_ok h).1
  have hadds := foldlM_keeps Spares.refl Spares.trans hstep h
  have hdesired := List.mem_map_of_mem (f := UserGene.id) hg
  by_cases hcurrent : g.id ∈ (s.organization.activeGenes contractId).map ContractGene.userGeneId
  · obtain ⟨l, hl, hgene⟩ := List.mem_map.mp hcurrent
    obtain ⟨hl, hcontract, hlactive⟩ := mem_activeGenes.mp hl
    have hkept : l ∈ (s.organization.keepGenes contractId (genes.map UserGene.id)).genes.rows :=
      mem_keepGenes hl (.inr (hgene ▸ hdesired))
    refine ⟨l, hadds.genes l hkept trivial, hcontract, hlactive, g, ?_, hactive, hslug⟩
    rw [hgene]
    exact hadds.userGenes g.id g hfind
  · have hnew : g.id ∈ (genes.map UserGene.id).filter fun id =>
        !((s.organization.activeGenes contractId).map ContractGene.userGeneId).contains id := by
      rw [List.mem_filter]
      simpa [hdesired] using hcurrent
    obtain ⟨s₂, s₃, hs₃, hrest⟩ := foldlM_reaches Spares.refl Spares.trans hstep hnew h
    obtain ⟨-, -, l, hl, hcontract, hgene, hlactive⟩ := addGene_eq_ok hs₃
    refine ⟨l, hrest.genes l hl trivial, hcontract, hlactive, g, ?_, hactive, hslug⟩
    rw [hgene]
    exact hadds.userGenes g.id g hfind

/-- Whoever is let through manages the organization by a contract that is not somebody else's. -/
theorem manages_beside {caller : User} {c : Contract} (hcaller : currentUser ctx s = .ok caller)
    (hsuper : caller.isSuperAdmin = false)
    (h : requirePermission s caller.id "can_manage_org_members".toList
      ⟨some orgId, none, none⟩ = .ok ()) (hc : c ∈ s.organization.contracts.rows)
    (hother : c.userId ≠ caller.id) : ∃ id, id ≠ c.id ∧ Manages s orgId id := by
  obtain ⟨c', hc', huser, hm⟩ := manages_of_permission hcaller hsuper h
  refine ⟨c'.id, ?_, hm⟩
  intro hid
  rw [s.organization.contracts.eq_of_key_eq hc' hc hid] at huser
  exact hother huser

/-- A contract counts for its own organization only. -/
theorem manages_other_organization {c : Contract} (hc : c ∈ s.organization.contracts.rows)
    (hne : c.scopeId ≠ orgId) (hm : Managed s orgId) : ∃ id, id ≠ c.id ∧ Manages s orgId id := by
  obtain ⟨id, c', hc', hid, horg, hrest⟩ := hm
  refine ⟨id, ?_, c', hc', hid, horg, hrest⟩
  rintro rfl
  rw [s.organization.contracts.eq_of_key_eq hc' hc hid] at horg
  exact hne horg

/-- The caller is no super-admin. -/
def Ordinary (s : Db) (userId : Id) : Prop :=
  ∀ user, s.activeUser? userId = some user → user.isSuperAdmin = false

theorem managed_createOrgMember {reqOrgId : Id} {target : Target} {atomSlugs : List Str}
    {c : Contract} (hm : Managed s orgId)
    (h : createOrgMember ctx s reqOrgId target atomSlugs = .ok (s', c)) :
    s'.users = s.users ∧ Managed s' orgId := by
  obtain ⟨id, hm⟩ := hm
  have hadds := createOrgMember_eq_ok h
  exact ⟨hadds.users, id, hadds.manages trivial trivial hm⟩

theorem managed_updateOrgMemberAtoms {reqOrgId reqContractId : Id} {atomSlugs : List Str}
    {c : Contract} (hordinary : Ordinary s ctx.caller) (hm : Managed s orgId)
    (h : updateOrgMemberAtoms ctx s reqOrgId reqContractId atomSlugs = .ok (s', c)) :
    s'.users = s.users ∧ Managed s' orgId := by
  simp only [updateOrgMemberAtoms, bind_eq_ok] at h
  obtain ⟨caller, hcaller, org, -, _, hperm, c', hc, ⟨s₁, genes⟩, hgenes, _, hguard, s₂, hs₂,
    h⟩ := h
  obtain ⟨rfl, rfl⟩ := Prod.mk.inj (Except.ok.inj h)
  have hsuper := hordinary caller (currentUser_eq_ok hcaller).1
  obtain ⟨hc, hactive, hscope⟩ := getOrgContract_eq_ok hc
  obtain ⟨⟨hadds, -⟩, hgenes⟩ := atomGenes_eq_ok hgenes
  have hrest := foldlM_keeps Spares.refl Spares.trans (fun h => (addGene_eq_ok h).1) hs₂
  have hspares := (spares_keepGenes s₁ c'.id (genes.map UserGene.id)).trans
    (hrest.weaken (fun _ _ => trivial) fun _ _ => trivial)
  have hc₁ := hadds.contracts c' hc trivial
  refine ⟨hspares.users.trans hadds.users, ?_⟩
  have hleft : (c'.scopeId = orgId ∧ ∃ slug ∈ manageAtoms, slug ∈ atomSlugs) ∨
      ∃ id, id ≠ c'.id ∧ Manages s₁ orgId id := by
    by_cases horg : c'.scopeId = orgId
    · obtain rfl := hscope.symm.trans horg
      by_cases hown : c'.userId = caller.id
      · exact (manages_of_guard hsuper hown hguard).imp_left fun h => ⟨hscope, h⟩
      · obtain ⟨id, hne, hid⟩ := manages_beside hcaller hsuper hperm hc hown
        exact .inr ⟨id, hne, hadds.manages trivial trivial hid⟩
    · obtain ⟨id, hm⟩ := hm
      exact .inr (manages_other_organization hc₁ horg ⟨id, hadds.manages trivial trivial hm⟩)
  rcases hleft with ⟨horg, slug, hmanage, hslug⟩ | ⟨id, hne, hid⟩
  · obtain ⟨g, hg, hfind, hgslug, hgactive⟩ := hgenes slug hslug
    exact ⟨c'.id, c', hspares.contracts c' hc₁ trivial, rfl, horg, hactive, slug, hmanage,
      carries_of_update hg hfind hgslug hgactive rfl hs₂⟩
  · exact ⟨id, hspares.manages trivial hne hid⟩

theorem managed_deleteOrgMember {reqOrgId reqContractId : Id} {c : Contract}
    (hordinary : Ordinary s ctx.caller) (hm : Managed s orgId)
    (h : deleteOrgMember ctx s reqOrgId reqContractId = .ok (s', c)) :
    s'.users = s.users ∧ Managed s' orgId := by
  simp only [deleteOrgMember, bind_eq_ok] at h
  obtain ⟨caller, hcaller, org, -, _, hperm, c', hc, _, hguard, h⟩ := h
  obtain ⟨rfl, rfl⟩ := Prod.mk.inj (Except.ok.inj h)
  have hsuper := hordinary caller (currentUser_eq_ok hcaller).1
  obtain ⟨hc, -, hscope⟩ := getOrgContract_eq_ok hc
  have hspares := spares_dropContract s c'.id
  refine ⟨hspares.users, ?_⟩
  have hleft : ∃ id, id ≠ c'.id ∧ Manages s orgId id := by
    by_cases horg : c'.scopeId = orgId
    · obtain rfl := hscope.symm.trans horg
      by_cases hown : c'.userId = caller.id
      · exact manages_of_guard_deleting hsuper hown hguard
      · exact manages_beside hcaller hsuper hperm hc hown
    · exact manages_other_organization hc horg hm
  obtain ⟨id, hne, hid⟩ := hleft
  exact ⟨id, hspares.manages hne hne hid⟩

theorem managed_prepare {r : MemberRequest} {c : Contract} (hordinary : Ordinary s r.ctx.caller)
    (hm : Managed s orgId) (h : prepare s r = .ok (s', c)) :
    s'.users = s.users ∧ Managed s' orgId := by
  obtain ⟨ctx, call⟩ := r
  cases call with
  | create reqOrgId target atomSlugs => exact managed_createOrgMember hm h
  | update reqOrgId contractId atomSlugs => exact managed_updateOrgMemberAtoms hordinary hm h
  | delete reqOrgId contractId => exact managed_deleteOrgMember hordinary hm h

/-- However a request ends, it has written what it prepared, or nothing. -/
theorem serve_eq (s : Db) (r : MemberRequest) :
    serve s r = s ∨ ∃ c, prepare s r = .ok (serve s r, c) := by
  unfold serve answer
  cases h : prepare s r with
  | error e => exact .inl rfl
  | ok p =>
    obtain ⟨s', c⟩ := p
    simp only
    cases r.ctx.commit with
    | integrityError =>
      cases r.call <;> exact .inl rfl
    | connectionLost written =>
      cases written with
      | true => exact .inr ⟨c, rfl⟩
      | false => exact .inl rfl
    | done =>
      right
      refine ⟨c, ?_⟩
      cases r.call with
      | delete orgId contractId => rfl
      | create orgId target atomSlugs => cases orgMemberItem s' c <;> rfl
      | update orgId contractId atomSlugs => cases orgMemberItem s' c <;> rfl

theorem managed_serve {r : MemberRequest} (hordinary : Ordinary s r.ctx.caller)
    (hm : Managed s orgId) : (serve s r).users = s.users ∧ Managed (serve s r) orgId := by
  rcases serve_eq s r with h | ⟨c, h⟩
  · rw [h]
    exact ⟨rfl, hm⟩
  · exact managed_prepare hordinary hm h

/-- Members who are no super-admins never leave an organization with nobody to manage it. -/
theorem always_managed (s : Db) (orgId : Id) (rs : List MemberRequest)
    (hordinary : ∀ r ∈ rs, Ordinary s r.ctx.caller) (hm : Managed s orgId) :
    Run.Always serve (Managed · orgId) s rs := by
  induction rs generalizing s with
  | nil => exact hm
  | cons r rs ih =>
    obtain ⟨husers, hm'⟩ := managed_serve (hordinary r (.head rs)) hm
    refine ⟨hm, ih (serve s r) ?_ hm'⟩
    intro r' hr'
    have := hordinary r' (.tail r hr')
    rwa [Ordinary, Db.activeUser?, ← husers] at this

/-- Acme with one manager. -/
def single : Db where
  users := .single ⟨"wei", "wei".toList, none, "wei@acme".toList, false, false⟩
  organizations := .single ⟨"acme", "acme".toList, false⟩
  namespaces := .empty
  workspaces := .empty
  userGenes := .single ⟨"atom", "can_manage_org_members".toList, "members".toList, false⟩
  organization :=
    ⟨.single ⟨"seal", "acme", "wei", 0, false⟩, .single ⟨"grant", "seal", "atom", false⟩⟩
  namespaced := ⟨.empty, .empty⟩

theorem always_managed_single :
    let ctx : Context := ⟨"wei", 1, "seal-2", String.ofList, id, fun _ _ => false, .done⟩
    Run.Always serve (Managed · "acme") single
      [⟨ctx, .update "acme" "seal" []⟩, ⟨ctx, .delete "acme" "seal"⟩] := by
  intro ctx
  refine always_managed single "acme" _ ?_ ?_
  · intro r hr user huser
    have hcaller : r.ctx.caller = "wei" := by
      simp only [List.mem_cons, List.not_mem_nil, or_false] at hr
      rcases hr with rfl | rfl <;> rfl
    rw [hcaller] at huser
    cases huser
    rfl
  · exact ⟨"seal", _, .head _, rfl, rfl, rfl, _, .tail _ (.head _), _, .head _, rfl, rfl, _, rfl,
      rfl, rfl⟩

end Eyot.Access
