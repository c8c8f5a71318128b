import Eyot.Library.Keeps
import Eyot.Tenancy.Requests

/-! What no request takes back: a row stays, with its scope, its ids and its parent. -/

namespace Eyot.Tenancy

open Market (Link Namespace refs attach attachAll cloneJunction detach)

variable {s s' s'' : State} {kind : Kind}

def ScopedRow.stamp (r : ScopedRow) : Scope × ScopeIds := (r.scope, r.ids)

structure Grows (s s' : State) : Prop where
  resources : ∀ kind, Table.Keeps ScopedRow.stamp (s.resources kind) (s'.resources kind)
  entities : Table.Keeps Entity.namespaceId s.entities s'.entities
  namespaces : Table.Keeps Namespace.orgId s.namespaces s'.namespaces

theorem Grows.refl (s : State) : Grows s s := ⟨fun _ => .refl _, .refl _, .refl _⟩

theorem Grows.trans (h : Grows s s') (h' : Grows s' s'') : Grows s s'' :=
  ⟨fun kind => (h.resources kind).trans (h'.resources kind), h.entities.trans h'.entities,
    h.namespaces.trans h'.namespaces⟩

theorem Grows.row {id : Id} {r : ScopedRow} (h : Grows s s')
    (hr : (s.resources kind).find? id = some r) :
    ∃ r', (s'.resources kind).find? id = some r' ∧ r'.scope = r.scope ∧ r'.ids = r.ids := by
  obtain ⟨r', hr', hstamp⟩ := Option.map_eq_some_iff.mp ((h.resources kind).view_eq hr)
  obtain ⟨hscope, hids⟩ := Prod.mk.inj hstamp
  exact ⟨r', hr', hscope, hids⟩

theorem Grows.orgOf {namespaceId org : Id} (h : Grows s s') (horg : s.orgOf namespaceId = some org) :
    s'.orgOf namespaceId = some org :=
  h.namespaces namespaceId org horg

theorem Grows.entityOrg {id org : Id} (h : Grows s s') (horg : s.entityOrg id = some org) :
    s'.entityOrg id = some org := by
  obtain ⟨e, he, horg⟩ := Option.bind_eq_some_iff.mp horg
  obtain ⟨e', he', hns⟩ := Option.map_eq_some_iff.mp (h.entities.view_eq he)
  rw [State.entityOrg, he', Option.bind_some, hns]
  exact h.orgOf horg

theorem Grows.classOrg {id org : Id} (h : Grows s s') (horg : s.classOrg id = some org) :
    s'.classOrg id = some org := by
  obtain ⟨b, hb, horg⟩ := Option.bind_eq_some_iff.mp horg
  obtain ⟨b', hb', hscope, hids⟩ := h.row hb
  rw [State.classOrg, hb', Option.bind_some, ScopedRow.owner, hscope, hids]
  exact horg

theorem grows_setRows {rows : Table ScopedRow.id}
    (h : Table.Keeps ScopedRow.stamp (s.resources kind) rows) : Grows s (s.setRows kind rows) := by
  refine ⟨?_, .refl _, .refl _⟩
  intro k
  by_cases hk : k = kind
  · subst hk
    rw [State.setRows_resources, Function.update_self]
    exact h
  · rw [State.setRows_resources, Function.update_of_ne hk]
    exact .refl _

/-! Where a capability is put to use: at an entity, at a base class, or in the answer to a
distillation of an entity. -/

inductive Site where
  | entity | baseClass | report

namespace State

def uses (s : State) : Site → Id → List Id
  | .entity, id => refs s.entityCapabilities id
  | .baseClass, id => refs s.baseClassCapabilities id
  | .report, id => (s.reported.filter fun r => decide (r.1 = id)).map Prod.snd

/-- The organization a site belongs to. -/
def siteOrg (s : State) : Site → Id → Option Id
  | .entity, id => s.entityOrg id
  | .baseClass, id => s.classOrg id
  | .report, id => s.entityOrg id

end State

theorem Grows.siteOrg {site : Site} {id org : Id} (h : Grows s s')
    (horg : s.siteOrg site id = some org) : s'.siteOrg site id = some org := by
  cases site with
  | entity => exact h.entityOrg horg
  | baseClass => exact h.classOrg horg
  | report => exact h.entityOrg horg

/-- The step puts no capability to a new use. -/
structure Quiet (s s' : State) : Prop where
  grows : Grows s s'
  uses : ∀ site id, s'.uses site id ⊆ s.uses site id

theorem Quiet.refl (s : State) : Quiet s s := ⟨.refl s, fun _ _ _ h => h⟩

theorem Quiet.trans (h : Quiet s s') (h' : Quiet s' s'') : Quiet s s'' :=
  ⟨h.grows.trans h'.grows, fun site id => List.Subset.trans (h'.uses site id) (h.uses site id)⟩

theorem Grows.quiet (h : Grows s s') (hentity : s'.entityCapabilities = s.entityCapabilities)
    (hclass : s'.baseClassCapabilities = s.baseClassCapabilities)
    (hreported : s'.reported = s.reported) : Quiet s s' := by
  refine ⟨h, ?_⟩
  intro site id
  cases site with
  | entity => rw [State.uses, hentity, State.uses]; exact fun _ h => h
  | baseClass => rw [State.uses, hclass, State.uses]; exact fun _ h => h
  | report => rw [State.uses, hreported, State.uses]; exact fun _ h => h

theorem quiet_setRows {rows : Table ScopedRow.id}
    (h : Table.Keeps ScopedRow.stamp (s.resources kind) rows) : Quiet s (s.setRows kind rows) :=
  (grows_setRows h).quiet rfl rfl rfl

theorem quiet_insertRow {row : ScopedRow} (h : s.insertRow kind row = some s') : Quiet s s' := by
  obtain ⟨rows, hrows, rfl⟩ := State.insertRow_eq_some h
  exact quiet_setRows (Table.keeps_insert? hrows)

theorem quiet_insertEntity {e : Entity} (h : insertEntity s e = some s') : Quiet s s' := by
  rw [insertEntity] at h
  split at h
  · cases h
  · obtain ⟨entities, hentities, rfl⟩ := Option.map_eq_some_iff.mp h
    have hgrows : Grows s { s with entities := entities } :=
      ⟨fun _ => .refl _, Table.keeps_insert? hentities, .refl _⟩
    exact hgrows.quiet rfl rfl rfl

theorem quiet_createOrganization {id : Id} {slug : Str}
    (h : createOrganization s id slug = some s') : Quiet s s' := by
  rw [createOrganization] at h
  split at h
  · cases h
  · obtain ⟨organizations, _, rfl⟩ := Option.map_eq_some_iff.mp h
    have hgrows : Grows s { s with organizations := organizations } :=
      ⟨fun _ => .refl _, .refl _, .refl _⟩
    exact hgrows.quiet rfl rfl rfl

theorem quiet_createRow {id : Id} {name : Str} {inlined : List Str} {scope : Scope}
    {ids : ScopeIds} {currentOrgId : Option Id}
    (h : createRow s kind id name inlined scope ids currentOrgId = some s') : Quiet s s' := by
  rw [createRow] at h
  split at h
  · cases h
  · split at h
    · cases h
    · exact quiet_insertRow h

theorem quiet_patchRow {id : Id} {name : Option Str} {inlined : Option (List Str)}
    (h : patchRow s kind id name inlined = some s') : Quiet s s' := by
  rw [patchRow] at h
  split at h
  · cases h
  · split at h
    · cases h
    · cases h
      exact quiet_setRows (Table.keeps_updateWhere _ _ fun _ => rfl)

theorem quiet_deleteRow {id : Id} (h : deleteRow s kind id = some s') : Quiet s s' := by
  rw [deleteRow] at h
  split at h
  · cases h
  · split at h
    · cases h
    · cases h
      exact quiet_setRows (Table.keeps_updateWhere _ _ fun _ => rfl)

theorem quiet_uploadNew {names : List (Str × Id)} (h : uploadNew s names = some s') :
    Quiet s s' := by
  induction names generalizing s with
  | nil =>
    obtain rfl := Option.some.inj h
    exact .refl _
  | cons n names ih =>
    rw [uploadNew] at h
    split at h
    · exact ih h
    · split at h
      · cases h
      · rename_i s₁ h₁
        exact (quiet_insertRow h₁).trans (ih h)

/-! Links. -/

section

variable {links links' : List Link} {parent ref id cap : Id}

theorem mem_refs_attach :
    cap ∈ refs (attach links parent ref) id ↔ cap ∈ refs links id ∨ id = parent ∧ cap = ref := by
  by_cases hid : id = parent
  · subst hid
    rw [attach]
    split
    · rename_i hmem
      constructor
      · exact .inl
      · rintro (h | ⟨-, rfl⟩)
        · exact h
        · exact hmem
    · rw [Market.refs_append]
      simp [refs]
  · rw [Market.refs_attach_of_ne links hid]
    simp [hid]

theorem mem_refs_attachAll {caps : List Id} :
    cap ∈ refs (attachAll links parent caps) id ↔
      cap ∈ refs links id ∨ id = parent ∧ cap ∈ caps := by
  induction caps generalizing links with
  | nil => simp [attachAll]
  | cons c caps ih =>
    have hstep : attachAll links parent (c :: caps) = attachAll (attach links parent c) parent caps :=
      rfl
    rw [hstep, ih, mem_refs_attach, List.mem_cons, or_assoc, ← and_or_left]

/-- One capability attached to several parents. -/
theorem mem_refs_foldl_attach {parents : List ScopedRow} :
    cap ∈ refs (parents.foldl (fun links b => attach links b.id ref) links) id ↔
      cap ∈ refs links id ∨ cap = ref ∧ ∃ b ∈ parents, id = b.id := by
  induction parents generalizing links with
  | nil => simp
  | cons b bs ih =>
    rw [List.foldl_cons, ih, mem_refs_attach, or_assoc]
    apply or_congr_right
    simp only [List.mem_cons, exists_eq_or_imp, and_comm (a := id = b.id), and_or_left]

theorem mem_refs_cloneJunction {source target : Id} :
    cap ∈ refs (cloneJunction links source target) id ↔
      cap ∈ refs links id ∨ id = target ∧ cap ∈ refs links source := by
  rw [cloneJunction, Market.refs_append, List.mem_append]
  apply or_congr_right
  by_cases hid : id = target
  · subst hid
    simp [refs, List.filter_map, Function.comp_def]
  · simp [refs, List.filter_map, Function.comp_def, Ne.symm hid, hid]

theorem refs_detach_subset (h : detach links parent ref = some links') :
    refs links' id ⊆ refs links id := by
  rw [detach] at h
  split at h
  · cases h
    intro cap hcap
    obtain ⟨l, hl, rfl⟩ := List.mem_map.mp hcap
    obtain ⟨hl, hactive⟩ := List.mem_filter.mp hl
    obtain ⟨old, hold, rfl⟩ := List.mem_map.mp hl
    rw [Link.softDelete] at hactive ⊢
    split at hactive
    · simp at hactive
    · rename_i hne
      rw [if_neg hne]
      exact List.mem_map.mpr ⟨old, List.mem_filter.mpr ⟨hold, hactive⟩, rfl⟩
  · cases h

theorem refs_softDeleteLinks_subset (parents : List Id) :
    refs (softDeleteLinks parents links) id ⊆ refs links id := by
  intro cap hcap
  obtain ⟨l, hl, rfl⟩ := List.mem_map.mp hcap
  obtain ⟨hl, hactive⟩ := List.mem_filter.mp hl
  obtain ⟨old, hold, rfl⟩ := List.mem_map.mp hl
  by_cases hp : parents.contains old.parentId
  · rw [if_pos hp] at hactive
    simp at hactive
  · rw [if_neg hp] at hactive ⊢
    exact List.mem_map.mpr ⟨old, List.mem_filter.mpr ⟨hold, hactive⟩, rfl⟩

/-- The junctions of several rows cloned, one row after the other. -/
def cloneJunctions {α : Type} (source target : α → Id) (links : List Link) (rows : List α) :
    List Link :=
  rows.foldl (fun links r => cloneJunction links (source r) (target r)) links

/-- Where no source is a target, each target gets what its source had at first. -/
theorem mem_refs_cloneJunctions {α : Type} {source target : α → Id} {rows : List α}
    (hfresh : ∀ r ∈ rows, ∀ r' ∈ rows, source r ≠ target r') :
    cap ∈ refs (cloneJunctions source target links rows) id ↔
      cap ∈ refs links id ∨ ∃ r ∈ rows, id = target r ∧ cap ∈ refs links (source r) := by
  induction rows generalizing links with
  | nil => simp [cloneJunctions]
  | cons r rows ih =>
    have hstep : cloneJunctions source target links (r :: rows) =
        cloneJunctions source target (cloneJunction links (source r) (target r)) rows := rfl
    have hold : ∀ r' ∈ rows, (cap ∈ refs (cloneJunction links (source r) (target r)) (source r') ↔
        cap ∈ refs links (source r')) := by
      intro r' hr'
      rw [mem_refs_cloneJunction]
      simp [hfresh r' (List.mem_cons_of_mem r hr') r List.mem_cons_self]
    replace ih := @ih (cloneJunction links (source r) (target r)) fun r₁ h₁ r₂ h₂ =>
      hfresh r₁ (List.mem_cons_of_mem r h₁) r₂ (List.mem_cons_of_mem r h₂)
    rw [hstep, ih, mem_refs_cloneJunction, or_assoc]
    apply or_congr_right
    constructor
    · rintro (⟨hid, hcap⟩ | ⟨r', hr', hid, hcap⟩)
      · exact ⟨r, List.mem_cons_self, hid, hcap⟩
      · exact ⟨r', List.mem_cons_of_mem r hr', hid, (hold r' hr').mp hcap⟩
    · rintro ⟨r', hr', hid, hcap⟩
      rcases List.mem_cons.mp hr' with rfl | hr'
      · exact .inl ⟨hid, hcap⟩
      · exact .inr ⟨r', hr', hid, (hold r' hr').mpr hcap⟩

end

end Eyot.Tenancy
