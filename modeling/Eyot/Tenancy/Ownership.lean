import Eyot.Library.Run
import Eyot.Tenancy.Grows

/-! Which requests put to use, at an entity, at a base class or in an answer, only capabilities
of the organization there. -/

namespace Eyot.Tenancy

open Market (CloneNames Namespace refs attach attachAll)

variable {s s' : State} {org : Option Id}

/-- A capability that everybody has, or one of organization `org`. -/
def Owns (org : Option Id) (cap : ScopedRow) : Prop :=
  cap.scope = .system ∨ ∃ o, org = some o ∧ cap.ids.organizationId = some o

def Tenant (s : State) (org : Option Id) (id : Id) : Prop :=
  ∃ cap, (s.resources .capability).find? id = some cap ∧ Owns org cap

/-- What is in use at a site is the site's own. -/
def Tenanted (s : State) : Prop :=
  ∀ site id, ∀ cap ∈ s.uses site id, Tenant s (s.siteOrg site id) cap

theorem tenanted_empty : Tenanted .empty := by
  intro site id cap hcap
  cases site <;> cases hcap

theorem owns_congr {cap cap' : ScopedRow} (hscope : cap'.scope = cap.scope)
    (hids : cap'.ids = cap.ids) : Owns org cap' ↔ Owns org cap := by
  rw [Owns, Owns, hscope, hids]

theorem Owns.mono {org' : Option Id} {cap : ScopedRow} (h : ∀ o, org = some o → org' = some o) :
    Owns org cap → Owns org' cap := by
  rintro (hsystem | ⟨o, ho, hcap⟩)
  · exact .inl hsystem
  · exact .inr ⟨o, h o ho, hcap⟩

theorem tenant_iff_owns {id : Id} {cap : ScopedRow}
    (hcap : (s.resources .capability).find? id = some cap) : Tenant s org id ↔ Owns org cap := by
  simp only [Tenant, hcap, Option.some.injEq, exists_eq_left']

/-- Of a capability that is there, later states say the same. -/
theorem Grows.tenant_iff {id : Id} {cap : ScopedRow} (h : Grows s s')
    (hcap : (s.resources .capability).find? id = some cap) : Tenant s' org id ↔ Tenant s org id := by
  obtain ⟨cap', hcap', hscope, hids⟩ := h.row hcap
  rw [tenant_iff_owns hcap', tenant_iff_owns hcap]
  exact owns_congr hscope hids

theorem Tenant.grow {id : Id} (ht : Tenant s org id) (h : Grows s s') : Tenant s' org id := by
  obtain ⟨cap, hcap, howns⟩ := ht
  exact (h.tenant_iff hcap).mpr ⟨cap, hcap, howns⟩

theorem Tenant.mono {org' : Option Id} {id : Id} (h : ∀ o, org = some o → org' = some o)
    (ht : Tenant s org id) : Tenant s org' id := by
  obtain ⟨cap, hcap, howns⟩ := ht
  exact ⟨cap, hcap, howns.mono h⟩

/-- Growing leaves the uses of before in order. -/
theorem Tenanted.grow (hs : Tenanted s) (h : Grows s s') {site : Site} {id cap : Id}
    (hcap : cap ∈ s.uses site id) : Tenant s' (s'.siteOrg site id) cap :=
  ((hs site id cap hcap).grow h).mono fun _ => h.siteOrg

theorem Tenanted.quiet (hs : Tenanted s) (h : Quiet s s') : Tenanted s' :=
  fun site id _ hcap => hs.grow h.grows (h.uses site id hcap)

/-- What a step adds to the uses decides. -/
theorem tenanted_iff_of_new (new : Site → Id → Id → Prop) (hs : Tenanted s) (h : Grows s s')
    (huses : ∀ site id cap, cap ∈ s'.uses site id ↔ cap ∈ s.uses site id ∨ new site id cap) :
    Tenanted s' ↔ ∀ site id cap, new site id cap → Tenant s' (s'.siteOrg site id) cap := by
  constructor
  · intro hs' site id cap hnew
    exact hs' site id cap ((huses site id cap).mpr (.inr hnew))
  · intro hnew site id cap hcap
    rcases (huses site id cap).mp hcap with hold | hadded
    · exact hs.grow h hold
    · exact hnew site id cap hadded

/-- The step adds the capabilities `caps` to the uses at one site. -/
def AddsAt (s s' : State) (site : Site) (id : Id) (caps : List Id) : Prop :=
  ∀ site' id' cap, cap ∈ s'.uses site' id' ↔
    cap ∈ s.uses site' id' ∨ site' = site ∧ id' = id ∧ cap ∈ caps

theorem AddsAt.tenanted_after {site : Site} {id : Id} {caps : List Id}
    (h : AddsAt s s' site id caps) (hs : Tenanted s) (hgrows : Grows s s') :
    Tenanted s' ↔ ∀ cap ∈ caps, Tenant s' (s'.siteOrg site id) cap := by
  rw [tenanted_iff_of_new _ hs hgrows h]
  constructor
  · intro hnew cap hcap
    exact hnew site id cap ⟨rfl, rfl, hcap⟩
  · rintro hcaps site' id' cap ⟨rfl, rfl, hcap⟩
    exact hcaps cap hcap

theorem addsAt_entity {id : Id} {caps : List Id} (hlinks : ∀ id' cap,
      cap ∈ refs s'.entityCapabilities id' ↔
        cap ∈ refs s.entityCapabilities id' ∨ id' = id ∧ cap ∈ caps)
    (hclass : s'.baseClassCapabilities = s.baseClassCapabilities)
    (hreported : s'.reported = s.reported) : AddsAt s s' .entity id caps := by
  intro site id' cap
  cases site with
  | entity => simpa [State.uses] using hlinks id' cap
  | baseClass => simp [State.uses, hclass]
  | report => simp [State.uses, hreported]

theorem addsAt_baseClass {id : Id} {caps : List Id} (hlinks : ∀ id' cap,
      cap ∈ refs s'.baseClassCapabilities id' ↔
        cap ∈ refs s.baseClassCapabilities id' ∨ id' = id ∧ cap ∈ caps)
    (hentity : s'.entityCapabilities = s.entityCapabilities)
    (hreported : s'.reported = s.reported) : AddsAt s s' .baseClass id caps := by
  intro site id' cap
  cases site with
  | entity => simp [State.uses, hentity]
  | baseClass => simpa [State.uses] using hlinks id' cap
  | report => simp [State.uses, hreported]

theorem addsAt_report {id : Id} {caps : List Id}
    (hreported : s'.reported = s.reported ++ caps.map fun cap => (id, cap))
    (hentity : s'.entityCapabilities = s.entityCapabilities)
    (hclass : s'.baseClassCapabilities = s.baseClassCapabilities) :
    AddsAt s s' .report id caps := by
  intro site id' cap
  cases site with
  | entity => simp [State.uses, hentity]
  | baseClass => simp [State.uses, hclass]
  | report =>
    by_cases hid : id' = id
    · subst hid
      simp [State.uses, hreported]
    · simp [State.uses, hreported, hid, Ne.symm hid]

/-! Capabilities by name. -/

/-- What an upsert of the name would find belongs to `org`. -/
def FindsOwn (s : State) (org : Option Id) (name : Str) : Prop :=
  ∀ cap, s.named? .capability name = some cap → Owns org cap

theorem named?_insertRow {row : ScopedRow} (hrow : row.deleted = false)
    (h : s.insertRow .capability row = some s') (name : Str) :
    s'.named? .capability name =
      (s.named? .capability name).or (if row.name = name then some row else none) := by
  obtain ⟨rows, hrows, rfl⟩ := State.insertRow_eq_some h
  have hset : (s.setRows .capability rows).resources .capability = rows := rfl
  rw [State.named?, hset, Table.insert?_rows hrows, List.find?_append]
  congr 1
  by_cases hname : row.name = name <;> simp [hname, hrow]

theorem named?_find {name : Str} {cap : ScopedRow} (h : s.named? .capability name = some cap) :
    (s.resources .capability).find? cap.id = some cap :=
  (s.resources .capability).find?_of_mem (List.mem_of_find?_eq_some h)

theorem owns_learnedRow (id : Id) (name : Str) (org : Option Id) :
    Owns org (learnedRow id name org) := by
  cases org with
  | none => exact .inl rfl
  | some o => exact .inr ⟨o, rfl, rfl⟩

theorem setRows_self (s : State) (kind : Kind) : s.setRows kind (s.resources kind) = s := by
  rw [State.setRows, Function.update_eq_self]

theorem setRows_setRows (s : State) (kind : Kind) (rows rows' : Table ScopedRow.id) :
    (s.setRows kind rows).setRows kind rows' = s.setRows kind rows' := by
  rw [State.setRows, State.setRows_resources, Function.update_idem]
  rfl

theorem upsertCapability_cases {newId cap : Id} {name : Str}
    (h : upsertCapability s newId name org = some (s', cap)) :
    (∃ found, s.named? .capability name = some found ∧ s' = s ∧ cap = found.id) ∨
      (s.named? .capability name = none ∧ cap = newId ∧
        s.insertRow .capability (learnedRow newId name org) = some s') := by
  rw [upsertCapability] at h
  split at h
  · rename_i found hfound
    obtain ⟨rfl, rfl⟩ := Prod.mk.inj (Option.some.inj h)
    exact .inl ⟨found, hfound, rfl, rfl⟩
  · rename_i hnone
    obtain ⟨s₁, h₁, heq⟩ := Option.map_eq_some_iff.mp h
    obtain ⟨rfl, rfl⟩ := Prod.mk.inj heq
    exact .inr ⟨hnone, rfl, h₁⟩

theorem find?_insertRow {row : ScopedRow} {kind : Kind} (h : s.insertRow kind row = some s') :
    (s'.resources kind).find? row.id = some row := by
  obtain ⟨rows, hrows, rfl⟩ := State.insertRow_eq_some h
  rw [State.setRows_resources, Function.update_self, Table.find?_insert? hrows]
  exact if_pos rfl

/-- The capability that an upsert comes to is its organization's own, unless it was found and is
another's; the row it makes is no news to other names. -/
theorem upsertCapability_spec {newId cap : Id} {name : Str}
    (h : upsertCapability s newId name org = some (s', cap)) :
    ∃ rows, s' = s.setRows .capability rows ∧ Grows s s' ∧
      (∃ row, (s'.resources .capability).find? cap = some row) ∧
      (Tenant s' org cap ↔ FindsOwn s org name) ∧
      ∀ other, FindsOwn s' org other ↔ FindsOwn s org other := by
  rcases upsertCapability_cases h with ⟨found, hfound, rfl, rfl⟩ | ⟨hnone, rfl, h₁⟩
  · have hfind := named?_find hfound
    refine ⟨_, (setRows_self s' .capability).symm, .refl s', ⟨found, hfind⟩, ?_, fun _ => Iff.rfl⟩
    rw [tenant_iff_owns hfind, FindsOwn, hfound]
    simp
  · obtain ⟨rows, hrows, heq⟩ := State.insertRow_eq_some h₁
    have hfind := find?_insertRow h₁
    refine ⟨rows, heq, (quiet_insertRow h₁).grows, ⟨_, hfind⟩, ?_, ?_⟩
    · apply iff_of_true
      · exact (tenant_iff_owns hfind).mpr (owns_learnedRow cap name org)
      · intro found hfound
        rw [hnone] at hfound
        cases hfound
    · intro other
      rw [FindsOwn, named?_insertRow rfl h₁, FindsOwn]
      cases s.named? .capability other with
      | some found => simp
      | none =>
        apply iff_of_true
        · intro found hfound
          rw [Option.none_or] at hfound
          split at hfound
          · cases hfound
            exact owns_learnedRow cap name org
          · cases hfound
        · intro found hfound
          cases hfound

theorem upsertAll_spec {names : List (Str × Id)} {caps : List Id}
    (h : upsertAll org s names = some (s', caps)) :
    ∃ rows, s' = s.setRows .capability rows ∧ Grows s s' ∧
      ((∀ cap ∈ caps, Tenant s' org cap) ↔ ∀ n ∈ names, FindsOwn s org n.1) := by
  induction names generalizing s caps with
  | nil =>
    obtain ⟨rfl, rfl⟩ := Prod.mk.inj (Option.some.inj h)
    exact ⟨s.resources .capability, (setRows_self s _).symm, .refl s, by simp⟩
  | cons n names ih =>
    rw [upsertAll] at h
    split at h
    · cases h
    · rename_i s₁ cap h₁
      obtain ⟨⟨s₂, caps'⟩, h₂, heq⟩ := Option.map_eq_some_iff.mp h
      cases heq
      obtain ⟨rows₁, rfl, hgrows₁, ⟨row, hrow⟩, hcap, hnames⟩ := upsertCapability_spec h₁
      obtain ⟨rows₂, rfl, hgrows₂, hcaps⟩ := ih h₂
      refine ⟨rows₂, setRows_setRows s _ rows₁ rows₂, hgrows₁.trans hgrows₂, ?_⟩
      rw [List.forall_mem_cons, List.forall_mem_cons, hcaps, hgrows₂.tenant_iff hrow, hcap]
      simp only [hnames]

end Eyot.Tenancy
