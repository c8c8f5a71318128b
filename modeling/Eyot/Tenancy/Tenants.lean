import Eyot.Tenancy.Ownership

/-! The requests that put capabilities to use, and all requests one after the other. -/

namespace Eyot.Tenancy

open Market (CloneNames Namespace refs attach attachAll copyNamespaces)

variable {s s' : State} {org : Option Id}

theorem activeEntity?_find {id : Id} {e : Entity} (h : s.activeEntity? id = some e) :
    s.entities.find? id = some e :=
  (Option.filter_eq_some_iff.mp h).1

theorem active?_find {kind : Kind} {id : Id} {r : ScopedRow} (h : s.active? kind id = some r) :
    (s.resources kind).find? id = some r :=
  (Option.filter_eq_some_iff.mp h).1

theorem entityOrg_of_find {id : Id} {e : Entity} (h : s.entities.find? id = some e) :
    s.entityOrg id = s.orgOf e.namespaceId := by
  rw [State.entityOrg, h, Option.bind_some]

theorem classOrg_of_find {id : Id} {b : ScopedRow}
    (h : (s.resources .baseClass).find? id = some b) : s.classOrg id = b.owner := by
  rw [State.classOrg, h, Option.bind_some]

theorem owner_learnedRow (id : Id) (name : Str) (org : Option Id) :
    (learnedRow id name org).owner = org := by
  cases org with
  | none => rfl
  | some o => rfl

/-! By id. -/

theorem tenanted_attachEntityCapability {id capabilityId : Id} (hs : Tenanted s)
    (h : attachEntityCapability s id capabilityId = some s') :
    Tenanted s' ↔ Tenant s (s.entityOrg id) capabilityId := by
  rw [attachEntityCapability] at h
  split at h
  · cases h
    have hadds : AddsAt s { s with entityCapabilities := attach s.entityCapabilities id capabilityId }
        .entity id [capabilityId] :=
      addsAt_entity (fun id' cap => by rw [mem_refs_attach, List.mem_singleton]) rfl rfl
    rw [hadds.tenanted_after hs ⟨fun _ => .refl _, .refl _, .refl _⟩, List.forall_mem_singleton]
    rfl
  · cases h

theorem tenanted_attachBaseClassCapability {id capabilityId : Id} (hs : Tenanted s)
    (h : attachBaseClassCapability s id capabilityId = some s') :
    Tenanted s' ↔ Tenant s (s.classOrg id) capabilityId := by
  rw [attachBaseClassCapability] at h
  split at h
  · cases h
    have hadds : AddsAt s
        { s with baseClassCapabilities := attach s.baseClassCapabilities id capabilityId }
        .baseClass id [capabilityId] :=
      addsAt_baseClass (fun id' cap => by rw [mem_refs_attach, List.mem_singleton]) rfl rfl
    rw [hadds.tenanted_after hs ⟨fun _ => .refl _, .refl _, .refl _⟩, List.forall_mem_singleton]
    rfl
  · cases h

/-! By name. -/

theorem insertEntity_eq_some {e : Entity} (h : insertEntity s e = some s') :
    ∃ entities, s.entities.insert? e = some entities ∧ s' = { s with entities := entities } := by
  rw [insertEntity] at h
  split at h
  · cases h
  · obtain ⟨entities, hentities, rfl⟩ := Option.map_eq_some_iff.mp h
    exact ⟨entities, hentities, rfl⟩

theorem entityOrg_insertEntity {e : Entity} (h : insertEntity s e = some s') :
    s'.entityOrg e.id = s.orgOf e.namespaceId := by
  obtain ⟨entities, hentities, rfl⟩ := insertEntity_eq_some h
  apply entityOrg_of_find
  rw [Table.find?_insert? hentities]
  exact if_pos rfl

/-- Capabilities that were upserted in `s₂` are put to use at one site. -/
theorem Tenanted.iff_of_upserted {s₂ : State} {site : Site} {id : Id} {caps : List Id}
    {names : List Str} {newIds : Nat → Id} (hs : Tenanted s) (hadds : AddsAt s s' site id caps)
    (hgrows : Grows s s₂) (hres : s'.resources = s₂.resources)
    (hent : s'.entities = s.entities ∧ s'.namespaces = s.namespaces)
    (horg : s'.siteOrg site id = org)
    (hcaps : (∀ cap ∈ caps, Tenant s₂ org cap) ↔ ∀ n ∈ withIds names newIds, FindsOwn s org n.1) :
    Tenanted s' ↔ ∀ name ∈ names, FindsOwn s org name := by
  have hgrows' : Grows s s' := by
    refine ⟨?_, ?_, ?_⟩
    · rw [hres]
      exact hgrows.resources
    · rw [hent.1]
      exact .refl _
    · rw [hent.2]
      exact .refl _
  rw [hadds.tenanted_after hs hgrows', horg, ← forall_withIds names newIds (FindsOwn s org), ← hcaps]
  simp only [Tenant, hres]

theorem tenanted_distillEntity {id : Id} {names : List Str} {newIds : Nat → Id} (hs : Tenanted s)
    (h : distillEntity s id names newIds = some s') :
    Tenanted s' ↔ ∀ name ∈ names, FindsOwn s (s.entityOrg id) name := by
  rw [distillEntity] at h
  split at h
  · cases h
  · rename_i e he
    obtain ⟨⟨s₁, caps⟩, h₁, rfl⟩ := Option.map_eq_some_iff.mp h
    obtain ⟨rows, rfl, hgrows, hcaps⟩ := upsertAll_spec h₁
    have horg : s.entityOrg id = s.orgOf e.namespaceId := entityOrg_of_find (activeEntity?_find he)
    rw [horg]
    exact hs.iff_of_upserted (addsAt_report rfl rfl rfl) hgrows rfl ⟨rfl, rfl⟩ horg hcaps

theorem tenanted_promoteEntity {id : Id} {reaped : List Str} {newIds : Nat → Id} {e : Entity}
    (he : s.activeEntity? id = some e) (hs : Tenanted s)
    (h : promoteEntity s id reaped newIds = some s') :
    Tenanted s' ↔ ∀ name ∈ newNames (s.capabilityNames e) reaped,
      FindsOwn s (s.entityOrg id) name := by
  rw [promoteEntity, he] at h
  obtain ⟨⟨s₁, caps⟩, h₁, rfl⟩ := Option.map_eq_some_iff.mp h
  obtain ⟨rows, rfl, hgrows, hcaps⟩ := upsertAll_spec h₁
  have horg : s.entityOrg id = s.orgOf e.namespaceId := entityOrg_of_find (activeEntity?_find he)
  rw [horg]
  exact hs.iff_of_upserted (addsAt_entity (fun id' cap => mem_refs_attachAll) rfl rfl) hgrows rfl
    ⟨rfl, rfl⟩ horg hcaps

theorem tenanted_forkEntity {id newId : Id} {newSlug : Str} {reaped : List Str}
    {newIds : Nat → Id} {e : Entity} (he : s.activeEntity? id = some e) (hs : Tenanted s)
    (h : forkEntity s id newId newSlug reaped newIds = some s') :
    Tenanted s' ↔
      ∀ name ∈ (s.capabilityNames e ++ newNames (s.capabilityNames e) reaped).filter fun name =>
        name ≠ [], FindsOwn s (s.entityOrg id) name := by
  simp only [forkEntity, he] at h
  split at h
  · cases h
  · split at h
    · cases h
    · rename_i s₁ h₁
      have hs₁ : Tenanted s₁ := hs.quiet (quiet_insertEntity h₁)
      have hnewOrg := entityOrg_insertEntity h₁
      obtain ⟨entities, -, rfl⟩ := insertEntity_eq_some h₁
      obtain ⟨⟨s₂, caps⟩, h₂, rfl⟩ := Option.map_eq_some_iff.mp h
      obtain ⟨rows, rfl, hgrows, hcaps⟩ := upsertAll_spec h₂
      rw [entityOrg_of_find (activeEntity?_find he)]
      exact hs₁.iff_of_upserted (addsAt_entity (fun id' cap => mem_refs_attachAll) rfl rfl) hgrows
        rfl ⟨rfl, rfl⟩ hnewOrg hcaps

theorem tenanted_transmuteEntity {id newId : Id} {slug : Str} {newIds : Nat → Id} {e : Entity}
    (he : s.activeEntity? id = some e) (hs : Tenanted s)
    (h : transmuteEntity s id newId slug newIds = some s') :
    Tenanted s' ↔ ∀ name ∈ (s.capabilityNames e).filter fun name => name ≠ [],
      FindsOwn s (s.entityOrg id) name := by
  simp only [transmuteEntity, he] at h
  split at h
  · cases h
  · rename_i s₁ h₁
    have hs₁ : Tenanted s₁ := hs.quiet (quiet_insertRow h₁)
    have hnewOrg : s₁.classOrg newId = s.orgOf e.namespaceId :=
      (classOrg_of_find (find?_insertRow h₁)).trans (owner_learnedRow newId slug _)
    obtain ⟨classes, -, rfl⟩ := State.insertRow_eq_some h₁
    obtain ⟨⟨s₂, caps⟩, h₂, rfl⟩ := Option.map_eq_some_iff.mp h
    obtain ⟨rows, rfl, hgrows, hcaps⟩ := upsertAll_spec h₂
    rw [entityOrg_of_find (activeEntity?_find he)]
    exact hs₁.iff_of_upserted (addsAt_baseClass (fun id' cap => mem_refs_attachAll) rfl rfl) hgrows
      rfl ⟨rfl, rfl⟩ hnewOrg hcaps

/-- A command that is new to the market is everybody's. -/
theorem tenanted_ensureCommandCapability {newId : Id} {name : Str} {slugs : List Str}
    (hs : Tenanted s) (h : ensureCommandCapability s newId name slugs = some s') :
    Tenanted s' ↔ ∀ slug ∈ slugs, ∀ b, s.named? .baseClass slug = some b →
      FindsOwn s b.owner name := by
  obtain ⟨⟨s₁, cap⟩, h₁, rfl⟩ := Option.map_eq_some_iff.mp h
  have hown : ∀ o, Tenant s₁ o cap ↔ FindsOwn s o name := by
    intro o
    rcases upsertCapability_cases h₁ with ⟨found, hfound, rfl, rfl⟩ | ⟨hnone, rfl, h₂⟩
    · rw [tenant_iff_owns (named?_find hfound), FindsOwn, hfound]
      simp
    · apply iff_of_true
      · exact (tenant_iff_owns (find?_insertRow h₂)).mpr (.inl rfl)
      · intro found hfound
        rw [hnone] at hfound
        cases hfound
  obtain ⟨rows, rfl, hgrows, -, -, -⟩ := upsertCapability_spec h₁
  have hs₁ : Tenanted (s.setRows .capability rows) := hs.quiet (hgrows.quiet rfl rfl rfl)
  let new : Site → Id → Id → Prop := fun site id c =>
    site = .baseClass ∧ c = cap ∧ ∃ b ∈ slugs.filterMap (s.named? .baseClass), id = b.id
  have hgrows' : Grows (s.setRows .capability rows) { s.setRows .capability rows with
      baseClassCapabilities := (slugs.filterMap (s.named? .baseClass)).foldl
        (fun links b => attach links b.id cap) s.baseClassCapabilities } :=
    ⟨fun _ => .refl _, .refl _, .refl _⟩
  refine (tenanted_iff_of_new new hs₁ hgrows' ?_).trans ?_
  · intro site id c
    cases site with
    | entity => simp [new, State.uses]
    | baseClass =>
      simp only [new, State.uses, true_and]
      exact mem_refs_foldl_attach
    | report => simp [new, State.uses]
  have hclassOrg : ∀ {slug b}, s.named? .baseClass slug = some b → s.classOrg b.id = b.owner :=
    fun hb => classOrg_of_find ((s.resources .baseClass).find?_of_mem (List.mem_of_find?_eq_some hb))
  constructor
  · intro hnew slug hslug b hb
    rw [← hown, ← hclassOrg hb]
    exact hnew .baseClass b.id cap
      ⟨rfl, rfl, b, List.mem_filterMap.mpr ⟨slug, hslug, hb⟩, rfl⟩
  · rintro hfinds site id c ⟨rfl, rfl, b, hb, rfl⟩
    obtain ⟨slug, hslug, hb⟩ := List.mem_filterMap.mp hb
    have ht := (hown b.owner).mpr (hfinds slug hslug b hb)
    rw [← hclassOrg hb] at ht
    exact ht

/-! Copies. -/

theorem tenanted_copyClass {source : Id} {copy : ScopedRow} (hs : Tenanted s)
    (h : copyClass s source copy = some s') :
    Tenanted s' ↔ ∀ cap ∈ refs s.baseClassCapabilities source, Tenant s copy.owner cap := by
  obtain ⟨s₁, h₁, rfl⟩ := Option.map_eq_some_iff.mp h
  have hs₁ : Tenanted s₁ := hs.quiet (quiet_insertRow h₁)
  have hgrows : Grows s s₁ := (quiet_insertRow h₁).grows
  have horg : s₁.classOrg copy.id = copy.owner := classOrg_of_find (find?_insertRow h₁)
  have hlinks : s₁.baseClassCapabilities = s.baseClassCapabilities := by
    obtain ⟨rows, -, rfl⟩ := State.insertRow_eq_some h₁
    rfl
  have hadds : AddsAt s₁ { s₁ with
      baseClassAiGenes := Market.cloneJunction s₁.baseClassAiGenes source copy.id
      baseClassCapabilities := Market.cloneJunction s₁.baseClassCapabilities source copy.id }
      .baseClass copy.id (refs s₁.baseClassCapabilities source) :=
    addsAt_baseClass (fun id' cap => mem_refs_cloneJunction) rfl rfl
  rw [hadds.tenanted_after hs₁ ⟨fun _ => .refl _, .refl _, .refl _⟩, hlinks]
  apply forall₂_congr
  intro cap hcap
  obtain ⟨row, hrow, -⟩ := hs .baseClass source cap hcap
  rw [← hgrows.tenant_iff hrow, ← horg]
  rfl

/-- What everybody has may go with a system preset to anybody; any other copy stays at home. -/
theorem tenanted_cloneBaseClass {source newId : Id} {newSlug : Str} {targetOrgId : Option Id}
    (hs : Tenanted s) (h : cloneBaseClass s source newId newSlug targetOrgId = some s') :
    Tenanted s' := by
  rw [cloneBaseClass] at h
  split at h
  · cases h
  · rename_i b hb
    have horg : s.classOrg source = b.owner := classOrg_of_find (active?_find hb)
    have hsource : ∀ cap ∈ refs s.baseClassCapabilities source, Tenant s b.owner cap := by
      intro cap hcap
      rw [← horg]
      exact hs .baseClass source cap hcap
    split at h
    · cases h
    · rename_i hscope
      refine (tenanted_copyClass hs h).mpr ?_
      intro cap hcap
      apply (hsource cap hcap).mono
      intro o ho
      rw [ScopedRow.owner, if_pos hscope] at ho
      cases ho
    · exact (tenanted_copyClass hs h).mpr hsource

theorem tenanted_copyEntity {source : Id} {copy : Entity} (hs : Tenanted s)
    (h : copyEntity s source copy = some s') :
    Tenanted s' ↔
      ∀ cap ∈ refs s.entityCapabilities source, Tenant s (s.orgOf copy.namespaceId) cap := by
  obtain ⟨s₁, h₁, rfl⟩ := Option.map_eq_some_iff.mp h
  have hs₁ : Tenanted s₁ := hs.quiet (quiet_insertEntity h₁)
  have horg : s₁.entityOrg copy.id = s.orgOf copy.namespaceId := entityOrg_insertEntity h₁
  obtain ⟨entities, -, rfl⟩ := insertEntity_eq_some h₁
  have hadds : AddsAt { s with entities := entities } { s with
      entities := entities
      entityAiGenes := Market.cloneJunction s.entityAiGenes source copy.id
      entityCapabilities := Market.cloneJunction s.entityCapabilities source copy.id }
      .entity copy.id (refs s.entityCapabilities source) :=
    addsAt_entity (fun id' cap => mem_refs_cloneJunction) rfl rfl
  rw [hadds.tenanted_after hs₁ ⟨fun _ => .refl _, .refl _, .refl _⟩, ← horg]
  rfl

theorem tenanted_cloneEntity {source newId : Id} {newSlug : Str} (hs : Tenanted s)
    (h : cloneEntity s source newId newSlug = some s') : Tenanted s' := by
  rw [cloneEntity] at h
  split at h
  · cases h
  · rename_i e he
    refine (tenanted_copyEntity hs h).mpr ?_
    intro cap hcap
    have hsource : Tenant s (s.entityOrg source) cap := hs .entity source cap hcap
    rw [entityOrg_of_find (activeEntity?_find he)] at hsource
    exact hsource

/-! A copy of an organization: what its namespaces, entities and classes end up as. -/

variable {names : CloneNames} {newOrgId : Id}

theorem createOrganization_eq_some {id : Id} {slug : Str}
    (h : createOrganization s id slug = some s') :
    ∃ organizations, s' = { s with organizations := organizations } := by
  rw [createOrganization] at h
  split at h
  · cases h
  · obtain ⟨organizations, _, rfl⟩ := Option.map_eq_some_iff.mp h
    exact ⟨organizations, rfl⟩

theorem copyNamespaces_spec {table table' : Table Namespace.id} {ns : List Namespace}
    (h : copyNamespaces names newOrgId table ns = some table') :
    Table.Keeps Namespace.orgId table table' ∧
      ∀ n ∈ ns, (table'.find? (names.namespaceId n.id)).map Namespace.orgId = some newOrgId := by
  induction ns generalizing table with
  | nil =>
    obtain rfl := Option.some.inj h
    exact ⟨.refl _, by simp⟩
  | cons n ns ih =>
    rw [copyNamespaces] at h
    split at h
    · rename_i table₁ h₁
      obtain ⟨hkeeps, hns⟩ := ih h
      refine ⟨(Table.keeps_insert? h₁).trans hkeeps, ?_⟩
      rw [List.forall_mem_cons]
      refine ⟨hkeeps _ _ ?_, hns⟩
      rw [Table.find?_insert? h₁, if_pos rfl, Option.map_some]
    · cases h

theorem copyEntities_spec {es : List Entity} (h : copyEntities names s es = some s')
    (hes : ∀ e ∈ es, e ∈ s.entities.rows) :
    ∃ entities genes,
      s' = { s with
        entities := entities
        entityAiGenes := genes
        entityCapabilities := cloneJunctions Entity.id (fun e => names.entityId e.id)
          s.entityCapabilities es } ∧
      Table.Keeps Entity.namespaceId s.entities entities ∧
      ∀ e ∈ es, names.entityId e.id ∉ s.entities.rows.map Entity.id ∧
        (entities.find? (names.entityId e.id)).map Entity.namespaceId =
          some (names.namespaceId e.namespaceId) := by
  induction es generalizing s with
  | nil =>
    obtain rfl := Option.some.inj h
    exact ⟨_, _, rfl, .refl _, by simp⟩
  | cons e es ih =>
    rw [copyEntities] at h
    split at h
    · rename_i s₁ h₁
      obtain ⟨s₂, h₂, rfl⟩ := Option.map_eq_some_iff.mp h₁
      obtain ⟨entities, hentities, rfl⟩ := insertEntity_eq_some h₂
      have hrows := Table.insert?_rows hentities
      obtain ⟨entities', genes, rfl, hkeeps, hcopies⟩ := ih h (by
        intro e' he'
        rw [hrows]
        exact List.mem_append_left _ (hes e' (List.mem_cons_of_mem e he')))
      refine ⟨entities', genes, rfl, (Table.keeps_insert? hentities).trans hkeeps, ?_⟩
      rw [List.forall_mem_cons]
      refine ⟨⟨Table.key_not_mem_of_insert? hentities, hkeeps _ _ ?_⟩, ?_⟩
      · rw [Table.find?_insert? hentities, if_pos rfl, Option.map_some]
      · intro e' he'
        obtain ⟨hfresh, hns⟩ := hcopies e' he'
        refine ⟨?_, hns⟩
        intro hmem
        apply hfresh
        rw [hrows, List.map_append]
        exact List.mem_append_left _ hmem
    · cases h

theorem copyClasses_spec {namespaceIds : List Id} {bs : List ScopedRow}
    (h : copyClasses names namespaceIds newOrgId s bs = some s')
    (hbs : ∀ b ∈ bs, b ∈ (s.resources .baseClass).rows) :
    ∃ classes genes,
      s' = { s.setRows .baseClass classes with
        baseClassAiGenes := genes
        baseClassCapabilities := cloneJunctions ScopedRow.id (fun b => names.baseClassId b.id)
          s.baseClassCapabilities bs } ∧
      Table.Keeps ScopedRow.stamp (s.resources .baseClass) classes ∧
      ∀ b ∈ bs, names.baseClassId b.id ∉ (s.resources .baseClass).rows.map ScopedRow.id ∧
        (classes.find? (names.baseClassId b.id)).map ScopedRow.stamp =
          some (classCopy names namespaceIds newOrgId b).stamp := by
  induction bs generalizing s with
  | nil =>
    obtain rfl := Option.some.inj h
    refine ⟨s.resources .baseClass, s.baseClassAiGenes, ?_, .refl _, by simp⟩
    rw [setRows_self]
    rfl
  | cons b bs ih =>
    rw [copyClasses] at h
    split at h
    · rename_i s₁ h₁
      obtain ⟨s₂, h₂, rfl⟩ := Option.map_eq_some_iff.mp h₁
      obtain ⟨classes, hclasses, rfl⟩ := State.insertRow_eq_some h₂
      have hrows := Table.insert?_rows hclasses
      obtain ⟨classes', genes, rfl, hkeeps, hcopies⟩ := ih h (by
        intro b' hb'
        rw [State.setRows_resources, Function.update_self, hrows]
        exact List.mem_append_left _ (hbs b' (List.mem_cons_of_mem b hb')))
      rw [State.setRows_resources, Function.update_self] at hkeeps hcopies
      refine ⟨classes', genes, ?_, (Table.keeps_insert? hclasses).trans hkeeps, ?_⟩
      · simp only [State.setRows, Function.update_idem]
        rfl
      rw [List.forall_mem_cons]
      refine ⟨⟨Table.key_not_mem_of_insert? hclasses, hkeeps _ _ ?_⟩, ?_⟩
      · have hid : names.baseClassId b.id = (classCopy names namespaceIds newOrgId b).id := rfl
        rw [Table.find?_insert? hclasses, hid, if_pos rfl, Option.map_some]
      · intro b' hb'
        obtain ⟨hfresh, hstamp⟩ := hcopies b' hb'
        refine ⟨?_, hstamp⟩
        intro hmem
        apply hfresh
        rw [hrows, List.map_append]
        exact List.mem_append_left _ hmem
    · cases h

/-- What the organization `org` has in use goes along with a copy for `newOrgId`. -/
def CopiesOwn (s : State) (orgId newOrgId : Id) : Prop :=
  (∀ e ∈ sourceEntities s orgId, ∀ cap ∈ refs s.entityCapabilities e.id,
    Tenant s (some newOrgId) cap) ∧
  ∀ b ∈ sourceClasses s orgId, ∀ cap ∈ refs s.baseClassCapabilities b.id,
    Tenant s (some newOrgId) cap

/-- What a copy of the organization puts to use. -/
def Copied (names : CloneNames) (s : State) (orgId : Id) : Site → Id → Id → Prop
  | .entity, id, cap =>
    ∃ e ∈ sourceEntities s orgId, id = names.entityId e.id ∧ cap ∈ refs s.entityCapabilities e.id
  | .baseClass, id, cap =>
    ∃ b ∈ sourceClasses s orgId, id = names.baseClassId b.id ∧
      cap ∈ refs s.baseClassCapabilities b.id
  | .report, _, _ => False

theorem cloneOrganization_spec {orgId : Id} {newSlug : Str}
    (h : cloneOrganization s orgId newOrgId newSlug names = some s') :
    Grows s s' ∧
      (∀ site id cap, cap ∈ s'.uses site id ↔
        cap ∈ s.uses site id ∨ Copied names s orgId site id cap) ∧
      ∀ site id cap, Copied names s orgId site id cap → s'.siteOrg site id = some newOrgId := by
  rw [cloneOrganization] at h
  split at h
  · cases h
  obtain ⟨s₁, h₁, h⟩ := Option.bind_eq_some_iff.mp h
  obtain ⟨namespaces, hnamespaces, h⟩ := Option.bind_eq_some_iff.mp h
  obtain ⟨s₂, h₂, h⟩ := Option.bind_eq_some_iff.mp h
  obtain ⟨organizations, rfl⟩ := createOrganization_eq_some h₁
  obtain ⟨hnsKeeps, hns⟩ := copyNamespaces_spec hnamespaces
  obtain ⟨entities, genes, rfl, hentKeeps, hent⟩ :=
    copyEntities_spec h₂ fun e he => (List.mem_filter.mp he).1
  obtain ⟨classes, genes', rfl, hclassKeeps, hclass⟩ :=
    copyClasses_spec h fun b hb => (List.mem_filter.mp hb).1
  refine ⟨⟨(grows_setRows (s := s) hclassKeeps).resources, hentKeeps, hnsKeeps⟩, ?_, ?_⟩
  · intro site id cap
    cases site with
    | entity =>
      apply mem_refs_cloneJunctions
      intro e he e' he' heq
      apply (hent e' he').1
      rw [← heq]
      exact List.mem_map_of_mem (List.mem_filter.mp he).1
    | baseClass =>
      apply mem_refs_cloneJunctions
      intro b hb b' hb' heq
      apply (hclass b' hb').1
      rw [← heq]
      exact List.mem_map_of_mem (List.mem_filter.mp hb).1
    | report => exact (or_false _).symm ▸ Iff.rfl
  · intro site id cap hcopied
    cases site with
    | entity =>
      obtain ⟨e, he, rfl, -⟩ := hcopied
      obtain ⟨copy, hcopy, hcopyNs⟩ := Option.map_eq_some_iff.mp (hent e he).2
      have hsource : e.namespaceId ∈ (sourceNamespaces s orgId).map Namespace.id := by
        have := (List.mem_filter.mp he).2
        rw [Bool.and_eq_true, List.contains_iff_mem] at this
        exact this.2
      obtain ⟨n, hn, hnid⟩ := List.mem_map.mp hsource
      rw [State.siteOrg, entityOrg_of_find hcopy, hcopyNs, ← hnid]
      exact hns n hn
    | baseClass =>
      obtain ⟨b, hb, rfl, -⟩ := hcopied
      obtain ⟨copy, hcopy, hstamp⟩ := Option.map_eq_some_iff.mp (hclass b hb).2
      obtain ⟨hscope, hids⟩ := Prod.mk.inj hstamp
      have hsource := (List.mem_filter.mp hb).2
      rw [Bool.and_eq_true, decide_eq_true_eq] at hsource
      rw [State.siteOrg, State.classOrg, State.setRows_resources, Function.update_self, hcopy,
        Option.bind_some, ScopedRow.owner, hscope, hids]
      exact if_neg hsource.2.1
    | report => cases hcopied

theorem tenanted_cloneOrganization {orgId : Id} {newSlug : Str} (hs : Tenanted s)
    (h : cloneOrganization s orgId newOrgId newSlug names = some s') :
    Tenanted s' ↔ CopiesOwn s orgId newOrgId := by
  obtain ⟨hgrows, huses, horg⟩ := cloneOrganization_spec h
  have htenant : ∀ site id cap, cap ∈ s.uses site id →
      (Tenant s' (some newOrgId) cap ↔ Tenant s (some newOrgId) cap) := by
    intro site id cap hcap
    obtain ⟨row, hrow, -⟩ := hs site id cap hcap
    exact hgrows.tenant_iff hrow
  rw [tenanted_iff_of_new _ hs hgrows huses]
  constructor
  · intro hnew
    constructor
    · intro e he cap hcap
      have hcopied : Copied names s orgId .entity (names.entityId e.id) cap := ⟨e, he, rfl, hcap⟩
      rw [← htenant .entity e.id cap hcap, ← horg _ _ _ hcopied]
      exact hnew _ _ _ hcopied
    · intro b hb cap hcap
      have hcopied : Copied names s orgId .baseClass (names.baseClassId b.id) cap :=
        ⟨b, hb, rfl, hcap⟩
      rw [← htenant .baseClass b.id cap hcap, ← horg _ _ _ hcopied]
      exact hnew _ _ _ hcopied
  · rintro ⟨hentities, hclasses⟩ site id cap hcopied
    rw [horg site id cap hcopied]
    cases site with
    | entity =>
      obtain ⟨e, he, rfl, hcap⟩ := hcopied
      exact (htenant .entity e.id cap hcap).mpr (hentities e he cap hcap)
    | baseClass =>
      obtain ⟨b, hb, rfl, hcap⟩ := hcopied
      exact (htenant .baseClass b.id cap hcap).mpr (hclasses b hb cap hcap)
    | report => cases hcopied

/-! Every request, and every run. -/

/-- What a request would have to meet at the capabilities that it turns ids or names into. -/
def UsesOwn (s : State) : Request → Prop
  | .attachEntityCapability id capabilityId => Tenant s (s.entityOrg id) capabilityId
  | .attachBaseClassCapability id capabilityId => Tenant s (s.classOrg id) capabilityId
  | .distill id names _ => ∀ name ∈ names, FindsOwn s (s.entityOrg id) name
  | .learn targetSlug scan names _ => ∀ e, targetEntity s targetSlug scan = some e →
      ∀ name ∈ names, FindsOwn s (s.entityOrg e.id) name
  | .promote id reaped _ => ∀ e, s.activeEntity? id = some e →
      ∀ name ∈ newNames (s.capabilityNames e) reaped, FindsOwn s (s.entityOrg id) name
  | .fork id _ _ reaped _ => ∀ e, s.activeEntity? id = some e →
      ∀ name ∈ (s.capabilityNames e ++ newNames (s.capabilityNames e) reaped).filter fun name =>
        name ≠ [], FindsOwn s (s.entityOrg id) name
  | .transmute id _ _ _ => ∀ e, s.activeEntity? id = some e →
      ∀ name ∈ (s.capabilityNames e).filter fun name => name ≠ [],
        FindsOwn s (s.entityOrg id) name
  | .ensureCommandCapability _ name slugs => ∀ slug ∈ slugs, ∀ b,
      s.named? .baseClass slug = some b → FindsOwn s b.owner name
  | .cloneOrganization orgId newOrgId _ _ => CopiesOwn s orgId newOrgId
  | _ => True

theorem quiet_detach {links : List Market.Link} {parent ref : Id}
    (hlinks : Market.detach s.entityCapabilities parent ref = some links) :
    Quiet s { s with entityCapabilities := links } := by
  refine ⟨⟨fun _ => .refl _, .refl _, .refl _⟩, ?_⟩
  intro site id
  cases site with
  | entity => exact refs_detach_subset hlinks
  | baseClass => exact List.Subset.refl _
  | report => exact List.Subset.refl _

theorem quiet_detachClass {links : List Market.Link} {parent ref : Id}
    (hlinks : Market.detach s.baseClassCapabilities parent ref = some links) :
    Quiet s { s with baseClassCapabilities := links } := by
  refine ⟨⟨fun _ => .refl _, .refl _, .refl _⟩, ?_⟩
  intro site id
  cases site with
  | entity => exact List.Subset.refl _
  | baseClass => exact refs_detach_subset hlinks
  | report => exact List.Subset.refl _

theorem quiet_deleteOrganization {orgId : Id} (h : deleteOrganization s orgId = some s') :
    Quiet s s' := by
  obtain ⟨_, _, rfl⟩ := Option.map_eq_some_iff.mp h
  refine ⟨⟨?_, ?_, ?_⟩, ?_⟩
  · intro kind
    exact Table.keeps_updateWhere _ ScopedRow.softDelete_id fun _ => rfl
  · exact Table.keeps_updateWhere _ Entity.softDelete_id fun _ => rfl
  · exact Table.keeps_updateWhere _ softDeleteNamespace_id fun _ => rfl
  · intro site id
    cases site with
    | entity => exact refs_softDeleteLinks_subset _
    | baseClass => exact List.Subset.refl _
    | report => exact List.Subset.refl _

theorem quiet_combineCapabilities {newId : Id} {names : List Str} {geneSlug : Str}
    {entityId baseClassId : Option Id}
    (h : combineCapabilities s newId names geneSlug entityId baseClassId = some s') :
    Quiet s s' := by
  rw [combineCapabilities] at h
  split at h
  · cases h
  · obtain ⟨s₁, h₁, rfl⟩ := Option.map_eq_some_iff.mp h
    refine (quiet_insertRow h₁).trans (Grows.quiet ?_ rfl rfl rfl)
    exact ⟨fun _ => .refl _, .refl _, .refl _⟩

theorem quiet_ensureBuiltinBaseClass {newId : Id} {slug : Str} {legacy : Option Str}
    (h : ensureBuiltinBaseClass s newId slug legacy = some s') : Quiet s s' := by
  rw [ensureBuiltinBaseClass] at h
  split at h
  · obtain rfl := Option.some.inj h
    exact .refl _
  · cases h
    refine Grows.quiet ⟨?_, ?_, .refl _⟩ rfl rfl rfl
    · exact (grows_setRows (s := s) (Table.keeps_updateWhere _ (ScopedRow.patch_id (some slug) none)
        fun _ => rfl)).resources
    · exact Table.keeps_updateWhere _ (Entity.patch_id none (some (some slug))) fun _ => rfl
  · exact quiet_insertRow h

theorem quiet_createNamespace {id orgId : Id} (h : createNamespace s id orgId = some s') :
    Quiet s s' := by
  obtain ⟨namespaces, hnamespaces, rfl⟩ := Option.map_eq_some_iff.mp h
  exact Grows.quiet ⟨fun _ => .refl _, .refl _, Table.keeps_insert? hnamespaces⟩ rfl rfl rfl

theorem quiet_updateEntity {id : Id} {slug : Option Str} {presetSlug : Option (Option Str)}
    (h : updateEntity s id slug presetSlug = some s') : Quiet s s' := by
  simp only [updateEntity] at h
  split at h
  · cases h
  · split at h <;> cases h
    have hkeeps : Table.Keeps Entity.namespaceId s.entities (s.entities.update id
        (Entity.patch slug presetSlug) (Entity.patch_id slug presetSlug)) :=
      Table.keeps_updateWhere _ _ fun _ => rfl
    exact Grows.quiet ⟨fun _ => .refl _, hkeeps, .refl _⟩ rfl rfl rfl

theorem quiet_deleteEntity {id : Id} (h : deleteEntity s id = some s') : Quiet s s' := by
  obtain ⟨_, _, rfl⟩ := Option.map_eq_some_iff.mp h
  have hkeeps : Table.Keeps Entity.namespaceId s.entities
      (s.entities.update id Entity.softDelete Entity.softDelete_id) :=
    Table.keeps_updateWhere _ _ fun _ => rfl
  exact Grows.quiet ⟨fun _ => .refl _, hkeeps, .refl _⟩ rfl rfl rfl

theorem quiet_deleteNamespace {id : Id} (h : deleteNamespace s id = some s') : Quiet s s' := by
  obtain ⟨_, _, rfl⟩ := Option.map_eq_some_iff.mp h
  have hkeeps : Table.Keeps Namespace.orgId s.namespaces
      (s.namespaces.update id softDeleteNamespace softDeleteNamespace_id) :=
    Table.keeps_updateWhere _ _ fun _ => rfl
  exact Grows.quiet ⟨fun _ => .refl _, .refl _, hkeeps⟩ rfl rfl rfl

theorem quiet_updateBaseClass {id : Id} {slug : Option Str}
    (h : updateBaseClass s id slug = some s') : Quiet s s' := by
  simp only [updateBaseClass] at h
  split at h
  · cases h
  · exact quiet_patchRow h

theorem quiet_detachEntityCapability {id capabilityId : Id}
    (h : detachEntityCapability s id capabilityId = some s') : Quiet s s' := by
  simp only [detachEntityCapability] at h
  split at h
  · obtain ⟨links, hlinks, rfl⟩ := Option.map_eq_some_iff.mp h
    exact quiet_detach hlinks
  · cases h

theorem quiet_detachBaseClassCapability {id capabilityId : Id}
    (h : detachBaseClassCapability s id capabilityId = some s') : Quiet s s' := by
  simp only [detachBaseClassCapability] at h
  split at h
  · obtain ⟨links, hlinks, rfl⟩ := Option.map_eq_some_iff.mp h
    exact quiet_detachClass hlinks
  · cases h

theorem quiet_attachEntityAiGene {id geneId : Id} (h : attachEntityAiGene s id geneId = some s') :
    Quiet s s' := by
  simp only [attachEntityAiGene] at h
  split at h <;> cases h
  exact Grows.quiet ⟨fun _ => .refl _, .refl _, .refl _⟩ rfl rfl rfl

theorem quiet_detachEntityAiGene {id geneId : Id} (h : detachEntityAiGene s id geneId = some s') :
    Quiet s s' := by
  simp only [detachEntityAiGene] at h
  split at h
  · obtain ⟨links, -, rfl⟩ := Option.map_eq_some_iff.mp h
    exact Grows.quiet ⟨fun _ => .refl _, .refl _, .refl _⟩ rfl rfl rfl
  · cases h

theorem quiet_attachBaseClassAiGene {id geneId : Id}
    (h : attachBaseClassAiGene s id geneId = some s') : Quiet s s' := by
  simp only [attachBaseClassAiGene] at h
  split at h <;> cases h
  exact Grows.quiet ⟨fun _ => .refl _, .refl _, .refl _⟩ rfl rfl rfl

theorem quiet_detachBaseClassAiGene {id geneId : Id}
    (h : detachBaseClassAiGene s id geneId = some s') : Quiet s s' := by
  simp only [detachBaseClassAiGene] at h
  split at h
  · obtain ⟨links, -, rfl⟩ := Option.map_eq_some_iff.mp h
    exact Grows.quiet ⟨fun _ => .refl _, .refl _, .refl _⟩ rfl rfl rfl
  · cases h

theorem quiet_ensureKnowledgeSeed {newId : Id} {key : Str}
    (h : ensureKnowledgeSeed s newId key = some s') : Quiet s s' := by
  simp only [ensureKnowledgeSeed] at h
  split at h
  · obtain rfl := Option.some.inj h
    exact .refl _
  · exact quiet_insertRow h

theorem tenanted_step? {r : Request} (hs : Tenanted s) (h : step? s r = some s') :
    Tenanted s' ↔ UsesOwn s r := by
  have quiet (hquiet : Quiet s s') : Tenanted s' ↔ True := iff_of_true (hs.quiet hquiet) trivial
  cases r with
  | createOrganization id slug => exact quiet (quiet_createOrganization h)
  | createNamespace id orgId => exact quiet (quiet_createNamespace h)
  | createEntity id namespaceId slug presetSlug => exact quiet (quiet_insertEntity h)
  | updateEntity id slug presetSlug => exact quiet (quiet_updateEntity h)
  | deleteEntity id => exact quiet (quiet_deleteEntity h)
  | deleteNamespace id => exact quiet (quiet_deleteNamespace h)
  | deleteOrganization id => exact quiet (quiet_deleteOrganization h)
  | createMarketEntry id name scope organizationId namespaceId currentOrgId =>
    exact quiet (quiet_createRow h)
  | createAiGene id slug inlined scope organizationId namespaceId currentOrgId =>
    exact quiet (quiet_createRow h)
  | createBaseClass id slug scope organizationId namespaceId currentOrgId =>
    exact quiet (quiet_createRow h)
  | createKnowledgeEntry id key scope ids => exact quiet (quiet_createRow h)
  | createKnowledgeDimension id slug scope ids currentOrgId => exact quiet (quiet_createRow h)
  | updateMarketEntry id name => exact quiet (quiet_patchRow h)
  | updateAiGene id inlined => exact quiet (quiet_patchRow h)
  | updateBaseClass id slug => exact quiet (quiet_updateBaseClass h)
  | updateKnowledgeEntry id key => exact quiet (quiet_patchRow h)
  | updateKnowledgeDimension id slug => exact quiet (quiet_patchRow h)
  | deleteRow kind id => exact quiet (quiet_deleteRow h)
  | attachEntityCapability id capabilityId => exact tenanted_attachEntityCapability hs h
  | detachEntityCapability id capabilityId => exact quiet (quiet_detachEntityCapability h)
  | attachEntityAiGene id geneId => exact quiet (quiet_attachEntityAiGene h)
  | detachEntityAiGene id geneId => exact quiet (quiet_detachEntityAiGene h)
  | attachBaseClassCapability id capabilityId => exact tenanted_attachBaseClassCapability hs h
  | detachBaseClassCapability id capabilityId => exact quiet (quiet_detachBaseClassCapability h)
  | attachBaseClassAiGene id geneId => exact quiet (quiet_attachBaseClassAiGene h)
  | detachBaseClassAiGene id geneId => exact quiet (quiet_detachBaseClassAiGene h)
  | reap names newIds => exact quiet (quiet_uploadNew h)
  | distill id names newIds => exact tenanted_distillEntity hs h
  | learn targetSlug scan names newIds =>
    simp only [step?, routeLearningDirective] at h
    split at h
    · cases h
    · rename_i e he
      simp only [UsesOwn, he, Option.some.injEq, forall_eq']
      exact tenanted_distillEntity hs h
  | promote id reaped newIds =>
    cases he : s.activeEntity? id with
    | none => simp [step?, promoteEntity, he] at h
    | some e =>
      simp only [UsesOwn, he, Option.some.injEq, forall_eq']
      exact tenanted_promoteEntity he hs h
  | fork id newId newSlug reaped newIds =>
    cases he : s.activeEntity? id with
    | none => simp [step?, forkEntity, he] at h
    | some e =>
      simp only [UsesOwn, he, Option.some.injEq, forall_eq']
      exact tenanted_forkEntity he hs h
  | transmute id newId slug newIds =>
    cases he : s.activeEntity? id with
    | none => simp [step?, transmuteEntity, he] at h
    | some e =>
      simp only [UsesOwn, he, Option.some.injEq, forall_eq']
      exact tenanted_transmuteEntity he hs h
  | combine newId names geneSlug entityId baseClassId => exact quiet (quiet_combineCapabilities h)
  | cloneBaseClass source newId newSlug targetOrgId =>
    exact iff_of_true (tenanted_cloneBaseClass hs h) trivial
  | cloneEntity source newId newSlug => exact iff_of_true (tenanted_cloneEntity hs h) trivial
  | cloneOrganization orgId newOrgId newSlug names => exact tenanted_cloneOrganization hs h
  | ensureBuiltinBaseClass newId slug legacy => exact quiet (quiet_ensureBuiltinBaseClass h)
  | ensureCommandCapability newId name slugs => exact tenanted_ensureCommandCapability hs h
  | ensureKnowledgeSeed newId key => exact quiet (quiet_ensureKnowledgeSeed h)

/-- A request that is refused, or that comes to capabilities of its own organization only. -/
def StaysHome (s : State) (r : Request) : Prop := (step? s r).isSome → UsesOwn s r

/-- From nothing on, what is in use at entities, at base classes and in answers is their own just
while every request that goes through stays at home. -/
theorem tenanted_iff (rs : List Request) :
    Run.Always step Tenanted .empty rs ↔ Run.Meets step StaysHome .empty rs := by
  apply Run.always_iff_meets (r := fun _ => True)
  · intro s r _
    trivial
  · intro s r _ hs
    rw [step, StaysHome]
    cases h : step? s r with
    | none => simp [hs]
    | some s' => simpa using tenanted_step? hs h
  · trivial
  · exact tenanted_empty

/-- The entity of one organization is given a capability of another, which nobody asks about. -/
theorem not_tenanted_attached :
    ¬Run.Always step Tenanted .empty
      [.createOrganization "acme" "acme".toList, .createOrganization "globex" "globex".toList,
        .createNamespace "ops" "globex", .createEntity "fox" "ops" "fox".toList none,
        .createMarketEntry "deploy" "deploy".toList .org (some "acme") none none,
        .attachEntityCapability "fox" "deploy"] := by
  intro h
  obtain ⟨cap, hcap, howns⟩ := h.exec .entity "fox" "deploy" (.head _)
  cases hcap
  rcases howns with hsystem | ⟨org, horg, hcap⟩
  · cases hsystem
  · exact absurd (horg.trans hcap.symm) (of_decide_eq_false rfl)

end Eyot.Tenancy
