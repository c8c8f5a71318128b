import Eyot.Library.Keeps
import Eyot.Market.Clones

/-! The copy of an organization, and what it has of the rows it is copied from. -/

namespace Eyot.Market

/-- Active base classes have slugs of their own. -/
def Store.ClassSlugs (s : Store) : Prop :=
  ∀ b ∈ s.baseClasses.rows, ∀ b' ∈ s.baseClasses.rows, b.deleted = false → b'.deleted = false →
    b.slug = b'.slug → b = b'

/-- What the foreign keys and the unique indexes of the tables say. -/
structure Store.Intact (s : Store) : Prop where
  entryOrganization : ∀ r ∈ s.market.rows, ∀ o ∈ r.organizationId,
    o ∈ s.organizations.rows.map Organization.id
  geneOrganization : ∀ g ∈ s.genes.rows, ∀ o ∈ g.organizationId,
    o ∈ s.organizations.rows.map Organization.id
  namespaceOrganization : ∀ n ∈ s.namespaces.rows,
    n.orgId ∈ s.organizations.rows.map Organization.id
  entityNamespace : ∀ e ∈ s.entities.rows, e.namespaceId ∈ s.namespaces.rows.map Namespace.id
  classSlugs : s.ClassSlugs

def entityCopy (names : CloneNames) (e : EntityRow) : EntityRow :=
  { e with
    id := names.entityId e.id
    namespaceId := names.namespaceId e.namespaceId
    migrationHash := none
    hasKnowledge := none }

def classCopy (names : CloneNames) (orgId : Id) (b : ClassRow) : ClassRow :=
  { b with
    id := names.baseClassId b.id
    slug := names.baseClassSlug b.id
    organizationId := some orgId
    hasKnowledge := none }

namespace Store

def namespacesOf (s : Store) (orgId : Id) : List Namespace :=
  s.namespaces.rows.filter fun n => !n.deleted && decide (n.orgId = orgId)

def entitiesOf (s : Store) (orgId : Id) : List EntityRow :=
  s.entities.rows.filter fun e =>
    !e.deleted && decide (e.namespaceId ∈ (s.namespacesOf orgId).map Namespace.id)

def classesOf (s : Store) (orgId : Id) : List ClassRow :=
  s.baseClasses.rows.filter fun b =>
    !b.deleted && decide (b.scope ≠ .system ∧ b.organizationId = some orgId)

def copyEntities (names : CloneNames) (s : Store) : List EntityRow → Option Store
  | [] => some s
  | e :: es =>
    match s.copyEntity e.id (entityCopy names e) with
    | some s => copyEntities names s es
    | none => none

def copyClasses (names : CloneNames) (orgId : Id) (s : Store) : List ClassRow → Option Store
  | [] => some s
  | b :: bs =>
    match s.copyClass b.id (classCopy names orgId b) with
    | some s => copyClasses names orgId s bs
    | none => none

def cloneOrganization (s : Store) (orgId newOrgId : Id) (newSlug : Str) (names : CloneNames) :
    Option Store :=
  match (s.organizations.find? orgId).filter fun o => !o.deleted with
  | none => none
  | some _ =>
    if s.organizations.rows.any fun o => !o.deleted && decide (o.slug = newSlug) then none
    else do
      let organizations ← s.organizations.insert? ⟨newOrgId, newSlug, false⟩
      let namespaces ← copyNamespaces names newOrgId s.namespaces (s.namespacesOf orgId)
      let copied ← copyEntities names { s with organizations, namespaces } (s.entitiesOf orgId)
      copyClasses names newOrgId copied (s.classesOf orgId)

end Store

variable {names : CloneNames} {s s' : Store} {orgId newOrgId : Id}

theorem copyNamespaces_rows {t t' : Table Namespace.id} {ns : List Namespace}
    (h : copyNamespaces names newOrgId t ns = some t') :
    t'.rows = t.rows ++ ns.map fun n => ⟨names.namespaceId n.id, newOrgId, false⟩ := by
  induction ns generalizing t with
  | nil =>
    cases h
    exact (List.append_nil _).symm
  | cons n ns ih =>
    rw [copyNamespaces] at h
    split at h
    · rename_i t₁ hinsert
      rw [ih h, Table.insert?_rows hinsert, List.append_assoc]
      rfl
    · cases h

/-- Links of rows that are there stay, and a copy has as many as its source. -/
structure LinksCopied (copyId : Id → Id) (links links' : List Link) (old sources : List Id) :
    Prop where
  kept : ∀ id ∈ old, refs links' id = refs links id
  copied : ∀ id ∈ sources, refs links' (copyId id) = refs links id

theorem linksCopied_cons {copyId : Id → Id} {links links' : List Link} {old sources : List Id}
    {source : Id} (hsource : source ∈ old) (hold : ∀ id ∈ sources, id ∈ old)
    (hnew : copyId source ∉ old) (hunused : ∀ l ∈ links, l.parentId ≠ copyId source)
    (h : LinksCopied copyId (cloneJunction links source (copyId source)) links'
      (old ++ [copyId source]) sources) :
    LinksCopied copyId links links' old (source :: sources) := by
  have hkept : ∀ id ∈ old, refs (cloneJunction links source (copyId source)) id = refs links id := by
    intro id hid
    apply refs_cloneJunction_of_ne
    rintro rfl
    exact hnew hid
  refine ⟨?_, ?_⟩
  · intro id hid
    rw [h.kept id (List.mem_append_left _ hid), hkept id hid]
  · intro id hid
    obtain rfl | hid := List.mem_cons.mp hid
    · rw [h.kept _ (List.mem_append_right _ (List.mem_singleton.mpr rfl))]
      exact refs_cloneJunction_self hunused id
    · rw [h.copied id hid, hkept id (hold id hid)]

theorem linksCopied_nil (copyId : Id → Id) (links : List Link) (old : List Id) :
    LinksCopied copyId links links old [] := ⟨fun _ _ => rfl, nofun⟩

/-- What copies of entities leave. -/
structure EntitiesCopied (names : CloneNames) (s s' : Store) (es : List EntityRow) : Prop where
  rows : s'.entities.rows = s.entities.rows ++ es.map (entityCopy names)
  market : s'.market = s.market
  genes : s'.genes = s.genes
  baseClasses : s'.baseClasses = s.baseClasses
  namespaces : s'.namespaces = s.namespaces
  organizations : s'.organizations = s.organizations
  baseClassAiGenes : s'.baseClassAiGenes = s.baseClassAiGenes
  capabilities : LinksCopied names.entityId s.entityCapabilities s'.entityCapabilities
    (s.entities.rows.map EntityRow.key) (es.map EntityRow.key)
  aiGenes : LinksCopied names.entityId s.entityAiGenes s'.entityAiGenes
    (s.entities.rows.map EntityRow.key) (es.map EntityRow.key)

theorem copyEntities_copied {es : List EntityRow} (hes : ∀ e ∈ es, e ∈ s.entities.rows)
    (h : s.copyEntities names es = some s') : EntitiesCopied names s s' es := by
  induction es generalizing s with
  | nil =>
    cases h
    exact ⟨(List.append_nil _).symm, rfl, rfl, rfl, rfl, rfl, rfl, linksCopied_nil _ _ _,
      linksCopied_nil _ _ _⟩
  | cons e es ih =>
    rw [Store.copyEntities] at h
    split at h
    · rename_i s₁ hcopy
      rw [Store.copyEntity] at hcopy
      split at hcopy
      · rename_i hunused
        obtain ⟨entities, hinsert, rfl⟩ := Option.map_eq_some_iff.mp hcopy
        have hrows := Table.insert?_rows hinsert
        have hfresh := Table.key_not_mem_of_insert? hinsert
        have hmem : ∀ e' ∈ es, e' ∈ s.entities.rows :=
          fun e' he' => hes e' (List.mem_cons_of_mem _ he')
        have hcopied := ih (s := { s with
          entities := entities
          entityAiGenes := cloneJunction s.entityAiGenes e.id (entityCopy names e).id
          entityCapabilities := cloneJunction s.entityCapabilities e.id (entityCopy names e).id })
          (fun e' he' => hrows ▸ List.mem_append_left _ (hmem e' he')) h
        have hold := List.mem_map_of_mem (f := EntityRow.key) (hes e List.mem_cons_self)
        have hkeys : ∀ id ∈ es.map EntityRow.key, id ∈ s.entities.rows.map EntityRow.key := by
          intro id hid
          obtain ⟨e', he', rfl⟩ := List.mem_map.mp hid
          exact List.mem_map_of_mem (hmem e' he')
        have hcapabilities := hcopied.capabilities
        have haiGenes := hcopied.aiGenes
        dsimp only at hcapabilities haiGenes
        rw [hrows, List.map_append] at hcapabilities haiGenes
        refine ⟨?_, hcopied.market, hcopied.genes, hcopied.baseClasses, hcopied.namespaces,
          hcopied.organizations, hcopied.baseClassAiGenes, ?_, ?_⟩
        · rw [hcopied.rows]
          dsimp only
          rw [hrows, List.append_assoc]
          rfl
        · exact linksCopied_cons hold hkeys hfresh (fun l hl =>
            (hunused.2 l (Catalog.mem_links_entityCapabilities l hl)).1) hcapabilities
        · exact linksCopied_cons hold hkeys hfresh (fun l hl =>
            (hunused.2 l (Catalog.mem_links_entityAiGenes l hl)).1) haiGenes
      · cases hcopy
    · cases h

theorem classWithSlug?_eq_none {bs : List ClassRow} {slug : Str} :
    classWithSlug? bs slug = none ↔ ∀ b ∈ bs, b.deleted = false → b.slug ≠ slug := by
  rw [classWithSlug?, List.find?_eq_none]
  apply forall₂_congr
  intro b _
  rw [Bool.and_eq_true, decide_eq_true_eq, Bool.not_eq_true']
  exact ⟨fun h hactive hslug => h ⟨hslug, hactive⟩, fun h hb => h hb.2 hb.1⟩

theorem classSlugs_insert? {b : ClassRow} (hs : s.ClassSlugs)
    (h : s.baseClasses.insert? b = some s'.baseClasses)
    (hfree : ¬(classWithSlug? s.baseClasses.rows b.slug).isSome) : s'.ClassSlugs := by
  rw [Option.not_isSome_iff_eq_none, classWithSlug?_eq_none] at hfree
  intro b₁ hb₁ b₂ hb₂ hactive₁ hactive₂ hslug
  obtain hb₁ | rfl := (Table.mem_insert? h).mp hb₁
  · obtain hb₂ | rfl := (Table.mem_insert? h).mp hb₂
    · exact hs b₁ hb₁ b₂ hb₂ hactive₁ hactive₂ hslug
    · exact absurd hslug (hfree b₁ hb₁ hactive₁)
  · obtain hb₂ | rfl := (Table.mem_insert? h).mp hb₂
    · exact absurd hslug.symm (hfree b₂ hb₂ hactive₂)
    · rfl

/-- What copies of base classes leave. -/
structure ClassesCopied (names : CloneNames) (orgId : Id) (s s' : Store) (bs : List ClassRow) :
    Prop where
  rows : s'.baseClasses.rows = s.baseClasses.rows ++ bs.map (classCopy names orgId)
  market : s'.market = s.market
  genes : s'.genes = s.genes
  entities : s'.entities = s.entities
  namespaces : s'.namespaces = s.namespaces
  entityCapabilities : s'.entityCapabilities = s.entityCapabilities
  entityAiGenes : s'.entityAiGenes = s.entityAiGenes
  classSlugs : s.ClassSlugs → s'.ClassSlugs
  aiGenes : LinksCopied names.baseClassId s.baseClassAiGenes s'.baseClassAiGenes
    (s.baseClasses.rows.map ClassRow.key) (bs.map ClassRow.key)

theorem copyClasses_copied {bs : List ClassRow} (hbs : ∀ b ∈ bs, b ∈ s.baseClasses.rows)
    (h : s.copyClasses names orgId bs = some s') : ClassesCopied names orgId s s' bs := by
  induction bs generalizing s with
  | nil =>
    cases h
    exact ⟨(List.append_nil _).symm, rfl, rfl, rfl, rfl, rfl, rfl, id, linksCopied_nil _ _ _⟩
  | cons b bs ih =>
    rw [Store.copyClasses] at h
    split at h
    · rename_i s₁ hcopy
      rw [Store.copyClass] at hcopy
      obtain ⟨hfree, hcopy⟩ := ite_eq_some hcopy
      split at hcopy
      · rename_i hunused
        obtain ⟨baseClasses, hinsert, rfl⟩ := Option.map_eq_some_iff.mp hcopy
        have hrows := Table.insert?_rows hinsert
        have hfresh := Table.key_not_mem_of_insert? hinsert
        have hmem : ∀ b' ∈ bs, b' ∈ s.baseClasses.rows :=
          fun b' hb' => hbs b' (List.mem_cons_of_mem _ hb')
        have hcopied := ih (s := { s with
          baseClasses := baseClasses
          baseClassAiGenes := cloneJunction s.baseClassAiGenes b.id (classCopy names orgId b).id
          baseClassCapabilities :=
            cloneJunction s.baseClassCapabilities b.id (classCopy names orgId b).id })
          (fun b' hb' => hrows ▸ List.mem_append_left _ (hmem b' hb')) h
        have hold := List.mem_map_of_mem (f := ClassRow.key) (hbs b List.mem_cons_self)
        have hkeys : ∀ id ∈ bs.map ClassRow.key, id ∈ s.baseClasses.rows.map ClassRow.key := by
          intro id hid
          obtain ⟨b', hb', rfl⟩ := List.mem_map.mp hid
          exact List.mem_map_of_mem (hmem b' hb')
        have haiGenes := hcopied.aiGenes
        dsimp only at haiGenes
        rw [hrows, List.map_append] at haiGenes
        refine ⟨?_, hcopied.market, hcopied.genes, hcopied.entities, hcopied.namespaces,
          hcopied.entityCapabilities, hcopied.entityAiGenes,
          fun hs => hcopied.classSlugs (classSlugs_insert? hs hinsert hfree), ?_⟩
        · rw [hcopied.rows]
          dsimp only
          rw [hrows, List.append_assoc]
          rfl
        · exact linksCopied_cons hold hkeys hfresh (fun l hl =>
            (hunused.2 l (Catalog.mem_links_baseClassAiGenes l hl)).1) haiGenes
      · cases hcopy
    · cases h

/-- What a copy of an organization leaves. -/
structure OrganizationCopied (names : CloneNames) (orgId newOrgId : Id) (s s' : Store) :
    Prop where
  old : orgId ∈ s.organizations.rows.map Organization.id
  new : newOrgId ∉ s.organizations.rows.map Organization.id
  market : s'.market = s.market
  genes : s'.genes = s.genes
  namespaces : s'.namespaces.rows = s.namespaces.rows ++ (s.namespacesOf orgId).map fun n =>
    ⟨names.namespaceId n.id, newOrgId, false⟩
  entities : s'.entities.rows = s.entities.rows ++ (s.entitiesOf orgId).map (entityCopy names)
  baseClasses : s'.baseClasses.rows =
    s.baseClasses.rows ++ (s.classesOf orgId).map (classCopy names newOrgId)
  capabilities : LinksCopied names.entityId s.entityCapabilities s'.entityCapabilities
    (s.entities.rows.map EntityRow.key) ((s.entitiesOf orgId).map EntityRow.key)
  aiGenes : LinksCopied names.entityId s.entityAiGenes s'.entityAiGenes
    (s.entities.rows.map EntityRow.key) ((s.entitiesOf orgId).map EntityRow.key)
  classSlugs : s.ClassSlugs → s'.ClassSlugs
  classAiGenes : LinksCopied names.baseClassId s.baseClassAiGenes s'.baseClassAiGenes
    (s.baseClasses.rows.map ClassRow.key) ((s.classesOf orgId).map ClassRow.key)

theorem organizationCopied {newSlug : Str}
    (h : s.cloneOrganization orgId newOrgId newSlug names = some s') :
    OrganizationCopied names orgId newOrgId s s' := by
  rw [Store.cloneOrganization] at h
  split at h
  · cases h
  · rename_i o ho
    obtain ⟨hrow, rfl⟩ := Table.find?_eq_some.mp (Option.filter_eq_some_iff.mp ho).1
    replace h := (ite_eq_some h).2
    simp only [Option.bind_eq_bind, Option.bind_eq_some_iff] at h
    obtain ⟨organizations, horganizations, namespaces, hnamespaces, copied, hcopied, hclasses⟩ := h
    have hentities := copyEntities_copied (fun e he => List.mem_of_mem_filter he) hcopied
    have hcopies := copyClasses_copied (s := copied) (fun b hb => by
      rw [hentities.baseClasses]
      exact List.mem_of_mem_filter hb) hclasses
    refine ⟨List.mem_map_of_mem hrow, Table.key_not_mem_of_insert? horganizations, hcopies.market.trans hentities.market,
      hcopies.genes.trans hentities.genes, ?_, ?_, ?_, ?_, ?_, ?_, ?_⟩
    · rw [hcopies.namespaces, hentities.namespaces]
      exact copyNamespaces_rows hnamespaces
    · rw [hcopies.entities]
      exact hentities.rows
    · rw [hcopies.rows, hentities.baseClasses]
    · rw [hcopies.entityCapabilities]
      exact hentities.capabilities
    · rw [hcopies.entityAiGenes]
      exact hentities.aiGenes
    · intro hs
      apply hcopies.classSlugs
      rwa [Store.ClassSlugs, hentities.baseClasses]
    · have haiGenes := hcopies.aiGenes
      rw [hentities.baseClassAiGenes, hentities.baseClasses] at haiGenes
      exact haiGenes

end Eyot.Market
