import Eyot.Market.SelfContained

/-! When the entities of a copied organization have nothing left of the one they come from. -/

namespace Eyot.Market

variable {sha : Str → Str} {names : CloneNames} {s s' : Store} {orgId newOrgId : Id} {e : EntityRow}

namespace Store

/-- The base classes there are beside the copies of those of the organization. -/
def classesAfter (s : Store) (names : CloneNames) (orgId newOrgId : Id) : List ClassRow :=
  s.baseClasses.rows ++ (s.classesOf orgId).map (classCopy names newOrgId)

/-- A copy of the entity will refer to the system and to its own organization only, and no base
class of the old one can take the place of one that is missing. -/
structure Clean (s : Store) (names : CloneNames) (orgId newOrgId : Id) (e : EntityRow) :
    Prop where
  capabilities : ∀ id ∈ refs s.entityCapabilities e.id, ∀ r, s.market.find? id = some r →
    r.scope = .system
  genes : ∀ id ∈ refs s.entityAiGenes e.id, ∀ g, s.genes.find? id = some g → g.scope = .system
  baseClass : ∀ slug, truthy e.presetSlug = some slug →
    ∀ b, candidateClass? (s.classesAfter names orgId newOrgId) slug = some b →
      b.scope = .system ∨ b.organizationId = some newOrgId
  classGenes : ∀ slug, truthy e.presetSlug = some slug →
    ∀ b, classWithSlug? (s.classesAfter names orgId newOrgId) slug = some b →
      ∀ b₀ ∈ s.baseClasses.rows,
        b₀ = b ∨ b₀ ∈ s.classesOf orgId ∧ classCopy names newOrgId b₀ = b →
          ∀ id ∈ refs s.baseClassAiGenes b₀.id, ∀ g, s.genes.find? id = some g → g.scope = .system
  locked : ∀ slug, truthy e.presetSlug = some slug →
    classWithSlug? (s.classesAfter names orgId newOrgId) slug = none →
      matchesSlugPattern slug = true → ∀ b ∈ s.classesOf orgId, s.slugInUse b.slug = true

end Store

section

variable (hs : s.Intact) (hcopied : OrganizationCopied names orgId newOrgId s s')

theorem mem_namespacesOf {n : Namespace} :
    n ∈ s.namespacesOf orgId ↔ n ∈ s.namespaces.rows ∧ n.deleted = false ∧ n.orgId = orgId := by
  rw [Store.namespacesOf, List.mem_filter, Bool.and_eq_true, Bool.not_eq_true', decide_eq_true_eq]

theorem mem_entitiesOf :
    e ∈ s.entitiesOf orgId ↔ e ∈ s.entities.rows ∧ e.deleted = false ∧
      ∃ n ∈ s.namespacesOf orgId, n.id = e.namespaceId := by
  rw [Store.entitiesOf, List.mem_filter, Bool.and_eq_true, Bool.not_eq_true', decide_eq_true_eq,
    List.mem_map]

include hs hcopied

theorem mem_namespacesOf_copied {n : Namespace} :
    n ∈ s'.namespacesOf newOrgId ↔
      ∃ n₀ ∈ s.namespacesOf orgId, ⟨names.namespaceId n₀.id, newOrgId, false⟩ = n := by
  rw [mem_namespacesOf, hcopied.namespaces, List.mem_append, List.mem_map]
  constructor
  · rintro ⟨hold | hnew, _, horg⟩
    · exact absurd (horg ▸ hs.namespaceOrganization n hold) hcopied.new
    · exact hnew
  · rintro ⟨n₀, hn₀, rfl⟩
    exact ⟨.inr ⟨n₀, hn₀, rfl⟩, rfl, rfl⟩

/-- The entities of the new organization are copies, one for each. -/
theorem mem_entitiesOf_copied {c : EntityRow} :
    c ∈ s'.entitiesOf newOrgId ↔ ∃ e ∈ s.entitiesOf orgId, entityCopy names e = c := by
  rw [mem_entitiesOf, hcopied.entities, List.mem_append, List.mem_map]
  constructor
  · rintro ⟨hold | hnew, _, n, hn, hid⟩
    · obtain ⟨n₀, hn₀, rfl⟩ := (mem_namespacesOf_copied hs hcopied).mp hn
      obtain ⟨n₁, hn₁, hid₁⟩ := List.mem_map.mp (hs.entityNamespace c hold)
      have hrows := hcopied.namespaces
      have hkeys := s'.namespaces.keys_nodup
      rw [hrows, List.map_append, List.nodup_append] at hkeys
      exact absurd (hid₁.trans hid.symm) (hkeys.2.2 n₁.id (List.mem_map_of_mem hn₁) _
        (List.mem_map_of_mem (List.mem_map_of_mem hn₀)))
    · exact hnew
  · rintro ⟨e, he, rfl⟩
    obtain ⟨_, hactive, n₀, hn₀, hid⟩ := mem_entitiesOf.mp he
    refine ⟨.inr ⟨e, he, rfl⟩, hactive, _, (mem_namespacesOf_copied hs hcopied).mpr ⟨n₀, hn₀, rfl⟩, ?_⟩
    rw [hid]
    rfl

omit hs in
theorem classSlugInUse_copied (slug : Str) : s'.slugInUse slug = s.slugInUse slug := by
  rw [Store.slugInUse, Store.slugInUse, hcopied.entities, List.any_append]
  cases hold : s.entities.rows.any fun e => ofBaseClass slug e.toEntity with
  | true => rfl
  | false =>
    rw [Bool.false_or, List.any_map, List.any_eq_false]
    rw [List.any_eq_false] at hold
    intro e he
    exact hold e (mem_entitiesOf.mp he).1

omit hs in
theorem mem_classesOf_copied (hne : orgId ≠ newOrgId) {b : ClassRow} :
    b ∈ s'.classesOf orgId ↔ b ∈ s.classesOf orgId := by
  rw [mem_classesOf, mem_classesOf, hcopied.baseClasses, List.mem_append, List.mem_map]
  constructor
  · rintro ⟨hold | ⟨b₀, _, rfl⟩, hactive, howned⟩
    · exact ⟨hold, hactive, howned⟩
    · exact absurd (Option.some.inj howned.2).symm hne
  · rintro ⟨hold, hrest⟩
    exact ⟨.inl hold, hrest⟩

omit hs in
/-- What was there before the new organization is not its own. -/
theorem system_iff {scope : Scope} {organizationId : Option Id}
    (hfk : ∀ o ∈ organizationId, o ∈ s.organizations.rows.map Organization.id) :
    scope = .system ∨ organizationId = some newOrgId ↔ scope = .system :=
  or_iff_left fun howner => hcopied.new (hfk newOrgId howner)

theorem clean_iff (hne : orgId ≠ newOrgId) (he : e ∈ s.entitiesOf orgId) :
    s'.SelfContained newOrgId (entityCopy names e) ∧ s'.Locked orgId (entityCopy names e) ↔
      s.Clean names orgId newOrgId e := by
  have hkey : e.key ∈ (s.entitiesOf orgId).map EntityRow.key := List.mem_map_of_mem he
  have hcapabilities : refs s'.entityCapabilities (entityCopy names e).id =
      refs s.entityCapabilities e.id := hcopied.capabilities.copied e.key hkey
  have hgenes : refs s'.entityAiGenes (entityCopy names e).id = refs s.entityAiGenes e.id :=
    hcopied.aiGenes.copied e.key hkey
  have hclasses : s'.baseClasses.rows = s.classesAfter names orgId newOrgId := hcopied.baseClasses
  have hkept : ∀ b ∈ s.baseClasses.rows,
      refs s'.baseClassAiGenes b.id = refs s.baseClassAiGenes b.id :=
    fun b hb => hcopied.classAiGenes.kept b.key (List.mem_map_of_mem hb)
  have hcopies : ∀ b ∈ s.classesOf orgId,
      refs s'.baseClassAiGenes (classCopy names newOrgId b).id = refs s.baseClassAiGenes b.id :=
    fun b hb => hcopied.classAiGenes.copied b.key (List.mem_map_of_mem hb)
  have hentry : ∀ id r, s.market.find? id = some r →
      (r.scope = .system ∨ r.organizationId = some newOrgId ↔ r.scope = .system) :=
    fun id r hr => system_iff hcopied (hs.entryOrganization r (Table.find?_mem hr))
  have hgene : ∀ id g, s.genes.find? id = some g →
      (g.scope = .system ∨ g.organizationId = some newOrgId ↔ g.scope = .system) :=
    fun id g hg => system_iff hcopied (hs.geneOrganization g (Table.find?_mem hg))
  constructor
  · rintro ⟨hcontained, hlocked⟩
    refine ⟨?_, ?_, ?_, ?_, ?_⟩
    · intro id hid r hr
      rw [← hentry id r hr]
      exact hcontained.capabilities id (hcapabilities ▸ hid) r (hcopied.market ▸ hr)
    · intro id hid g hg
      rw [← hgene id g hg]
      exact hcontained.genes id (hgenes ▸ hid) g (hcopied.genes ▸ hg)
    · intro slug hslug b hb
      exact hcontained.baseClass slug hslug b (hclasses ▸ hb)
    · intro slug hslug b hb b₀ hb₀ hsource id hid g hg
      rw [← hgene id g hg]
      apply hcontained.classGenes slug hslug b (hclasses ▸ hb) id _ g (hcopied.genes ▸ hg)
      obtain rfl | ⟨hown, rfl⟩ := hsource
      · rwa [hkept b₀ hb₀]
      · rwa [hcopies b₀ hown]
    · intro slug hslug hnone hmatch b hb
      rw [← classSlugInUse_copied hcopied]
      exact hlocked slug hslug (hclasses ▸ hnone) hmatch b
        ((mem_classesOf_copied hcopied hne).mpr hb)
  · intro hclean
    refine ⟨⟨?_, ?_, ?_, ?_⟩, ?_⟩
    · intro id hid r hr
      exact .inl (hclean.capabilities id (hcapabilities ▸ hid) r (hcopied.market ▸ hr))
    · intro id hid g hg
      exact .inl (hclean.genes id (hgenes ▸ hid) g (hcopied.genes ▸ hg))
    · intro slug hslug b hb
      exact hclean.baseClass slug hslug b (hclasses ▸ hb)
    · intro slug hslug b hb id hid g hg
      rw [hclasses] at hb
      have hfrom := hclean.classGenes slug hslug b hb
      left
      obtain hold | hnew := List.mem_append.mp (classWithSlug?_eq_some hb).1
      · exact hfrom b hold (.inl rfl) id (hkept b hold ▸ hid) g (hcopied.genes ▸ hg)
      · obtain ⟨b₀, hb₀, rfl⟩ := List.mem_map.mp hnew
        exact hfrom b₀ (mem_classesOf.mp hb₀).1 (.inr ⟨hb₀, rfl⟩) id (hcopies b₀ hb₀ ▸ hid) g
          (hcopied.genes ▸ hg)
    · intro slug hslug hnone hmatch b hb
      rw [classSlugInUse_copied hcopied]
      exact hclean.locked slug hslug (hclasses ▸ hnone) hmatch b
        ((mem_classesOf_copied hcopied hne).mp hb)

end

/-- The new organization is on its own exactly if what its source's entities refer to is no
organization's, base classes that copies of its own replace apart. -/
theorem clonedOrganization_apart_iff {ν : Type} [LinearOrder ν] {number : Str → ν} {newSlug : Str}
    (hs : s.Intact) (h : s.cloneOrganization orgId newOrgId newSlug names = some s') :
    (∀ c ∈ s'.entitiesOf newOrgId,
      s'.SelfContained newOrgId c ∧ s'.Independent sha number orgId c) ↔
        ∀ e ∈ s.entitiesOf orgId, s.Clean names orgId newOrgId e := by
  have hcopied := organizationCopied h
  have hclassSlugs : s'.ClassSlugs := hcopied.classSlugs hs.classSlugs
  have hne : orgId ≠ newOrgId := by
    rintro rfl
    exact hcopied.new hcopied.old
  have hrow : ∀ e ∈ s.entitiesOf orgId,
      (s'.SelfContained newOrgId (entityCopy names e) ∧
        s'.Independent sha number orgId (entityCopy names e) ↔ s.Clean names orgId newOrgId e) := by
    intro e he
    have hmem : entityCopy names e ∈ s'.entities.rows :=
      (mem_entitiesOf.mp ((mem_entitiesOf_copied hs hcopied).mpr ⟨e, he, rfl⟩)).1
    rw [← clean_iff hs hcopied hne he]
    apply and_congr_right
    intro hcontained
    exact ⟨locked_of_independent hclassSlugs hmem rfl,
      independent_of_locked hclassSlugs hne hmem hcontained⟩
  constructor
  · intro hall e he
    exact (hrow e he).mp (hall _ ((mem_entitiesOf_copied hs hcopied).mpr ⟨e, he, rfl⟩))
  · intro hall c hc
    obtain ⟨e, he, rfl⟩ := (mem_entitiesOf_copied hs hcopied).mp hc
    exact (hrow e he).mpr (hall e he)

/-- An organization with an entity of a base class of its own. -/
def reef : Store :=
  { Store.empty with
    organizations := .single ⟨"reef", "reef".toList, false⟩
    namespaces := .single ⟨"default", "reef", false⟩
    entities := .single { fox with presetSlug := some "scout".toList }
    baseClasses := .single
      ⟨⟨"scout", "scout".toList, .org, some "reef", false⟩, "Scout".toList, none, none, none⟩ }

def atollNames : CloneNames :=
  ⟨fun _ => "atoll-default", fun _ => "atoll-fox", fun _ => "atoll-scout",
    fun _ => "scout-clone".toList⟩

theorem reef_intact : reef.Intact where
  entryOrganization := nofun
  geneOrganization := nofun
  namespaceOrganization := by decide
  entityNamespace := by decide
  classSlugs := by
    intro b hb b' hb' _ _ _
    rw [List.mem_singleton.mp hb, List.mem_singleton.mp hb']

theorem cloneOrganization_reef :
    ∃ s', reef.cloneOrganization "reef" "atoll" "atoll".toList atollNames = some s' :=
  ⟨_, rfl⟩

theorem clonedOrganization_apart_reef :
    ∃ s', reef.cloneOrganization "reef" "atoll" "atoll".toList atollNames = some s' ∧
      ((∀ c ∈ s'.entitiesOf "atoll", s'.SelfContained "atoll" c ∧
        s'.Independent (tableSha stockedDigests) Manifest.decimal "reef" c) ↔
          ∀ e ∈ reef.entitiesOf "reef", reef.Clean atollNames "reef" "atoll" e) := by
  obtain ⟨s', h⟩ := cloneOrganization_reef
  exact ⟨s', h, clonedOrganization_apart_iff reef_intact h⟩

/-- The copy of an entity keeps the slug of its base class, which is the old organization's. -/
theorem not_clonedOrganization_apart_reef :
    ¬∀ (s s' : Store) (orgId newOrgId : Id) (newSlug : Str) (names : CloneNames), s.Intact →
      s.cloneOrganization orgId newOrgId newSlug names = some s' →
        ∀ c ∈ s'.entitiesOf newOrgId, s'.SelfContained newOrgId c ∧
          s'.Independent (tableSha stockedDigests) Manifest.decimal orgId c := by
  intro hall
  obtain ⟨s', h⟩ := cloneOrganization_reef
  have hcopied := organizationCopied h
  have hmem : _ ∈ s'.entitiesOf "atoll" :=
    (mem_entitiesOf_copied reef_intact hcopied).mpr ⟨_, List.mem_singleton.mpr rfl, rfl⟩
  obtain ⟨hcontained, _⟩ := hall _ _ _ _ _ _ reef_intact h _ hmem
  have hbase := hcontained.baseClass "scout".toList rfl
  rw [hcopied.baseClasses] at hbase
  obtain hsystem | hown := hbase _ rfl
  · cases hsystem
  · revert hown
    decide

end Eyot.Market
