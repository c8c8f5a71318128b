import Eyot.Market.Independence

/-! What an entity takes from the market, and when it is not another organization's to change. -/

namespace Eyot.Market

open Table (Edited)

variable {sha : Str → Str} {s t : Store} {orgId newOrgId : Id} {e e' : EntityRow} {slug : Str}

/-! Slugs. -/

theorem foldl_addNew_prefix (out items : List Str) : out <+: items.foldl addNew out := by
  induction items generalizing out with
  | nil => exact List.prefix_refl out
  | cons item items ih =>
    refine List.IsPrefix.trans ?_ (ih (addNew out item))
    rw [addNew]
    split
    · exact List.prefix_refl out
    · exact List.prefix_append out [item]

theorem candidateSlugs_eq_cons (slug : Str) : ∃ slugs, candidateSlugs slug = slug :: slugs := by
  obtain ⟨slugs, hslugs⟩ := foldl_addNew_prefix [slug] ((legacyAlias? slug).toList ++ legacyNames slug)
  exact ⟨slugs, hslugs.symm⟩

theorem legacyPresetAliases_match : ∀ kv ∈ LEGACY_PRESET_ALIASES,
    matchesSlugPattern kv.1 = true ∧ matchesSlugPattern kv.2 = true := by
  decide +kernel

/-- A slug that no base class may be given has no other names. -/
theorem candidateSlugs_of_not_match (h : matchesSlugPattern slug = false) :
    candidateSlugs slug = [slug] := by
  have halias : legacyAlias? slug = none := by
    rw [legacyAlias?, Option.map_eq_none_iff, List.find?_eq_none]
    rintro kv hkv heq
    rw [decide_eq_true_eq] at heq
    rw [← heq, (legacyPresetAliases_match kv hkv).1] at h
    cases h
  have hnames : legacyNames slug = [] := by
    rw [legacyNames, List.map_eq_nil_iff, List.filter_eq_nil_iff]
    rintro kv hkv heq
    rw [decide_eq_true_eq] at heq
    rw [← heq, (legacyPresetAliases_match kv hkv).2] at h
    cases h
  rw [candidateSlugs, halias, hnames]
  rfl

theorem classWithSlug?_eq_some {bs : List ClassRow} {b : ClassRow}
    (h : classWithSlug? bs slug = some b) : b ∈ bs ∧ b.slug = slug ∧ b.deleted = false := by
  have hb := List.find?_some h
  rw [Bool.and_eq_true, decide_eq_true_eq, Bool.not_eq_true'] at hb
  exact ⟨List.mem_of_find?_eq_some h, hb⟩

theorem classWithSlug?_of_mem {b : ClassRow} (hs : s.ClassSlugs) (hb : b ∈ s.baseClasses.rows)
    (hactive : b.deleted = false) : classWithSlug? s.baseClasses.rows b.slug = some b := by
  cases hfind : classWithSlug? s.baseClasses.rows b.slug with
  | none => exact absurd rfl (classWithSlug?_eq_none.mp hfind b hb hactive)
  | some b' =>
    obtain ⟨hb', hslug, hactive'⟩ := classWithSlug?_eq_some hfind
    rw [hs b' hb' b hb hactive' hactive hslug]

theorem candidateClass?_of_classWithSlug? {bs : List ClassRow} {b : ClassRow}
    (h : classWithSlug? bs slug = some b) : candidateClass? bs slug = some b := by
  obtain ⟨slugs, hslugs⟩ := candidateSlugs_eq_cons slug
  rw [candidateClass?, hslugs, List.findSome?_cons, h]

theorem findSome?_eq_of_first {α β : Type} {f g : α → Option β} {l : List α}
    (hnone : ∀ a ∈ l, f a = none → g a = none)
    (hsome : ∀ b, l.findSome? f = some b → ∀ a ∈ l, f a = some b → g a = some b) :
    l.findSome? g = l.findSome? f := by
  induction l with
  | nil => rfl
  | cons a l ih =>
    rw [List.findSome?_cons] at hsome
    rw [List.findSome?_cons, List.findSome?_cons]
    cases hf : f a with
    | none =>
      rw [hnone a List.mem_cons_self hf]
      rw [hf] at hsome
      exact ih (fun a' ha' => hnone a' (List.mem_cons_of_mem _ ha'))
        fun b hb a' ha' => hsome b hb a' (List.mem_cons_of_mem _ ha')
    | some b =>
      rw [hf] at hsome
      rw [hsome b rfl a List.mem_cons_self hf]

/-! What an entity refers to. -/

/-- It refers to rows of the system and to rows of its organization only. -/
structure Store.SelfContained (s : Store) (orgId : Id) (e : EntityRow) : Prop where
  capabilities : ∀ id ∈ refs s.entityCapabilities e.id, ∀ r, s.market.find? id = some r →
    r.scope = .system ∨ r.organizationId = some orgId
  genes : ∀ id ∈ refs s.entityAiGenes e.id, ∀ g, s.genes.find? id = some g →
    g.scope = .system ∨ g.organizationId = some orgId
  baseClass : ∀ slug, truthy e.presetSlug = some slug →
    ∀ b, candidateClass? s.baseClasses.rows slug = some b →
      b.scope = .system ∨ b.organizationId = some orgId
  classGenes : ∀ slug, truthy e.presetSlug = some slug →
    ∀ b, classWithSlug? s.baseClasses.rows slug = some b →
      ∀ id ∈ refs s.baseClassAiGenes b.id, ∀ g, s.genes.find? id = some g →
        g.scope = .system ∨ g.organizationId = some orgId

/-- No base class of the organization can be given the slug that finds none. -/
def Store.Locked (s : Store) (orgId : Id) (e : EntityRow) : Prop :=
  ∀ slug, truthy e.presetSlug = some slug → classWithSlug? s.baseClasses.rows slug = none →
    matchesSlugPattern slug = true → ∀ b ∈ s.classesOf orgId, s.slugInUse b.slug = true

theorem mem_classesOf {b : ClassRow} :
    b ∈ s.classesOf orgId ↔ b ∈ s.baseClasses.rows ∧ b.deleted = false ∧ b.OwnedBy orgId := by
  rw [Store.classesOf, List.mem_filter, Bool.and_eq_true, Bool.not_eq_true', decide_eq_true_eq]
  exact Iff.rfl

theorem not_owned_of_apart (hne : orgId ≠ newOrgId) {scope : Scope} {organizationId : Option Id}
    (h : scope = .system ∨ organizationId = some newOrgId) :
    ¬(scope ≠ .system ∧ organizationId = some orgId) := by
  rintro ⟨hscope, howner⟩
  obtain hsystem | hother := h
  · exact hscope hsystem
  · exact hne (Option.some.inj (howner.symm.trans hother))

/-! What requests of another organization leave of it. -/

section

variable (hne : orgId ≠ newOrgId) (h : Later orgId s t)

include hne h

theorem activeCapability?_later {id : Id} (hid : ∀ r, s.market.find? id = some r →
      r.scope = .system ∨ r.organizationId = some newOrgId) :
    t.catalog.activeCapability? id = s.catalog.activeCapability? id := by
  have hfind : t.market.find? id = s.market.find? id := h.market.find?_eq fun r hr r' hedit =>
    hedit.resolve_right fun hr' => not_owned_of_apart hne (hid r hr) hr'.1
  simp only [Catalog.activeCapability?, Store.catalog, Table.find?_map, hfind]

theorem activeGene?_later {id : Id} (hid : ∀ g, s.genes.find? id = some g →
      g.scope = .system ∨ g.organizationId = some newOrgId) :
    t.catalog.activeGene? id = s.catalog.activeGene? id := by
  have hfind : t.genes.find? id = s.genes.find? id := h.genes.find?_eq fun g hg g' hedit =>
    hedit.resolve_right fun hg' => not_owned_of_apart hne (hid g hg) hg'.1
  simp only [Catalog.activeGene?, Store.catalog, Table.find?_map, hfind]

theorem classWithSlug?_later_some {b : ClassRow}
    (hb : classWithSlug? s.baseClasses.rows slug = some b)
    (hapart : b.scope = .system ∨ b.organizationId = some newOrgId) :
    classWithSlug? t.baseClasses.rows slug = some b := by
  obtain ⟨hrow, rfl, hactive⟩ := classWithSlug?_eq_some hb
  obtain ⟨b', hb', hedit⟩ := h.baseClasses.find? (s.baseClasses.find?_of_mem hrow)
  obtain rfl : b' = b := hedit.resolve_right fun hb' => not_owned_of_apart hne hapart hb'.1
  exact classWithSlug?_of_mem h.classSlugs (Table.find?_mem hb') hactive

omit hne in
/-- Where no class can be renamed, a slug that finds none goes on finding none. -/
theorem classWithSlug?_later_none (hnone : classWithSlug? s.baseClasses.rows slug = none)
    (hlocked : matchesSlugPattern slug = true →
      ∀ b ∈ s.classesOf orgId, s.slugInUse b.slug = true) :
    classWithSlug? t.baseClasses.rows slug = none := by
  rw [classWithSlug?_eq_none] at hnone ⊢
  intro b' hb' hactive' hslug'
  obtain ⟨b, hb, _, rfl | ⟨howned, _, hedit⟩⟩ := h.baseClasses.mem hb'
  · exact hnone b' hb hactive' hslug'
  · obtain ⟨hactive, heq | ⟨hfree, hmatch⟩⟩ := hedit hactive'
    · exact hnone b hb hactive (heq.symm.trans hslug')
    · rw [hlocked (hslug' ▸ hmatch) b (mem_classesOf.mpr ⟨hb, hactive, howned⟩)] at hfree
      cases hfree

/-- The class of a slug, and the class of the first of its names that has one. -/
theorem classes_later
    (hbase : ∀ b, candidateClass? s.baseClasses.rows slug = some b →
      b.scope = .system ∨ b.organizationId = some newOrgId)
    (hlocked : classWithSlug? s.baseClasses.rows slug = none → matchesSlugPattern slug = true →
      ∀ b ∈ s.classesOf orgId, s.slugInUse b.slug = true) :
    classWithSlug? t.baseClasses.rows slug = classWithSlug? s.baseClasses.rows slug ∧
      candidateClass? t.baseClasses.rows slug = candidateClass? s.baseClasses.rows slug := by
  cases hexact : classWithSlug? s.baseClasses.rows slug with
  | some b =>
    have hcandidate := candidateClass?_of_classWithSlug? hexact
    have hlater := classWithSlug?_later_some hne h hexact (hbase b hcandidate)
    exact ⟨hlater, (candidateClass?_of_classWithSlug? hlater).trans hcandidate.symm⟩
  | none =>
    have hlater := classWithSlug?_later_none h hexact (hlocked hexact)
    refine ⟨hlater, ?_⟩
    cases hmatch : matchesSlugPattern slug with
    | false => simp [candidateClass?, candidateSlugs_of_not_match hmatch, hexact, hlater]
    | true =>
      have hfixed := hlocked hexact hmatch
      apply findSome?_eq_of_first
      · intro slug' _ hnone
        exact classWithSlug?_later_none h hnone fun _ => hfixed
      · intro b hb slug' _ hsome
        exact classWithSlug?_later_some hne h hsome (hbase b hb)

theorem inheritedGenes_later (hcontained : s.SelfContained newOrgId e) (hlocked : s.Locked orgId e) :
    t.catalog.inheritedGenes e.presetSlug = s.catalog.inheritedGenes e.presetSlug := by
  rw [Catalog.inheritedGenes, Catalog.inheritedGenes]
  cases hslug : truthy e.presetSlug with
  | none => rfl
  | some slug =>
    obtain ⟨hexact, _⟩ := classes_later hne h (hcontained.baseClass slug hslug) (hlocked slug hslug)
    rw [Option.bind_some, Option.bind_some, Store.classWithSlug?_catalog,
      Store.classWithSlug?_catalog, hexact]
    cases hfound : classWithSlug? s.baseClasses.rows slug with
    | none => rfl
    | some b =>
      have hlinks : t.catalog.baseClassAiGenes = s.catalog.baseClassAiGenes := h.baseClassAiGenes
      rw [Option.map_some]
      dsimp only
      rw [Catalog.genesOfClass, Catalog.genesOfClass, hlinks]
      exact List.filterMap_congr fun id hid =>
        activeGene?_later hne h (hcontained.classGenes slug hslug b hfound id hid)

/-- Requests on what belongs to the one organization do not reach an entity of the other. -/
theorem effective_later {ν : Type} [LinearOrder ν] (number : Str → ν)
    (hcontained : s.SelfContained newOrgId e) (hlocked : s.Locked orgId e)
    (he : e.Rehashed e') : t.effective number e' = s.effective number e := by
  have hcapabilityLinks : t.catalog.entityCapabilities = s.catalog.entityCapabilities :=
    h.entityCapabilities
  have hgeneLinks : t.catalog.entityAiGenes = s.catalog.entityAiGenes := h.entityAiGenes
  have hjunction : t.catalog.junctionCapabilities e.id = s.catalog.junctionCapabilities e.id := by
    have hactive : (refs s.catalog.entityCapabilities e.id).filterMap t.catalog.activeCapability? =
        (refs s.catalog.entityCapabilities e.id).filterMap s.catalog.activeCapability? :=
      List.filterMap_congr fun id hid =>
        activeCapability?_later hne h (hcontained.capabilities id hid)
    rw [Catalog.junctionCapabilities, Catalog.junctionCapabilities, hcapabilityLinks, hactive]
  have hexplicit : t.catalog.explicitGenes e.id = s.catalog.explicitGenes e.id := by
    rw [Catalog.explicitGenes, Catalog.explicitGenes, hgeneLinks]
    exact List.filterMap_congr fun id hid => activeGene?_later hne h (hcontained.genes id hid)
  have hinherited := inheritedGenes_later hne h hcontained hlocked
  have hcapabilities : t.catalog.loadEntityCapabilityDicts e.toEntity =
      s.catalog.loadEntityCapabilityDicts e.toEntity := by
    rw [Catalog.loadEntityCapabilityDicts, Catalog.loadEntityCapabilityDicts, hjunction, hexplicit,
      hinherited]
  have hrefs : t.catalog.loadEntityGeneRefs e.id = s.catalog.loadEntityGeneRefs e.id := by
    rw [Catalog.loadEntityGeneRefs, Catalog.loadEntityGeneRefs, hexplicit]
  have hgenes : t.catalog.loadEntityAiGeneDicts e.toEntity =
      s.catalog.loadEntityAiGeneDicts e.toEntity := by
    rw [Catalog.loadEntityAiGeneDicts, Catalog.loadEntityAiGeneDicts, hrefs, hinherited]
  have hpreset : (truthy e.presetSlug).bind (candidateClass? t.baseClasses.rows) =
        (truthy e.presetSlug).bind (candidateClass? s.baseClasses.rows) ∧
      (truthy e.presetSlug).bind (classWithSlug? t.baseClasses.rows) =
        (truthy e.presetSlug).bind (classWithSlug? s.baseClasses.rows) := by
    cases hslug : truthy e.presetSlug with
    | none => exact ⟨rfl, rfl⟩
    | some slug =>
      exact (classes_later hne h (hcontained.baseClass slug hslug) (hlocked slug hslug)).symm
  rw [← he]
  have hconfig : t.resolveInstanceAgentConfig number { e with migrationHash := e'.migrationHash } =
      s.resolveInstanceAgentConfig number e := by
    unfold Store.resolveInstanceAgentConfig
    simp only [hpreset.1, hrefs]
    rw [show t.catalog.loadEntityCapabilityDicts
      { e.toEntity with migrationHash := e'.migrationHash } = _ from hcapabilities]
    rfl
  have hknowledge : t.computeHasKnowledge { e with migrationHash := e'.migrationHash } =
      s.computeHasKnowledge e := by
    rw [Store.computeHasKnowledge, Store.computeHasKnowledge, hpreset.2]
  rw [Store.effective, Store.effective, hconfig, hknowledge]
  congr 1

end

/-! Runs. -/

/-- Whatever requests on what belongs to the organization do, the entity stays as it is. -/
def Store.Independent {ν : Type} [LinearOrder ν] (sha : Str → Str) (number : Str → ν) (s : Store)
    (orgId : Id) (e : EntityRow) : Prop :=
  ∀ rs : List AssetRequest, Run.Always (fun t r => t.stepOwned sha orgId r)
    (fun t => (t.entities.find? e.id).map (t.effective number) = some (s.effective number e)) s rs

theorem later_run (hs : s.ClassSlugs) (rs : List AssetRequest) :
    Run.Always (fun t r => t.stepOwned sha orgId r) (Later orgId s) s rs :=
  Run.always_of_step (fun _ r h => h.trans (later_step h.classSlugs r)) (later_refl hs) rs

theorem independent_of_locked {ν : Type} [LinearOrder ν] {number : Str → ν} (hs : s.ClassSlugs)
    (hne : orgId ≠ newOrgId) (he : e ∈ s.entities.rows) (hcontained : s.SelfContained newOrgId e)
    (hlocked : s.Locked orgId e) : s.Independent sha number orgId e := by
  intro rs
  refine (later_run hs rs).imp ?_
  intro t h
  obtain ⟨e', he', hrehashed⟩ := h.entities.find? (s.entities.find?_of_mem he)
  have hfind : t.entities.find? e.id = some e' := he'
  rw [hfind, Option.map_some, effective_later hne h number hcontained hlocked hrehashed]

/-- The request that gives a base class another slug, and knowledge. -/
def ClassPatch.rename (slug : KebabSlug) : ClassPatch :=
  ⟨some slug, none, none, none, some (some [[]])⟩

/-- A base class that no entity refers to takes a slug that finds none. -/
theorem rename_reaches {b : ClassRow} {slug : KebabSlug} (hs : s.ClassSlugs)
    (hb : b ∈ s.classesOf orgId) (hfree : s.slugInUse b.slug = false)
    (hnone : classWithSlug? s.baseClasses.rows slug.text = none) :
    classWithSlug? (s.stepOwned sha orgId
      (.updateBaseClass b.id (.rename slug))).baseClasses.rows slug.text =
        some ((ClassPatch.rename slug).apply b) := by
  obtain ⟨hrow, hactive, hscope, howner⟩ := mem_classesOf.mp hb
  rw [classWithSlug?_eq_none] at hnone
  have hfind : s.baseClasses.find? b.id = some b := s.baseClasses.find?_of_mem hrow
  have hclass : s.activeClass? b.id = some b := by
    rw [Store.activeClass?, hfind, Option.filter_some, hactive]
    rfl
  have htaken : s.classSlugTaken b.id slug.text = false := by
    rw [Store.classSlugTaken, List.any_eq_false]
    intro b' hb' htaken
    simp only [Bool.and_eq_true, decide_eq_true_eq, Bool.not_eq_true'] at htaken
    exact hnone b' hb' htaken.1.2 htaken.1.1
  have hmay : s.mayPatchClass b (.rename slug) = true := by
    have hslug : ((ClassPatch.rename slug).apply b).slug = slug.text := rfl
    rw [Store.mayPatchClass, hslug, htaken, hfree, decide_eq_true hscope]
    exact Bool.or_true _
  have howned : s.owner? (.updateBaseClass b.id (.rename slug)) = some orgId := by
    rw [Store.owner?, hfind, Option.bind_some, howner]
  have hchange : s.change? sha (.updateBaseClass b.id (.rename slug)) = some { s with
      baseClasses := s.baseClasses.update b.id (ClassPatch.rename slug).apply
        (ClassPatch.rename slug).apply_key } := by
    rw [Store.change?, hclass]
    exact if_pos hmay
  rw [Store.stepOwned, if_pos howned, hchange]
  exact classWithSlug?_of_mem (later_change hs howned hchange).classSlugs
    (Table.mem_update_self _ (ClassPatch.rename slug).apply_key hrow rfl) hactive

/-- What such a class teaches, the entity did not know before. -/
theorem locked_of_independent {ν : Type} [LinearOrder ν] {number : Str → ν} (hs : s.ClassSlugs)
    (he : e ∈ s.entities.rows) (hknowledge : e.hasKnowledge = none)
    (h : s.Independent sha number orgId e) : s.Locked orgId e := by
  intro slug hslug hnone hmatch b hb
  by_contra hfree
  rw [Bool.not_eq_true] at hfree
  let r : AssetRequest := .updateBaseClass b.id (.rename ⟨slug, hmatch⟩)
  have hfound : classWithSlug? (s.stepOwned sha orgId r).baseClasses.rows slug =
      some ((ClassPatch.rename ⟨slug, hmatch⟩).apply b) := rename_reaches hs hb hfree hnone
  have hlater : Later orgId s (s.stepOwned sha orgId r) := later_step hs r
  obtain ⟨e', he', hrehashed⟩ := hlater.entities.find? (s.entities.find?_of_mem he)
  have hpreset : truthy e'.presetSlug = some slug := by
    rw [← hrehashed]
    exact hslug
  have hknows : [] ∈ ((s.stepOwned sha orgId r).effective number e').knowledge := by
    simp [Store.effective, Store.computeHasKnowledge, hpreset, hfound, ClassPatch.rename,
      ClassPatch.apply]
  have hsame : ((s.stepOwned sha orgId r).entities.find? e.id).map
      ((s.stepOwned sha orgId r).effective number) = some (s.effective number e) := (h [r]).2
  rw [show (s.stepOwned sha orgId r).entities.find? e.id = some e' from he', Option.map_some,
    Option.some.injEq] at hsame
  rw [hsame] at hknows
  simp [Store.effective, Store.computeHasKnowledge, hknowledge, hslug, hnone] at hknows

end Eyot.Market
