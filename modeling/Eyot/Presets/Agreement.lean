import Eyot.Presets.Registry

/-! Whether all that resolve a preset find the same base class, under each of its names. -/

namespace Eyot.Presets

open Market

/-- The places where a preset is resolved. -/
inductive Resolver where
  | entityConfig | presetRegistry | registryTools | registrySkills | registryCommands
  | geneCapabilities | geneDicts | knowledge | provider

/-- The base class that is found for the preset of an entity. -/
def found (s : Store) (w : Tenancy.World) (e : EntityRow) : Resolver → Option Id
  | .entityConfig =>
    ((truthy e.presetSlug).bind (candidateClass? s.baseClasses.rows)).map ClassRow.key
  | .presetRegistry =>
    (e.presetSlug.bind (PresetRegistry.load s.baseClasses.rows).get).map ClassRow.key
  | .registryTools | .registrySkills | .registryCommands =>
    (e.presetSlug.bind (PresetRegistry.load s.baseClasses.rows).cached).map ClassRow.key
  | .geneCapabilities | .geneDicts =>
    ((truthy e.presetSlug).bind s.catalog.classWithSlug?).map BaseClass.id
  | .knowledge =>
    ((truthy e.presetSlug).bind (classWithSlug? s.baseClasses.rows)).map ClassRow.key
  | .provider => (w.classOf? (tenant e)).map BaseClass.id

/-- The provider and the model that an instance of the entity runs on. -/
def providerOf (r : Tenancy.Registry) (e : Tenancy.Entity) :
    Option (Tenancy.OrganizationProvider × Option Str) :=
  (r.classDefault? e).or <| (r.world.orgOf? e).bind fun org =>
    (r.orgDefault? (r.systemHub org.id)).or <|
      (r.orgDefault? (r.cerebellumDefault org.id)).or (r.anyProvider? org.id)

theorem resolveProviderForInstance_eq (r : Tenancy.Registry) (instanceId : Id) :
    r.resolveProviderForInstance instanceId =
      (r.world.entityOf? instanceId).bind (providerOf r) := rfl

def withPreset (e : EntityRow) (slug : Str) : EntityRow := { e with presetSlug := some slug }

variable {ν : Type} [LinearOrder ν] {number : Str → ν} {s : Store} {r : Tenancy.Registry}
  {e : EntityRow} {slug name : Str}

/-- Under every name of the slug the same base class is found wherever it is looked for, and an
entity is the same. -/
structure PathsAgree (number : Str → ν) (s : Store) (r : Tenancy.Registry) (e : EntityRow)
    (slug : Str) : Prop where
  found : ∀ name ∈ candidateSlugs slug, ∀ resolver,
    found s r.world (withPreset e name) resolver =
      found s r.world (withPreset e slug) .entityConfig
  effective : ∀ name ∈ candidateSlugs slug,
    s.effective number (withPreset e name) = s.effective number (withPreset e slug)
  registry : ∀ name ∈ candidateSlugs slug, ∀ key,
    (PresetRegistry.load s.baseClasses.rows).getList key name =
      (PresetRegistry.load s.baseClasses.rows).getList key slug
  provider : ∀ name ∈ candidateSlugs slug,
    providerOf r (tenant (withPreset e name)) = providerOf r (tenant (withPreset e slug))

theorem bind_truthy_eq_none {β : Type} {f : Str → Option β} (h : f name = none) :
    (truthy (some name)).bind f = none := by
  rw [truthy, Option.filter_some]
  split
  · exact h
  · rfl

theorem bind_truthy_eq_some {β : Type} {f : Str → Option β} {b : β}
    (h : (truthy (some name)).bind f = some b) : name ≠ [] ∧ f name = some b := by
  rw [truthy, Option.filter_some] at h
  split at h
  · rename_i hname
    exact ⟨of_decide_eq_true hname, h⟩
  · cases h

theorem truthy_some (h : name ≠ []) : truthy (some name) = some name := by
  rw [truthy, Option.filter_some, if_pos (decide_eq_true h)]

/-- An entity is what its base class makes of it. -/
theorem effective_withPreset
    (hcandidate : (truthy (some name)).bind (candidateClass? s.baseClasses.rows) =
      (truthy (some slug)).bind (candidateClass? s.baseClasses.rows))
    (hexact : (truthy (some name)).bind (classWithSlug? s.baseClasses.rows) =
      (truthy (some slug)).bind (classWithSlug? s.baseClasses.rows)) :
    s.effective number (withPreset e name) = s.effective number (withPreset e slug) := by
  have hcatalog : ∀ preset : Option Str, preset.bind s.catalog.classWithSlug? =
      (preset.bind (classWithSlug? s.baseClasses.rows)).map ClassRow.toBaseClass := by
    intro preset
    cases preset with
    | none => rfl
    | some slug => exact s.classWithSlug?_catalog slug
  have hinherited : s.catalog.inheritedGenes (some name) = s.catalog.inheritedGenes (some slug) := by
    rw [Catalog.inheritedGenes, Catalog.inheritedGenes, hcatalog, hcatalog, hexact]
  have hcapabilities : s.catalog.loadEntityCapabilityDicts (withPreset e name).toEntity =
      s.catalog.loadEntityCapabilityDicts (withPreset e slug).toEntity :=
    congrArg (fun genes => sortBy CapDict.name
      ((expandGenes (s.catalog.explicitGenes e.id) genes).foldl mergeByName
        (s.catalog.junctionCapabilities e.id))) hinherited
  have hgenes : s.catalog.loadEntityAiGeneDicts (withPreset e name).toEntity =
      s.catalog.loadEntityAiGeneDicts (withPreset e slug).toEntity := by
    unfold Catalog.loadEntityAiGeneDicts
    simp only [withPreset, hinherited]
  have hconfig : s.resolveInstanceAgentConfig number (withPreset e name) =
      s.resolveInstanceAgentConfig number (withPreset e slug) := by
    unfold Store.resolveInstanceAgentConfig
    rw [hcapabilities]
    simp only [withPreset, hcandidate]
    rfl
  have hknowledge : s.computeHasKnowledge (withPreset e name) =
      s.computeHasKnowledge (withPreset e slug) := by
    unfold Store.computeHasKnowledge
    simp only [withPreset, hexact]
  rw [Store.effective, Store.effective, hcapabilities, hgenes, hconfig, hknowledge]

theorem providerOf_withPreset (h : r.world.classOf? (tenant (withPreset e name)) =
      r.world.classOf? (tenant (withPreset e slug))) :
    providerOf r (tenant (withPreset e name)) = providerOf r (tenant (withPreset e slug)) := by
  have hdefault : r.classDefault? (tenant (withPreset e name)) =
      r.classDefault? (tenant (withPreset e slug)) := by
    rw [Tenancy.Registry.classDefault?, Tenancy.Registry.classDefault?, h]
  rw [providerOf, providerOf, hdefault]
  rfl

theorem found_registryTools (hs : s.ClassSlugs) (w : Tenancy.World) (e : EntityRow) (name : Str) :
    found s w (withPreset e name) .registryTools =
      (classWithSlug? s.baseClasses.rows name).map ClassRow.key :=
  congrArg (Option.map ClassRow.key) (cached_load hs name)

/-! Where no name has a base class. -/

theorem candidateClass?_eq_none
    (h : ∀ name ∈ candidateSlugs slug, classWithSlug? s.baseClasses.rows name = none)
    (hname : name ∈ candidateSlugs slug) : candidateClass? s.baseClasses.rows name = none := by
  rw [candidateClass?, List.findSome?_eq_none_iff]
  exact fun name' hname' => h name' (mem_candidateSlugs_trans hname hname')

theorem found_eq_none (hs : s.ClassSlugs)
    (hclasses : r.world.baseClasses.rows = s.baseClasses.rows.map ClassRow.toBaseClass)
    (hexact : classWithSlug? s.baseClasses.rows name = none)
    (hcandidate : candidateClass? s.baseClasses.rows name = none) (resolver : Resolver) :
    found s r.world (withPreset e name) resolver = none := by
  have hcached := (cached_load hs name).trans hexact
  have hcatalog : s.catalog.classWithSlug? name = none := by
    rw [s.classWithSlug?_catalog, hexact]
    rfl
  cases resolver with
  | entityConfig => exact Option.map_eq_none_iff.mpr (bind_truthy_eq_none hcandidate)
  | presetRegistry => exact Option.map_eq_none_iff.mpr ((get_load hs name).trans hcandidate)
  | registryTools => exact Option.map_eq_none_iff.mpr hcached
  | registrySkills => exact Option.map_eq_none_iff.mpr hcached
  | registryCommands => exact Option.map_eq_none_iff.mpr hcached
  | geneCapabilities => exact Option.map_eq_none_iff.mpr (bind_truthy_eq_none hcatalog)
  | geneDicts => exact Option.map_eq_none_iff.mpr (bind_truthy_eq_none hcatalog)
  | knowledge => exact Option.map_eq_none_iff.mpr (bind_truthy_eq_none hexact)
  | provider =>
    rw [found, classOf?_eq hclasses, Option.map_map]
    exact Option.map_eq_none_iff.mpr (bind_truthy_eq_none hcandidate)

/-! Where a slug goes by no other name. -/

theorem found_eq_of_only (hs : s.ClassSlugs)
    (hclasses : r.world.baseClasses.rows = s.baseClasses.rows.map ClassRow.toBaseClass)
    (hslug : slug ≠ []) (honly : candidateSlugs slug = [slug]) (resolver : Resolver) :
    found s r.world (withPreset e slug) resolver =
      (classWithSlug? s.baseClasses.rows slug).map ClassRow.key := by
  have hcandidate : candidateClass? s.baseClasses.rows slug =
      classWithSlug? s.baseClasses.rows slug := by
    rw [candidateClass?, honly, List.findSome?_singleton]
  have htruthy : truthy (withPreset e slug).presetSlug = some slug := truthy_some hslug
  have hcached := found_registryTools hs r.world e slug
  have hcatalog : found s r.world (withPreset e slug) .geneCapabilities =
      (classWithSlug? s.baseClasses.rows slug).map ClassRow.key := by
    rw [found, htruthy, Option.bind_some, s.classWithSlug?_catalog, Option.map_map]
    rfl
  cases resolver with
  | entityConfig => rw [found, htruthy, Option.bind_some, hcandidate]
  | presetRegistry =>
    exact congrArg (Option.map ClassRow.key) ((get_load hs slug).trans hcandidate)
  | registryTools => exact hcached
  | registrySkills => exact hcached
  | registryCommands => exact hcached
  | geneCapabilities => exact hcatalog
  | geneDicts => exact hcatalog
  | knowledge => rw [found, htruthy, Option.bind_some]
  | provider =>
    rw [found, classOf?_eq hclasses, htruthy, Option.bind_some, hcandidate, Option.map_map]
    rfl

/-! The paths. -/

/-- A name that all look up exactly has the one class there is. -/
theorem only_of_found (hs : s.ClassSlugs)
    (hfound : ∀ name ∈ candidateSlugs slug, ∀ resolver,
      found s r.world (withPreset e name) resolver =
        found s r.world (withPreset e slug) .entityConfig)
    {b : ClassRow} (hname : name ∈ candidateSlugs slug)
    (hb : classWithSlug? s.baseClasses.rows name = some b) : candidateSlugs slug = [slug] := by
  have hcached : ∀ name ∈ candidateSlugs slug,
      (classWithSlug? s.baseClasses.rows name).map ClassRow.key =
        found s r.world (withPreset e slug) .entityConfig := by
    intro name hname
    rw [← hfound name hname .registryTools, found_registryTools hs]
  have hsame : ∀ name' ∈ candidateSlugs slug, name' = name := by
    intro name' hname'
    have hkeys := (hcached name' hname').trans (hcached name hname).symm
    rw [hb, Option.map_some, Option.map_eq_some_iff] at hkeys
    obtain ⟨b', hb', hkey⟩ := hkeys
    obtain ⟨hrow, hslug, _⟩ := classWithSlug?_eq_some hb
    obtain ⟨hrow', hslug', _⟩ := classWithSlug?_eq_some hb'
    rw [← hslug, ← hslug', s.baseClasses.eq_of_key_eq hrow' hrow hkey]
  obtain ⟨slugs, hslugs⟩ := candidateSlugs_eq_cons slug
  have hnodup := candidateSlugs_nodup slug
  rw [hslugs] at hsame hnodup ⊢
  have hfirst := hsame slug List.mem_cons_self
  cases slugs with
  | nil => rfl
  | cons slug' slugs =>
    have hsecond := hsame slug' (List.mem_cons_of_mem _ List.mem_cons_self)
    rw [hfirst, hsecond, List.nodup_cons] at hnodup
    exact absurd List.mem_cons_self hnodup.1

/-- The paths agree exactly on a slug that goes by no other name, and on one for which no name has
an active base class. -/
theorem pathsAgree_iff (hs : s.ClassSlugs)
    (hclasses : r.world.baseClasses.rows = s.baseClasses.rows.map ClassRow.toBaseClass) :
    PathsAgree number s r e slug ↔
      candidateSlugs slug = [slug] ∧ slug ≠ [] ∨
        ∀ name ∈ candidateSlugs slug, classWithSlug? s.baseClasses.rows name = none := by
  have hself : slug ∈ candidateSlugs slug := mem_candidateSlugs.mpr (.inl rfl)
  constructor
  · intro h
    by_cases hnone : ∀ name ∈ candidateSlugs slug, classWithSlug? s.baseClasses.rows name = none
    · exact .inr hnone
    · simp only [not_forall, Option.ne_none_iff_exists'] at hnone
      obtain ⟨name, hname, b, hb⟩ := hnone
      have honly := only_of_found hs h.found hname hb
      refine .inl ⟨honly, ?_⟩
      rintro rfl
      rw [honly, List.mem_singleton] at hname
      subst hname
      have hregistry := h.found [] hself .registryTools
      rw [found_registryTools hs, hb] at hregistry
      cases hregistry
  · rintro (⟨honly, hslug⟩ | hnone)
    · have hname : ∀ name ∈ candidateSlugs slug, name = slug := by
        rw [honly]
        exact fun name => List.mem_singleton.mp
      refine ⟨?_, ?_, ?_, ?_⟩
      · intro name hmem resolver
        rw [hname name hmem, found_eq_of_only hs hclasses hslug honly,
          found_eq_of_only hs hclasses hslug honly]
      · intro name hmem
        rw [hname name hmem]
      · intro name hmem key
        rw [hname name hmem]
      · intro name hmem
        rw [hname name hmem]
    · have hcandidate : ∀ name ∈ candidateSlugs slug,
          candidateClass? s.baseClasses.rows name = none :=
        fun name hname => candidateClass?_eq_none hnone hname
      have hfound : ∀ name ∈ candidateSlugs slug, ∀ resolver,
          found s r.world (withPreset e name) resolver = none := fun name hname =>
        found_eq_none hs hclasses (hnone name hname) (hcandidate name hname)
      refine ⟨?_, ?_, ?_, ?_⟩
      · intro name hname resolver
        rw [hfound name hname, hfound slug hself]
      · intro name hname
        apply effective_withPreset
        · rw [bind_truthy_eq_none (hcandidate name hname),
            bind_truthy_eq_none (hcandidate slug hself)]
        · rw [bind_truthy_eq_none (hnone name hname), bind_truthy_eq_none (hnone slug hself)]
      · intro name hname key
        rw [PresetRegistry.getList, PresetRegistry.getList, cached_load hs, cached_load hs,
          hnone name hname, hnone slug hself]
      · intro name hname
        apply providerOf_withPreset
        rw [Option.map_eq_none_iff.mp (hfound name hname .provider),
          Option.map_eq_none_iff.mp (hfound slug hself .provider)]

/-- A table with the animal only. -/
def coyoteStore : Store :=
  { Store.empty with
    baseClasses := .single ⟨⟨"coyote", "coyote".toList, .system, none, false⟩, "Coyote".toList, none,
      none, some ["dens".toList]⟩ }

def coyoteProviders : Tenancy.Registry :=
  .empty ⟨.empty, .empty, .empty, .empty, coyoteStore.catalog.baseClasses⟩

theorem coyoteStore_classSlugs : coyoteStore.ClassSlugs := by
  intro b hb b' hb' _ _ _
  rw [List.mem_singleton.mp hb, List.mem_singleton.mp hb']

theorem pathsAgree_coyote :
    PathsAgree Manifest.decimal coyoteStore coyoteProviders fox "zhu-jin".toList ↔
      candidateSlugs "zhu-jin".toList = ["zhu-jin".toList] ∧ "zhu-jin".toList ≠ [] ∨
        ∀ name ∈ candidateSlugs "zhu-jin".toList,
          classWithSlug? coyoteStore.baseClasses.rows name = none :=
  pathsAgree_iff coyoteStore_classSlugs rfl

/-- The config of the entity is that of the animal, but its tools are no one's. -/
theorem not_pathsAgree_coyote :
    ¬∀ (s : Store) (r : Tenancy.Registry) (e : EntityRow) (slug : Str), s.ClassSlugs →
      r.world.baseClasses.rows = s.baseClasses.rows.map ClassRow.toBaseClass →
        PathsAgree Manifest.decimal s r e slug := by
  intro h
  have hpaths := h coyoteStore coyoteProviders fox "zhu-jin".toList coyoteStore_classSlugs rfl
  have htools := hpaths.found "zhu-jin".toList (mem_candidateSlugs.mpr (.inl rfl)) .registryTools
  revert htools
  decide

end Eyot.Presets
