import Eyot.Market.Requests

/-! What a request leaves alone: the entities whose capabilities are, after it, the ones they
were. -/

namespace Eyot.Market

theorem ite_eq_some {α : Type} {p : Prop} [Decidable p] {x : Option α} {a : α}
    (h : (if p then none else x) = some a) : ¬p ∧ x = some a := by
  split at h
  · cases h
  · exact ⟨‹_›, h⟩

namespace Catalog

variable {c c' c'' : Catalog} {e : Entity}

theorem junctionCapabilities_congr {id : Id}
    (hrefs : refs c'.entityCapabilities id = refs c.entityCapabilities id)
    (hentry : ∀ ref ∈ refs c.entityCapabilities id, c'.activeCapability? ref = c.activeCapability? ref) :
    c'.junctionCapabilities id = c.junctionCapabilities id := by
  rw [junctionCapabilities, junctionCapabilities, hrefs, List.filterMap_congr hentry]

theorem genesOfClass_congr {id : Id}
    (hrefs : refs c'.baseClassAiGenes id = refs c.baseClassAiGenes id)
    (hgene : ∀ ref ∈ refs c.baseClassAiGenes id, c'.activeGene? ref = c.activeGene? ref) :
    c'.genesOfClass id = c.genesOfClass id := by
  rw [genesOfClass, genesOfClass, hrefs, List.filterMap_congr hgene]

/-- The base class an entity inherits from. -/
def preset? (c : Catalog) (presetSlug : Option Str) : Option BaseClass :=
  (truthy presetSlug).bind c.classWithSlug?

theorem inheritedGenes_congr {presetSlug : Option Str}
    (hpreset : c'.preset? presetSlug = c.preset? presetSlug)
    (hgenes : ∀ b, c.preset? presetSlug = some b → c'.genesOfClass b.id = c.genesOfClass b.id) :
    c'.inheritedGenes presetSlug = c.inheritedGenes presetSlug := by
  rw [preset?, preset?] at hpreset
  rw [inheritedGenes, inheritedGenes, hpreset]
  cases hb : (truthy presetSlug).bind c.classWithSlug? with
  | none => rfl
  | some b => exact hgenes b hb

/-- Two catalogs that give an entity the same. -/
structure SameFor (c c' : Catalog) (e : Entity) : Prop where
  junction : c'.junctionCapabilities e.id = c.junctionCapabilities e.id
  explicit : c'.explicitGenes e.id = c.explicitGenes e.id
  inherited : c'.inheritedGenes e.presetSlug = c.inheritedGenes e.presetSlug

theorem SameFor.refl (c : Catalog) (e : Entity) : SameFor c c e := ⟨rfl, rfl, rfl⟩

theorem SameFor.trans (h : SameFor c c' e) (h' : SameFor c' c'' e) : SameFor c c'' e :=
  ⟨h'.junction.trans h.junction, h'.explicit.trans h.explicit, h'.inherited.trans h.inherited⟩

theorem SameFor.effective (h : SameFor c c' e) : c'.effective e = c.effective e := by
  simp only [Catalog.effective, loadEntityCapabilityDicts, h.junction, h.explicit, h.inherited]

theorem SameFor.hash (h : SameFor c c' e) (sha : Str → Str) :
    c'.computeEntityMigrationHash sha e = c.computeEntityMigrationHash sha e := by
  rw [computeEntityMigrationHash, computeEntityMigrationHash, h.effective]

/-! New rows. -/

theorem Unused.not_mem_refs {id parent : Id} (h : c.Unused id) {links : List Link}
    (hlinks : ∀ l ∈ links, l ∈ c.links) : id ∉ refs links parent := by
  intro hmem
  obtain ⟨l, hl, rfl⟩ := mem_refs hmem
  exact (h.2 l (hlinks l hl)).2 rfl

theorem mem_links_entityCapabilities : ∀ l ∈ c.entityCapabilities, l ∈ c.links :=
  fun _ hl => by simp [links, hl]

theorem mem_links_entityAiGenes : ∀ l ∈ c.entityAiGenes, l ∈ c.links :=
  fun _ hl => by simp [links, hl]

theorem mem_links_baseClassAiGenes : ∀ l ∈ c.baseClassAiGenes, l ∈ c.links :=
  fun _ hl => by simp [links, hl]

theorem sameFor_insertEntry {entry : CapabilityMarketEntry} (h : c.insertEntry entry = some c')
    (e : Entity) : SameFor c c' e := by
  rw [insertEntry] at h
  split at h
  · rename_i hunused
    obtain ⟨market, hinsert, rfl⟩ := Option.map_eq_some_iff.mp h
    refine ⟨junctionCapabilities_congr rfl ?_, rfl, rfl⟩
    intro ref href
    have hne : entry.id ≠ ref := by
      rintro rfl
      exact hunused.not_mem_refs mem_links_entityCapabilities href
    rw [activeCapability?, activeCapability?, Table.find?_insert? hinsert, if_neg hne]
  · cases h

/-- A new base class has no genes. -/
theorem sameFor_insertClass {baseClass : BaseClass} (h : c.insertClass baseClass = some c')
    (e : Entity) : SameFor c c' e := by
  rw [insertClass] at h
  split at h
  · rename_i hunused
    obtain ⟨baseClasses, hinsert, rfl⟩ := Option.map_eq_some_iff.mp h
    have hnone : c.genesOfClass baseClass.id = [] := by
      rw [genesOfClass, refs_eq_nil, List.filterMap_nil]
      exact fun l hl => (hunused.2 l (mem_links_baseClassAiGenes l hl)).1
    refine ⟨rfl, rfl, ?_⟩
    rw [inheritedGenes, inheritedGenes]
    cases truthy e.presetSlug with
    | none => rfl
    | some slug =>
      have hclass : ({ c with baseClasses := baseClasses } : Catalog).classWithSlug? slug =
          (c.classWithSlug? slug).or
            ([baseClass].find? fun b => decide (b.slug = slug) && !b.deleted) := by
        rw [classWithSlug?, Table.insert?_rows hinsert, List.find?_append]
        rfl
      rw [Option.bind_some, Option.bind_some, hclass]
      cases hfound : c.classWithSlug? slug with
      | some b => rfl
      | none =>
        rw [Option.none_or]
        cases hnew : [baseClass].find? fun b => decide (b.slug = slug) && !b.deleted with
        | none => rfl
        | some b =>
          obtain rfl := List.mem_singleton.mp (List.mem_of_find?_eq_some hnew)
          exact hnone
  · cases h

/-! Links. -/

theorem sameFor_entityCapabilities {links : List Link}
    (h : refs links e.id = refs c.entityCapabilities e.id) :
    SameFor c { c with entityCapabilities := links } e :=
  ⟨junctionCapabilities_congr h fun _ _ => rfl, rfl, rfl⟩

theorem preset?_slug {presetSlug : Option Str} {b : BaseClass}
    (h : c.preset? presetSlug = some b) : presetSlug = some b.slug := by
  obtain ⟨slug, hslug, hb⟩ := Option.bind_eq_some_iff.mp h
  obtain ⟨rfl, -⟩ := Option.filter_eq_some_iff.mp hslug
  have hfound := List.find?_some hb
  simp only [Bool.and_eq_true, decide_eq_true_eq] at hfound
  rw [hfound.1]

theorem preset?_mem {presetSlug : Option Str} {b : BaseClass}
    (h : c.preset? presetSlug = some b) : b ∈ c.baseClasses.rows ∧ b.deleted = false := by
  obtain ⟨slug, -, hb⟩ := Option.bind_eq_some_iff.mp h
  have hfound := List.find?_some hb
  simp only [Bool.and_eq_true, Bool.not_eq_true'] at hfound
  exact ⟨List.mem_of_find?_eq_some hb, hfound.2⟩

/-- The entities of another base class do not see the links of this one. -/
theorem preset?_ne {id : Id} {baseClass b : BaseClass} (hclass : c.activeClass? id = some baseClass)
    (hother : ofBaseClass baseClass.slug e = false) (hb : c.preset? e.presetSlug = some b) :
    b.id ≠ id := by
  rintro rfl
  obtain ⟨hfind, -⟩ := Option.filter_eq_some_iff.mp hclass
  rw [c.baseClasses.find?_of_mem (preset?_mem hb).1] at hfind
  obtain rfl := Option.some.inj hfind
  rw [ofBaseClass, preset?_slug hb] at hother
  simp at hother

theorem sameFor_upsertAll {scope : Scope} {caps : List (CapDict × Id)} {entries : List Id}
    (h : upsertAll c scope caps = some (c', entries)) (e : Entity) : SameFor c c' e := by
  induction caps generalizing c entries with
  | nil =>
    cases h
    exact .refl _ e
  | cons cap caps ih =>
    rw [upsertAll] at h
    split at h
    · exact ih h
    · split at h
      · cases h
      · rename_i c₁ entryId hupsert
        obtain ⟨⟨c₂, rest⟩, hrest, heq⟩ := Option.map_eq_some_iff.mp h
        cases heq
        refine SameFor.trans ?_ (ih hrest)
        rw [upsertCapability] at hupsert
        split at hupsert
        · cases hupsert
          exact .refl _ e
        · obtain ⟨c₂, hinsert, heq⟩ := Option.map_eq_some_iff.mp hupsert
          cases heq
          exact sameFor_insertEntry hinsert e

end Catalog

theorem refs_attachAll_of_ne {links : List Link} {parent other : Id} (h : other ≠ parent)
    (entries : List Id) : refs (attachAll links parent entries) other = refs links other := by
  rw [attachAll]
  induction entries generalizing links with
  | nil => rfl
  | cons entry entries ih => rw [List.foldl_cons, ih, refs_attach_of_ne links h]

end Eyot.Market
