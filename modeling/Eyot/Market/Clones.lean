import Eyot.Market.Freshness
import Eyot.Market.Profiles
import Eyot.Market.RowOrder

/-! Whether a copy is what it is a copy of. -/

namespace Eyot.Market

variable {s s' : Store}

theorem refs_newLinks (target : Id) (ids : List Id) :
    refs (ids.map fun ref => ⟨target, ref, false⟩) target = ids := by
  induction ids with
  | nil => rfl
  | cons ref ids ih =>
    rw [List.map_cons, refs, List.filter_cons_of_pos (by simp), List.map_cons]
    exact congrArg (ref :: ·) ih

theorem refs_cloneJunction_self {links : List Link} {target : Id}
    (hnew : ∀ l ∈ links, l.parentId ≠ target) (source : Id) :
    refs (cloneJunction links source target) target = refs links source := by
  rw [cloneJunction, refs_append, refs_eq_nil hnew, List.nil_append, refs_newLinks]

theorem refs_cloneJunction_of_ne (links : List Link) (source : Id) {target other : Id}
    (h : other ≠ target) : refs (cloneJunction links source target) other = refs links other := by
  rw [cloneJunction, refs_append]
  have hnil : refs ((refs links source).map fun ref => (⟨target, ref, false⟩ : Link)) other = [] := by
    apply refs_eq_nil
    intro l hl
    obtain ⟨ref, _, rfl⟩ := List.mem_map.mp hl
    exact h.symm
  rw [hnil, List.append_nil]

/-- The catalog with links of a copy, as many and to the same as the source has. -/
def Catalog.withEntity (c : Catalog) (source copy : Id) : Catalog :=
  { c with
    entityAiGenes := cloneJunction c.entityAiGenes source copy
    entityCapabilities := cloneJunction c.entityCapabilities source copy }

def Catalog.withClass (c : Catalog) (source copy : Id) : Catalog :=
  { c with
    baseClassAiGenes := cloneJunction c.baseClassAiGenes source copy
    baseClassCapabilities := cloneJunction c.baseClassCapabilities source copy }

theorem copyEntity_eq_some {source : Id} {copy : EntityRow}
    (h : s.copyEntity source copy = some s') :
    s.catalog.Unused copy.id ∧ s'.catalog = s.catalog.withEntity source copy.id ∧
      s'.baseClasses = s.baseClasses := by
  rw [Store.copyEntity] at h
  split at h
  · rename_i hunused
    obtain ⟨entities, _, rfl⟩ := Option.map_eq_some_iff.mp h
    exact ⟨hunused, rfl, rfl⟩
  · cases h

/-- A copy of a base class is a new row of the catalog, with links. -/
theorem copyClass_eq_some {source : Id} {copy : ClassRow} (h : s.copyClass source copy = some s') :
    s.catalog.Unused copy.id ∧ ∃ c, s.catalog.insertClass copy.toBaseClass = some c ∧
      s'.catalog = c.withClass source copy.id := by
  rw [Store.copyClass] at h
  split at h
  · cases h
  · split at h
    · rename_i hunused
      obtain ⟨baseClasses, hinsert, rfl⟩ := Option.map_eq_some_iff.mp h
      refine ⟨hunused, { s.catalog with
        baseClasses := baseClasses.map ClassRow.toBaseClass ClassRow.key_eq }, ?_, rfl⟩
      rw [Catalog.insertClass, if_pos hunused, Option.map_eq_some_iff]
      exact ⟨_, Table.map_insert? ClassRow.key_eq hinsert, rfl⟩
    · cases h

namespace Catalog

variable {c : Catalog} {source copy : Id}

theorem mem_links_baseClassCapabilities : ∀ l ∈ c.baseClassCapabilities, l ∈ c.links :=
  fun _ hl => by simp [links, hl]

theorem junctionCapabilities_withEntity (source : Id) (hnew : ∀ l ∈ c.links, l.parentId ≠ copy) :
    (c.withEntity source copy).junctionCapabilities copy = c.junctionCapabilities source := by
  have hrefs : refs (c.withEntity source copy).entityCapabilities copy =
      refs c.entityCapabilities source :=
    refs_cloneJunction_self (fun l hl => hnew l (mem_links_entityCapabilities l hl)) source
  rw [junctionCapabilities, junctionCapabilities, hrefs]
  rfl

theorem explicitGenes_withEntity (source : Id) (hnew : ∀ l ∈ c.links, l.parentId ≠ copy) :
    (c.withEntity source copy).explicitGenes copy = c.explicitGenes source := by
  have hrefs : refs (c.withEntity source copy).entityAiGenes copy =
      refs c.entityAiGenes source :=
    refs_cloneJunction_self (fun l hl => hnew l (mem_links_entityAiGenes l hl)) source
  rw [explicitGenes, explicitGenes, hrefs]
  rfl

theorem inheritedGenes_withEntity (c : Catalog) (source copy : Id) (presetSlug : Option Str) :
    (c.withEntity source copy).inheritedGenes presetSlug = c.inheritedGenes presetSlug := rfl

theorem loadBaseClassCapabilityDicts_withClass (hnew : ∀ l ∈ c.links, l.parentId ≠ copy) :
    (c.withClass source copy).loadBaseClassCapabilityDicts copy =
      c.loadBaseClassCapabilityDicts source := by
  have hrefs : refs (c.withClass source copy).baseClassCapabilities copy =
      refs c.baseClassCapabilities source :=
    refs_cloneJunction_self (fun l hl => hnew l (mem_links_baseClassCapabilities l hl)) source
  rw [loadBaseClassCapabilityDicts, loadBaseClassCapabilityDicts, hrefs]
  rfl

theorem genesOfClass_withClass (hnew : ∀ l ∈ c.links, l.parentId ≠ copy) :
    (c.withClass source copy).genesOfClass copy = c.genesOfClass source := by
  have hrefs : refs (c.withClass source copy).baseClassAiGenes copy =
      refs c.baseClassAiGenes source :=
    refs_cloneJunction_self (fun l hl => hnew l (mem_links_baseClassAiGenes l hl)) source
  rw [genesOfClass, genesOfClass, hrefs]
  rfl

end Catalog

theorem activeClass?_mem {id : Id} {b : ClassRow} (h : s.activeClass? id = some b) :
    b ∈ s.baseClasses.rows ∧ b.id = id ∧ b.deleted = false := by
  obtain ⟨hfind, hactive⟩ := Option.filter_eq_some_iff.mp h
  obtain ⟨hrow, hid⟩ := Table.find?_eq_some.mp hfind
  exact ⟨hrow, hid, by simpa using hactive⟩

/-! Clones. -/

/-- What a base class passes on. -/
@[ext] structure ClassConfig where
  capabilities : List CapDict
  genes : List AiGene
  manifest : Option JsonObject
  knowledge : Set Str

def Store.classConfig (s : Store) (b : ClassRow) : ClassConfig where
  capabilities := s.catalog.loadBaseClassCapabilityDicts b.id
  genes := s.catalog.genesOfClass b.id
  manifest := b.manifest
  knowledge := {slug | slug ∈ b.hasKnowledge.getD []}

inductive CloneRequest where
  | entity (source newId : Id) (newName newSlug : Str)
  | baseClass (source newId : Id) (newName newSlug : Str) (targetOrgId : Option Id)

/-- A row and its copy. -/
inductive Cloned where
  | entity (e copy : EntityRow)
  | baseClass (b copy : ClassRow)

def Store.clone (s : Store) : CloneRequest → Option (Store × Cloned)
  | .entity source newId newName newSlug =>
    (s.activeEntity? source).bind fun e =>
      (s.cloneEntity source newId newName newSlug).map fun r => (r.1, .entity e r.2)
  | .baseClass source newId newName newSlug targetOrgId =>
    (s.activeClass? source).bind fun b =>
      (s.cloneBaseClass source newId newName newSlug targetOrgId).map fun r => (r.1, .baseClass b r.2)

section

variable {ν : Type} [LinearOrder ν] (sha : Str → Str) (number : Str → ν) (s s' : Store)

/-- A copy is configured as its source would be under the name of the copy, and its stored hash is
the one of its configuration. -/
def Cloned.Equivalent : Cloned → Prop
  | .entity e copy =>
    s'.effective number copy = s.effective number { e with name := copy.name, slug := copy.slug } ∧
      copy.systemPrompt = e.systemPrompt ∧ copy.configOverride = e.configOverride ∧
        copy.migrationHash = some (s'.catalog.computeEntityMigrationHash sha copy.toEntity)
  | .baseClass b copy => s'.classConfig copy = s.classConfig b

/-- All but the knowledge and the hash. -/
def Cloned.Alike : Cloned → Prop
  | .entity e copy =>
    let source := s.effective number { e with name := copy.name, slug := copy.slug }
    let target := s'.effective number copy
    target.capabilities = source.capabilities ∧ target.genes = source.genes ∧
      target.config = source.config ∧ copy.systemPrompt = e.systemPrompt ∧
        copy.configOverride = e.configOverride
  | .baseClass b copy =>
    let source := s.classConfig b
    let target := s'.classConfig copy
    target.capabilities = source.capabilities ∧ target.genes = source.genes ∧
      target.manifest = source.manifest

end

/-- No copy of an entity has a hash, and no copy of a base class its knowledge. -/
def Cloned.Bare : Cloned → Prop
  | .entity _ _ => False
  | .baseClass b _ => b.hasKnowledge.getD [] = []

section

variable {ν : Type} [LinearOrder ν] {sha : Str → Str} {number : Str → ν}

theorem alike_copyEntity {source : Id} {e copy : EntityRow}
    (h : s.copyEntity source copy = some s') (hid : e.id = source)
    (hpreset : copy.presetSlug = e.presetSlug) (hprompt : copy.systemPrompt = e.systemPrompt)
    (hoverride : copy.configOverride = e.configOverride)
    (hshown : copy.displayName = e.displayName) :
    (Cloned.entity e copy).Alike number s s' := by
  obtain ⟨hunused, hcatalog, hclasses⟩ := copyEntity_eq_some h
  subst hid
  have hnew := fun l hl => (hunused.2 l hl).1
  have hjunction := Catalog.junctionCapabilities_withEntity e.id hnew
  have hexplicit := Catalog.explicitGenes_withEntity e.id hnew
  have hinherited := Catalog.inheritedGenes_withEntity s.catalog e.id copy.id e.presetSlug
  rw [← hcatalog] at hjunction hexplicit hinherited
  have hcapabilities : s'.catalog.loadEntityCapabilityDicts copy.toEntity =
      s.catalog.loadEntityCapabilityDicts
        { e.toEntity with name := copy.name, slug := copy.slug } := by
    rw [Catalog.loadEntityCapabilityDicts, Catalog.loadEntityCapabilityDicts, hjunction, hexplicit,
      hpreset, hinherited]
  have hrefs : s'.catalog.loadEntityGeneRefs copy.id = s.catalog.loadEntityGeneRefs e.id := by
    rw [Catalog.loadEntityGeneRefs, Catalog.loadEntityGeneRefs, hexplicit]
  refine ⟨hcapabilities, ?_, ?_, hprompt, hoverride⟩
  · change s'.catalog.loadEntityAiGeneDicts copy.toEntity = s.catalog.loadEntityAiGeneDicts
      { e.toEntity with name := copy.name, slug := copy.slug }
    rw [Catalog.loadEntityAiGeneDicts, Catalog.loadEntityAiGeneDicts, hrefs, hpreset, hinherited]
  · change s'.resolveInstanceAgentConfig number copy = s.resolveInstanceAgentConfig number
      { e with name := copy.name, slug := copy.slug }
    simp only [Store.resolveInstanceAgentConfig, hcapabilities, hrefs, hclasses, hpreset,
      resolveEntityConfig, hprompt, hoverride, hshown]

theorem clonedClass_columns (b : ClassRow) (newId : Id) (newName newSlug : Str)
    (targetOrgId : Option Id) :
    (Store.clonedClass b newId newName newSlug targetOrgId).id = newId ∧
      (Store.clonedClass b newId newName newSlug targetOrgId).manifest = b.manifest ∧
        (Store.clonedClass b newId newName newSlug targetOrgId).hasKnowledge = none := by
  unfold Store.clonedClass
  split
  · exact ⟨rfl, rfl, rfl⟩
  · exact ⟨rfl, rfl, rfl⟩

theorem alike_copyClass {source : Id} {b copy : ClassRow} (h : s.copyClass source copy = some s')
    (hid : b.id = source) (hmanifest : copy.manifest = b.manifest) :
    (Cloned.baseClass b copy).Alike number s s' := by
  obtain ⟨hunused, c, hinsert, hcatalog⟩ := copyClass_eq_some h
  subst hid
  rw [Catalog.insertClass, if_pos hunused] at hinsert
  obtain ⟨baseClasses, _, rfl⟩ := Option.map_eq_some_iff.mp hinsert
  have hnew := fun l hl => (hunused.2 l hl).1
  refine ⟨?_, ?_, hmanifest⟩
  · change s'.catalog.loadBaseClassCapabilityDicts copy.id = _
    rw [hcatalog]
    exact Catalog.loadBaseClassCapabilityDicts_withClass hnew
  · change s'.catalog.genesOfClass copy.id = _
    rw [hcatalog]
    exact Catalog.genesOfClass_withClass hnew

/-- A copy is equivalent exactly if it is of a base class without knowledge; but all the rest of it
always is. -/
theorem clone_equivalent_iff {r : CloneRequest} {x : Cloned} (h : s.clone r = some (s', x)) :
    x.Alike number s s' ∧ (x.Equivalent sha number s s' ↔ x.Bare) := by
  cases r with
  | entity source newId newName newSlug =>
    obtain ⟨e, he, hcloned⟩ := Option.bind_eq_some_iff.mp h
    obtain ⟨⟨s₁, copy⟩, hclone, heq⟩ := Option.map_eq_some_iff.mp hcloned
    cases heq
    rw [Store.cloneEntity, he] at hclone
    obtain ⟨_, hcopied⟩ := ite_eq_some hclone
    obtain ⟨s₂, hcopy, heq⟩ := Option.map_eq_some_iff.mp hcopied
    cases heq
    have hid := (Table.find?_eq_some.mp (Option.filter_eq_some_iff.mp he).1).2
    refine ⟨alike_copyEntity hcopy hid rfl rfl rfl rfl, iff_of_false ?_ id⟩
    rintro ⟨_, _, _, hhash⟩
    cases hhash
  | baseClass source newId newName newSlug targetOrgId =>
    obtain ⟨b, hb, hcloned⟩ := Option.bind_eq_some_iff.mp h
    obtain ⟨⟨s₁, copy⟩, hclone, heq⟩ := Option.map_eq_some_iff.mp hcloned
    cases heq
    rw [Store.cloneBaseClass, hb] at hclone
    obtain ⟨s₂, hcopy, heq⟩ := Option.map_eq_some_iff.mp hclone
    cases heq
    obtain ⟨_, hmanifest, hknowledge⟩ := clonedClass_columns b newId newName newSlug targetOrgId
    have halike : (Cloned.baseClass b _).Alike number s s₁ :=
      alike_copyClass hcopy (activeClass?_mem hb).2.1 hmanifest
    refine ⟨halike, ?_⟩
    obtain ⟨hcapabilities, hgenes, hsame⟩ := halike
    rw [Cloned.Equivalent, ClassConfig.ext_iff, and_iff_right hcapabilities, and_iff_right hgenes,
      and_iff_right hsame]
    simp only [Store.classConfig, hknowledge, Cloned.Bare]
    constructor
    · intro heq
      rw [List.eq_nil_iff_forall_not_mem]
      exact fun slug hslug => List.not_mem_nil (heq.ge hslug)
    · intro hnil
      rw [hnil]
      rfl

end

def Store.empty : Store :=
  ⟨.empty, .empty, .empty, .empty, .empty, .empty, [], [], [], []⟩

def fox : EntityRow :=
  ⟨⟨"fox", "default", "Fox".toList, "fox".toList, none, none, false, none, false⟩, none, none,
    some ["tides".toList]⟩

def foxClone : EntityRow := Store.clonedEntity fox "copy" "Copy".toList "copy".toList

theorem foxes_keys_nodup : ([fox, foxClone].map EntityRow.key).Nodup := by decide

theorem clone_fox : ({ Store.empty with entities := .single fox } : Store).clone
    (.entity "fox" "copy" "Copy".toList "copy".toList) =
      some ({ Store.empty with entities := ⟨[fox, foxClone], foxes_keys_nodup⟩ },
        .entity fox foxClone) := rfl

theorem clone_equivalent_fox :
    (Cloned.entity fox foxClone).Alike Manifest.decimal
      { Store.empty with entities := .single fox }
      { Store.empty with entities := ⟨[fox, foxClone], foxes_keys_nodup⟩ } ∧
        ((Cloned.entity fox foxClone).Equivalent (tableSha stockedDigests) Manifest.decimal
          { Store.empty with entities := .single fox }
          { Store.empty with entities := ⟨[fox, foxClone], foxes_keys_nodup⟩ } ↔
            (Cloned.entity fox foxClone).Bare) :=
  clone_equivalent_iff clone_fox

/-- The copy has neither the knowledge of its source nor a hash. -/
theorem not_clone_equivalent_fox : ¬∀ (s s' : Store) (r : CloneRequest) (x : Cloned),
    s.clone r = some (s', x) →
      x.Equivalent (tableSha stockedDigests) Manifest.decimal s s' := by
  intro h
  obtain ⟨heffective, _⟩ := h _ _ _ _ clone_fox
  have hknows : "tides".toList ∈ (({ Store.empty with entities := .single fox } : Store).effective
      Manifest.decimal { fox with name := foxClone.name, slug := foxClone.slug }).knowledge :=
    List.mem_singleton.mpr rfl
  rw [← heffective] at hknows
  exact List.not_mem_nil hknows

end Eyot.Market
