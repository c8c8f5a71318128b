import Eyot.Market.SelfContained
import Eyot.Tenancy.Providers

/-! The registry of the presets that a process keeps, and the slugs it finds them under. -/

namespace Eyot.Presets

open Market

/-- `_cache` -/
abbrev PresetRegistry := List (Str × ClassRow)

namespace PresetRegistry

/-- A later row of the same slug takes the place of an earlier one. -/
def load (classes : List ClassRow) : PresetRegistry :=
  (classes.filter fun b => !b.deleted).foldl (fun cache b => setItem cache b.slug b) []

variable (cache : PresetRegistry)

def cached (slug : Str) : Option ClassRow := (cache.find? fun kv => kv.1 = slug).map Prod.snd

def get (slug : Str) : Option ClassRow :=
  match cache.cached slug with
  | some hit => some hit
  | none =>
    match legacyAlias? slug with
    | some animal => cache.cached animal
    | none => (legacyNames slug).findSome? cache.cached

/-- `none` where the value cannot be made a list. -/
def getList (key : String) (slug : Str) : Option (List (Json Str)) :=
  match (cache.cached slug).bind (·.manifest) with
  | some manifest => pyList ((member? manifest.members key).getD (.arr []))
  | none => some []

def getTools : Str → Option (List (Json Str)) := cache.getList "tools"

def getSkills : Str → Option (List (Json Str)) := cache.getList "skills"

def getCommands : Str → Option (List (Json Str)) := cache.getList "commands"

end PresetRegistry

/-! What is cached. -/

theorem foldl_setItem {α : Type} (key : α → Str) {d : List (Str × α)} {l : List α}
    (hl : (l.map key).Nodup) (hd : ∀ a ∈ l, ∀ kv ∈ d, kv.1 ≠ key a) :
    l.foldl (fun d a => setItem d (key a) a) d = d ++ l.map fun a => (key a, a) := by
  induction l generalizing d with
  | nil => exact (List.append_nil d).symm
  | cons a l ih =>
    rw [List.map_cons, List.nodup_cons] at hl
    have hset : setItem d (key a) a = d ++ [(key a, a)] := by
      rw [setItem, if_neg]
      rw [Bool.not_eq_true, List.any_eq_false]
      intro kv hkv
      rw [decide_eq_true_eq]
      exact hd a List.mem_cons_self kv hkv
    rw [List.foldl_cons, hset, ih hl.2, List.append_assoc]
    · rfl
    · intro a' ha' kv hkv
      obtain hold | hnew := List.mem_append.mp hkv
      · exact hd a' (List.mem_cons_of_mem a ha') kv hold
      · rw [List.mem_singleton.mp hnew]
        intro heq
        apply hl.1
        rw [show key a = key a' from heq]
        exact List.mem_map_of_mem ha'

theorem activeSlugs_nodup {s : Store} (hs : s.ClassSlugs) :
    ((s.baseClasses.rows.filter fun b => !b.deleted).map fun b => b.slug).Nodup := by
  apply List.Nodup.map_on
  · intro b hb b' hb' hslug
    obtain ⟨hb, hactive⟩ := List.mem_filter.mp hb
    obtain ⟨hb', hactive'⟩ := List.mem_filter.mp hb'
    rw [Bool.not_eq_true'] at hactive hactive'
    exact hs b hb b' hb' hactive hactive' hslug
  · exact s.baseClasses.keys_nodup.of_map.filter _

/-- The cache has the active class of each slug. -/
theorem cached_load {s : Store} (hs : s.ClassSlugs) (slug : Str) :
    (PresetRegistry.load s.baseClasses.rows).cached slug =
      classWithSlug? s.baseClasses.rows slug := by
  rw [PresetRegistry.load, foldl_setItem _ (activeSlugs_nodup hs)
    (fun _ _ _ hkv => absurd hkv List.not_mem_nil), List.nil_append, PresetRegistry.cached, List.find?_map, Option.map_map, classWithSlug?,
    List.find?_filter]
  simp [Function.comp_def, Bool.and_comm]

/-! The names of a slug. -/

theorem mem_foldl_addNew {out items : List Str} {x : Str} :
    x ∈ items.foldl addNew out ↔ x ∈ out ∨ x ∈ items := by
  induction items generalizing out with
  | nil => simp
  | cons item items ih =>
    rw [List.foldl_cons, ih, addNew, List.mem_cons]
    split
    · rename_i hitem
      rw [List.contains_iff_mem] at hitem
      constructor
      · exact fun h => h.imp_right .inr
      · rintro (h | rfl | h)
        · exact .inl h
        · exact .inl hitem
        · exact .inr h
    · rw [List.mem_append, List.mem_singleton, or_assoc]

theorem nodup_foldl_addNew {out items : List Str} (h : out.Nodup) :
    (items.foldl addNew out).Nodup := by
  induction items generalizing out with
  | nil => exact h
  | cons item items ih =>
    apply ih
    rw [addNew]
    split
    · exact h
    · rename_i hitem
      rw [List.contains_iff_mem] at hitem
      rw [List.nodup_append]
      refine ⟨h, List.nodup_singleton _, ?_⟩
      intro a ha b hb heq
      rw [List.mem_singleton] at hb
      exact hitem (hb ▸ heq ▸ ha)

theorem findSome?_foldl_addNew {β : Type} (f : Str → Option β) (out items : List Str) :
    (items.foldl addNew out).findSome? f = (out ++ items).findSome? f := by
  induction items generalizing out with
  | nil => rw [List.append_nil, List.foldl_nil]
  | cons item items ih =>
    rw [List.foldl_cons, ih, addNew]
    split
    · rename_i hitem
      rw [List.contains_iff_mem] at hitem
      rw [List.findSome?_append, List.findSome?_append, List.findSome?_cons]
      cases hf : f item with
      | none => rfl
      | some b =>
        cases hout : out.findSome? f with
        | some b' => rfl
        | none =>
          rw [List.findSome?_eq_none_iff] at hout
          rw [hout item hitem] at hf
          cases hf
    · rw [List.append_assoc, List.singleton_append]

theorem candidateSlugs_nodup (slug : Str) : (candidateSlugs slug).Nodup :=
  nodup_foldl_addNew List.nodup_nil

theorem legacyPresetAliases_keys : (LEGACY_PRESET_ALIASES.map Prod.fst).Nodup := by decide

theorem mem_legacyAlias? {slug animal : Str} :
    legacyAlias? slug = some animal ↔ (slug, animal) ∈ LEGACY_PRESET_ALIASES := by
  have hfilter := Table.filter_key_of_nodup legacyPresetAliases_keys slug
  rw [legacyAlias?, Option.map_eq_some_iff]
  constructor
  · rintro ⟨⟨legacy, _⟩, hfind, rfl⟩
    have hkey := List.find?_some hfind
    rw [decide_eq_true_eq] at hkey
    obtain rfl : legacy = slug := hkey
    exact List.mem_of_find?_eq_some hfind
  · intro hmem
    have hin : (slug, animal) ∈ LEGACY_PRESET_ALIASES.filter fun kv => kv.1 = slug :=
      List.mem_filter.mpr ⟨hmem, decide_eq_true rfl⟩
    rw [hfilter, Option.mem_toList] at hin
    exact ⟨_, hin, rfl⟩

theorem mem_legacyNames {slug legacy : Str} :
    legacy ∈ legacyNames slug ↔ (legacy, slug) ∈ LEGACY_PRESET_ALIASES := by
  rw [legacyNames, List.mem_map]
  constructor
  · rintro ⟨⟨_, animal⟩, hkv, rfl⟩
    obtain ⟨hmem, heq⟩ := List.mem_filter.mp hkv
    obtain rfl : animal = slug := of_decide_eq_true heq
    exact hmem
  · intro hmem
    exact ⟨_, List.mem_filter.mpr ⟨hmem, decide_eq_true rfl⟩, rfl⟩

theorem mem_candidateSlugs {slug name : Str} :
    name ∈ candidateSlugs slug ↔ name = slug ∨ (slug, name) ∈ LEGACY_PRESET_ALIASES ∨
      (name, slug) ∈ LEGACY_PRESET_ALIASES := by
  rw [candidateSlugs, mem_foldl_addNew, List.mem_append, List.mem_cons, Option.mem_toList,
    mem_legacyAlias?, mem_legacyNames, or_assoc]
  simp

/-- No slug is both a legacy one and an animal, and the names pair up. -/
theorem legacyPresetAliases_paired : ∀ p ∈ LEGACY_PRESET_ALIASES, ∀ q ∈ LEGACY_PRESET_ALIASES,
    p.2 ≠ q.1 ∧ (p.1 = q.1 ↔ p.2 = q.2) := by
  decide

theorem mem_candidateSlugs_trans {slug name name' : Str} (h : name ∈ candidateSlugs slug)
    (h' : name' ∈ candidateSlugs name) : name' ∈ candidateSlugs slug := by
  rw [mem_candidateSlugs] at h h' ⊢
  obtain rfl | h | h := h
  · exact h'
  · obtain rfl | h' | h' := h'
    · exact .inr (.inl h)
    · exact absurd rfl (legacyPresetAliases_paired _ h _ h').1
    · exact .inl ((legacyPresetAliases_paired _ h' _ h).2.mpr rfl)
  · obtain rfl | h' | h' := h'
    · exact .inr (.inr h)
    · exact .inl ((legacyPresetAliases_paired _ h' _ h).2.mp rfl)
    · exact absurd rfl (legacyPresetAliases_paired _ h' _ h).1

theorem candidateClass?_eq (bs : List ClassRow) (slug : Str) :
    candidateClass? bs slug = (slug :: (legacyAlias? slug).toList ++ legacyNames slug).findSome?
      (classWithSlug? bs) := by
  rw [candidateClass?, candidateSlugs, findSome?_foldl_addNew, List.nil_append]

/-- The registry takes the same names in the same order. -/
theorem get_load {s : Store} (hs : s.ClassSlugs) (slug : Str) :
    (PresetRegistry.load s.baseClasses.rows).get slug =
      candidateClass? s.baseClasses.rows slug := by
  have hcached : (PresetRegistry.load s.baseClasses.rows).cached =
      classWithSlug? s.baseClasses.rows := funext (cached_load hs)
  rw [PresetRegistry.get, candidateClass?_eq, hcached]
  cases hexact : classWithSlug? s.baseClasses.rows slug with
  | some b => simp [hexact]
  | none =>
    cases halias : legacyAlias? slug with
    | none => simp [hexact]
    | some animal =>
      have hnames : legacyNames slug = [] := by
        rw [List.eq_nil_iff_forall_not_mem]
        intro legacy hlegacy
        exact absurd rfl (legacyPresetAliases_paired _ (mem_legacyNames.mp hlegacy) _
          (mem_legacyAlias?.mp halias)).1
      simp [hexact, hnames]

/-! The providers look for a base class in the same way. -/

theorem filterMap_ite {α β : Type} (p : α → Prop) [DecidablePred p] (f : α → β) (l : List α) :
    (l.filterMap fun a => if p a then some (f a) else none) =
      (l.filter fun a => decide (p a)).map f := by
  induction l with
  | nil => rfl
  | cons a l ih =>
    by_cases ha : p a
    · simp [ha, ih]
    · simp [ha, ih]

theorem candidateSlugs_providers (slug : Str) :
    Tenancy.candidateSlugs slug = slug :: (legacyAlias? slug).toList ++ legacyNames slug := by
  have halias := filterMap_ite (fun kv : Str × Str => kv.1 = slug) Prod.snd LEGACY_PRESET_ALIASES
  have hnames := filterMap_ite (fun kv : Str × Str => kv.2 = slug) Prod.fst LEGACY_PRESET_ALIASES
  rw [Table.filter_key_of_nodup legacyPresetAliases_keys, ← Option.toList_map] at halias
  exact congrArg₂ (fun l l' => slug :: l ++ l') halias hnames

/-- The columns of an entity that the providers are resolved by. -/
def tenant (e : EntityRow) : Tenancy.Entity :=
  ⟨e.id, e.namespaceId, e.slug, e.presetSlug, e.deleted⟩

theorem classOf?_eq {w : Tenancy.World} {s : Store}
    (hclasses : w.baseClasses.rows = s.baseClasses.rows.map ClassRow.toBaseClass) (e : EntityRow) :
    w.classOf? (tenant e) = ((truthy e.presetSlug).bind
      (candidateClass? s.baseClasses.rows)).map ClassRow.toBaseClass := by
  have hexact : ∀ slug, (w.baseClasses.rows.find? fun b => decide (b.slug = slug) && !b.deleted) =
      (classWithSlug? s.baseClasses.rows slug).map ClassRow.toBaseClass := by
    intro slug
    rw [hclasses, List.find?_map]
    rfl
  rw [Tenancy.World.classOf?, tenant]
  cases htruthy : truthy e.presetSlug with
  | none => rfl
  | some slug =>
    rw [Option.bind_some, Option.bind_some, candidateSlugs_providers, candidateClass?_eq,
      List.map_findSome?]
    exact congrArg (List.findSome? · _) (funext hexact)

end Eyot.Presets
