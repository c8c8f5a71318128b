import Eyot.Market.Freshness

/-! What a promotion and a transmutation make of the capabilities of an entity. -/

namespace Eyot.Market

variable {c c' : Catalog} {n : Str}

namespace Catalog

def capabilityNames (c : Catalog) (e : Entity) : List Str :=
  (c.loadEntityCapabilityDicts e).map CapDict.name

def geneCapabilities (c : Catalog) (e : Entity) : List CapDict :=
  expandGenes (c.explicitGenes e.id) (c.inheritedGenes e.presetSlug)

theorem mem_foldl_mergeByName (caps merged : List CapDict) :
    n ∈ (caps.foldl mergeByName merged).map CapDict.name ↔
      n ∈ merged.map CapDict.name ∨ n ∈ caps.map CapDict.name := by
  induction caps generalizing merged with
  | nil => simp
  | cons cap caps ih =>
    have hstep : n ∈ (mergeByName merged cap).map CapDict.name ↔
        n ∈ merged.map CapDict.name ∨ n = cap.name := by
      rw [mergeByName]
      split
      · next hany =>
        obtain ⟨m, hm, hname⟩ := List.any_eq_true.mp hany
        refine ⟨.inl, ?_⟩
        rintro (hn | rfl)
        · exact hn
        · exact List.mem_map.mpr ⟨m, hm, of_decide_eq_true hname⟩
      · rw [List.map_append, List.mem_append, List.map_singleton, List.mem_singleton]
    rw [List.foldl_cons, ih, hstep, List.map_cons, List.mem_cons, or_assoc]

theorem mem_capabilityNames (c : Catalog) (e : Entity) :
    n ∈ c.capabilityNames e ↔ n ∈ (c.junctionCapabilities e.id).map CapDict.name ∨
      n ∈ (c.geneCapabilities e).map CapDict.name := by
  rw [capabilityNames, loadEntityCapabilityDicts,
    ((sortBy_perm CapDict.name _).map CapDict.name).mem_iff, mem_foldl_mergeByName,
    geneCapabilities]

/-- An active entry of the name, by its id. -/
def Holds (c : Catalog) (id : Id) (n : Str) : Prop :=
  ∃ entry, c.activeCapability? id = some entry ∧ entry.name = n

theorem mem_junctionNames (c : Catalog) (id : Id) :
    n ∈ (c.junctionCapabilities id).map CapDict.name ↔
      ∃ ref ∈ refs c.entityCapabilities id, c.Holds ref n := by
  have hname : CapDict.name ∘ capabilityToDict = CapabilityMarketEntry.name := rfl
  rw [junctionCapabilities, List.map_map, hname,
    ((sortBy_perm CapabilityMarketEntry.name _).map CapabilityMarketEntry.name).mem_iff,
    List.mem_map]
  constructor
  · rintro ⟨entry, hentry, rfl⟩
    obtain ⟨ref, href, hactive⟩ := List.mem_filterMap.mp hentry
    exact ⟨ref, href, entry, hactive, rfl⟩
  · rintro ⟨ref, href, entry, hactive, rfl⟩
    exact ⟨entry, List.mem_filterMap.mpr ⟨ref, href, hactive⟩, rfl⟩

theorem holds_of_entryWithName? {entry : CapabilityMarketEntry}
    (h : c.entryWithName? n = some entry) : c.Holds entry.id n := by
  have htest := List.find?_some h
  rw [Bool.and_eq_true, decide_eq_true_eq] at htest
  refine ⟨entry, ?_, htest.1⟩
  rw [activeCapability?, c.market.find?_of_mem (List.mem_of_find?_eq_some h)]
  exact Option.filter_eq_some_iff.mpr ⟨rfl, htest.2⟩

/-- Entries were added at most. -/
structure Adds (c c' : Catalog) : Prop where
  rest : c' = { c with market := c'.market }
  active : ∀ {id entry}, c.activeCapability? id = some entry → c'.activeCapability? id = some entry

theorem Adds.refl (c : Catalog) : Adds c c := ⟨rfl, id⟩

theorem Adds.trans {c'' : Catalog} (h : Adds c c') (h' : Adds c' c'') : Adds c c'' where
  rest := by
    rw [h'.rest, h.rest]
  active hid := h'.active (h.active hid)

theorem Adds.holds (h : Adds c c') {id : Id} (hn : c.Holds id n) : c'.Holds id n := by
  obtain ⟨entry, hactive, rfl⟩ := hn
  exact ⟨entry, h.active hactive, rfl⟩

theorem adds_insertEntry {entry : CapabilityMarketEntry} (h : c.insertEntry entry = some c')
    (hentry : entry.deleted = false) : Adds c c' ∧ c'.Holds entry.id entry.name := by
  rw [insertEntry] at h
  split at h
  · obtain ⟨market, hinsert, rfl⟩ := Option.map_eq_some_iff.mp h
    refine ⟨⟨rfl, fun {id entry'} hid => ?_⟩, entry, ?_, rfl⟩
    · obtain ⟨hfind, hlive⟩ := Option.filter_eq_some_iff.mp hid
      have hne : entry.id ≠ id := by
        rintro rfl
        exact Table.key_not_mem_of_insert? hinsert
          (List.mem_map.mpr ⟨entry', Table.find?_mem hfind, Table.find?_key hfind⟩)
      rw [activeCapability?, Table.find?_insert? hinsert, if_neg hne]
      exact hid
    · rw [activeCapability?, Table.find?_insert? hinsert, if_pos rfl]
      exact Option.filter_eq_some_iff.mpr ⟨rfl, by rw [hentry]; rfl⟩
  · cases h

theorem upsertCapability_spec {newId id : Id} {cap : CapDict} {scope : Scope}
    (h : upsertCapability c newId cap scope = some (c', id)) :
    Adds c c' ∧ c'.Holds id cap.name := by
  rw [upsertCapability] at h
  split at h
  · next hentry =>
    cases h
    exact ⟨.refl c, holds_of_entryWithName? hentry⟩
  · obtain ⟨c₁, hinsert, heq⟩ := Option.map_eq_some_iff.mp h
    cases heq
    exact adds_insertEntry hinsert rfl

theorem Holds.unique {id : Id} {m : Str} (hn : c.Holds id n) (hm : c.Holds id m) : n = m := by
  obtain ⟨entry, hentry, rfl⟩ := hn
  obtain ⟨entry', hentry', rfl⟩ := hm
  rw [hentry] at hentry'
  rw [Option.some.inj hentry']

/-- The entries that are answered have the names that are asked for. -/
theorem upsertAll_spec {scope : Scope} {caps : List (CapDict × Id)} {ids : List Id}
    (h : upsertAll c scope caps = some (c', ids)) :
    Adds c c' ∧ ∀ n, (∃ id ∈ ids, c'.Holds id n) ↔ n ≠ [] ∧ n ∈ caps.map fun cap => cap.1.name := by
  induction caps generalizing c ids with
  | nil =>
    cases h
    exact ⟨.refl _, by simp⟩
  | cons cap caps ih =>
    rw [upsertAll] at h
    split at h
    · next hempty =>
      obtain ⟨hadds, hnames⟩ := ih h
      refine ⟨hadds, fun n => (hnames n).trans (and_congr_right fun hne => ?_)⟩
      rw [List.map_cons, List.mem_cons, hempty, or_iff_right hne]
    · next hne =>
      split at h
      · cases h
      · next c₁ entryId hupsert =>
        obtain ⟨⟨c₂, rest⟩, hrest, heq⟩ := Option.map_eq_some_iff.mp h
        cases heq
        obtain ⟨hadds, hholds⟩ := upsertCapability_spec hupsert
        obtain ⟨hadds', hnames⟩ := ih hrest
        refine ⟨hadds.trans hadds', fun n => ?_⟩
        have hentry : c₂.Holds entryId cap.1.name := hadds'.holds hholds
        rw [List.map_cons, List.mem_cons, and_or_left, ← hnames n]
        constructor
        · rintro ⟨id, hid, hn⟩
          obtain rfl | hid := List.mem_cons.mp hid
          · obtain rfl := hn.unique hentry
            exact .inl ⟨hne, rfl⟩
          · exact .inr ⟨id, hid, hn⟩
        · rintro (⟨-, rfl⟩ | ⟨id, hid, hn⟩)
          · exact ⟨entryId, List.mem_cons_self, hentry⟩
          · exact ⟨id, List.mem_cons_of_mem _ hid, hn⟩

end Catalog

theorem mem_refs_attach {links : List Link} {parent ref id : Id} :
    ref ∈ refs (attach links parent id) parent ↔ ref ∈ refs links parent ∨ ref = id := by
  rw [attach]
  split
  · next hid =>
    refine ⟨.inl, ?_⟩
    rintro (href | rfl)
    · exact href
    · exact hid
  · rw [refs_append, List.mem_append]
    simp [refs]

theorem mem_refs_attachAll {links : List Link} {parent ref : Id} {ids : List Id} :
    ref ∈ refs (attachAll links parent ids) parent ↔ ref ∈ refs links parent ∨ ref ∈ ids := by
  rw [attachAll]
  induction ids generalizing links with
  | nil => simp
  | cons id ids ih => rw [List.foldl_cons, ih, mem_refs_attach, List.mem_cons, or_assoc]

theorem map_name_withIds (caps : List CapDict) (newIds : Nat → Id) :
    (withIds caps newIds).map (fun cap => cap.1.name) = caps.map CapDict.name := by
  rw [withIds, List.map_map]
  change caps.zipIdx.map (CapDict.name ∘ Prod.fst) = _
  rw [← List.map_map, List.zipIdx_map_fst]

/-- What is made and attached is there beside what was there. -/
theorem mem_names_attachAll {scope : Scope} {caps : List CapDict} {newIds : Nat → Id}
    {ids : List Id} (h : upsertAll c scope (withIds caps newIds) = some (c', ids)) (e : Entity) :
    n ∈ ({ c' with entityCapabilities := attachAll c'.entityCapabilities e.id ids } :
        Catalog).capabilityNames e ↔
      n ∈ c.capabilityNames e ∨ n ≠ [] ∧ n ∈ caps.map CapDict.name := by
  obtain ⟨-, hnames⟩ := Catalog.upsertAll_spec h
  have hsame := Catalog.sameFor_upsertAll h e
  rw [map_name_withIds] at hnames
  have hjunction : n ∈ (Catalog.junctionCapabilities { c' with
      entityCapabilities := attachAll c'.entityCapabilities e.id ids } e.id).map CapDict.name ↔
      n ∈ (c.junctionCapabilities e.id).map CapDict.name ∨ n ≠ [] ∧ n ∈ caps.map CapDict.name := by
    rw [← hsame.junction, ← hnames n, Catalog.mem_junctionNames, Catalog.mem_junctionNames]
    change (∃ ref ∈ refs (attachAll c'.entityCapabilities e.id ids) e.id, c'.Holds ref n) ↔ _
    simp only [mem_refs_attachAll, or_and_right, exists_or]
  have hgenes : Catalog.geneCapabilities
      { c' with entityCapabilities := attachAll c'.entityCapabilities e.id ids } e =
        c.geneCapabilities e := by
    rw [Catalog.geneCapabilities, Catalog.geneCapabilities, ← hsame.explicit, ← hsame.inherited]
    rfl
  rw [Catalog.mem_capabilityNames, Catalog.mem_capabilityNames, hjunction, hgenes, or_right_comm]

/-! What is new to an entity. -/

theorem mem_foldl_newCapabilities (reaped : List CapDict) (seen : List Str)
    (kept : List CapDict) :
    n ∈ (reaped.foldl
      (fun (acc : List Str × List CapDict) cap =>
        if cap.name.isEmpty || acc.1.contains cap.name then acc
        else (acc.1 ++ [cap.name], acc.2 ++ [cap])) (seen, kept)).2.map CapDict.name ↔
      n ∈ kept.map CapDict.name ∨ n ≠ [] ∧ n ∉ seen ∧ n ∈ reaped.map CapDict.name := by
  induction reaped generalizing seen kept with
  | nil => simp
  | cons cap reaped ih =>
    rw [List.foldl_cons, List.map_cons, List.mem_cons]
    split
    · next hskip =>
      rw [Bool.or_eq_true, List.isEmpty_iff, List.contains_iff_mem] at hskip
      rw [ih]
      refine or_congr_right (and_congr_right fun hne => and_congr_right fun hseen => ?_)
      rw [iff_or_self]
      rintro rfl
      exact absurd (hskip.resolve_left hne) hseen
    · next hkeep =>
      rw [Bool.or_eq_true, List.isEmpty_iff, List.contains_iff_mem, not_or] at hkeep
      rw [ih, List.map_append, List.mem_append, List.map_singleton, List.mem_singleton,
        List.mem_append, List.mem_singleton, not_or]
      by_cases hn : n = cap.name
      · subst hn
        simp [hkeep.1, hkeep.2]
      · simp [hn]

theorem mem_newCapabilities {existing reaped : List CapDict} :
    n ∈ (newCapabilities existing reaped).map CapDict.name ↔
      n ≠ [] ∧ n ∉ existing.map CapDict.name ∧ n ∈ reaped.map CapDict.name := by
  rw [newCapabilities, mem_foldl_newCapabilities, List.map_nil, or_iff_right List.not_mem_nil]
  refine and_congr_right fun hne => ?_
  rw [List.mem_filter, decide_eq_true hne, and_iff_left rfl]
  refine and_congr_right fun hexisting => ?_
  split
  · next hempty =>
    rw [List.isEmpty_iff.mp hempty]
    exact iff_of_false hexisting List.not_mem_nil
  · rfl

theorem mem_merged {existing reaped : List CapDict} (hne : n ≠ []) :
    n ∈ (existing ++ newCapabilities existing reaped).map CapDict.name ↔
      n ∈ existing.map CapDict.name ∨ n ∈ reaped.map CapDict.name := by
  rw [List.map_append, List.mem_append, mem_newCapabilities, and_iff_right hne]
  by_cases hexisting : n ∈ existing.map CapDict.name
  · simp [hexisting]
  · simp [hexisting]

/-- The names of an entity after a promotion. -/
theorem mem_names_promotion {scope : Scope} {e : Entity} {reaped : List CapDict}
    {newIds : Nat → Id} {ids : List Id}
    (h : upsertAll c scope
      (withIds (newCapabilities (c.loadEntityCapabilityDicts e) reaped) newIds) = some (c', ids)) :
    n ∈ ({ c' with entityCapabilities := attachAll c'.entityCapabilities e.id ids } :
        Catalog).capabilityNames e ↔
      n ∈ c.capabilityNames e ∨ n ≠ [] ∧ n ∈ reaped.map CapDict.name := by
  rw [mem_names_attachAll h, mem_newCapabilities]
  change _ ∨ n ≠ [] ∧ n ≠ [] ∧ n ∉ c.capabilityNames e ∧ _ ↔ _
  by_cases hn : n ∈ c.capabilityNames e
  · simp [hn]
  · simp [hn]

/-- An entity with a capability, and a gene that inlines another. -/
def tamed : State where
  catalog :=
    { market := .single ⟨"alpha", "alpha".toList, "skill".toList, none, none, .org, false⟩
      genes := .single ⟨"hunter", "hunter".toList, some [⟨"track".toList, none, none⟩], .org, false⟩
      baseClasses := .empty
      entityCapabilities := [⟨"fox", "alpha", false⟩]
      entityAiGenes := [⟨"fox", "hunter", false⟩]
      baseClassCapabilities := []
      baseClassAiGenes := [] }
  entities := .single ⟨"fox", "default", "Fox".toList, "fox".toList, none, none, false, none, false⟩
  namespaces := .empty
  organizations := .empty
  registry := []

def swim : CapDict := ⟨"swim".toList, "skill".toList, none, none⟩

section Update

variable {sha : Str → Str} {s s' : State} {entityId : Id} {reaped : List CapDict}
  {includePromptRegen : Bool} {newIds : Nat → Id}

theorem promoteEntity_eq_some
    (h : promoteEntity sha s entityId reaped includePromptRegen newIds = some s') :
    ∃ e c entries, s.activeEntity? entityId = some e ∧
      upsertAll s.catalog (s.learnedScope e)
        (withIds (newCapabilities (s.catalog.loadEntityCapabilityDicts e) reaped) newIds) =
          some (c, entries) ∧
      ∃ prompt, prompt = (if includePromptRegen then some (regeneratedPrompt sha e
          (s.catalog.loadEntityCapabilityDicts e ++
            newCapabilities (s.catalog.loadEntityCapabilityDicts e) reaped)) else e.systemPrompt) ∧
        s'.catalog =
          { c with entityCapabilities := attachAll c.entityCapabilities entityId entries } ∧
        s' = { s with
          catalog := s'.catalog
          entities := s.entities.update entityId (promoted sha s'.catalog prompt)
            (promoted_id sha s'.catalog prompt) } := by
  rw [promoteEntity] at h
  split at h
  · cases h
  · next e he =>
    obtain ⟨⟨c, entries⟩, hupsert, rfl⟩ := Option.map_eq_some_iff.mp h
    exact ⟨e, c, entries, he, hupsert, _, rfl, rfl, rfl⟩

theorem find?_update {t : Table Entity.id} {e : Entity} (he : t.find? entityId = some e)
    (f : Entity → Entity) (hf : ∀ e, (f e).id = e.id) :
    (t.update entityId f hf).find? entityId = some (f e) := by
  rw [Table.update, Table.find?_updateWhere, he, Option.map_some,
    if_pos (decide_eq_true (Table.find?_key he))]

/-- A promotion gives an entity the names of what is reaped and takes none away; its hash is the
one of what it then has, and nothing changes for the others. -/
theorem promoteEntity_union
    (h : promoteEntity sha s entityId reaped includePromptRegen newIds = some s') :
    ∃ e e', s.activeEntity? entityId = some e ∧ s'.activeEntity? entityId = some e' ∧
      (∀ n, n ∈ s'.catalog.capabilityNames e' ↔
        n ∈ s.catalog.capabilityNames e ∨ n ≠ [] ∧ n ∈ reaped.map CapDict.name) ∧
      e'.migrationHash = some (s'.catalog.computeEntityMigrationHash sha e') ∧
      ∀ other, other.id ≠ entityId → (other ∈ s'.entities.rows ↔ other ∈ s.entities.rows) ∧
        s'.catalog.effective other = s.catalog.effective other := by
  obtain ⟨e, c, entries, he, hupsert, prompt, -, hcatalog, hs'⟩ := promoteEntity_eq_some h
  obtain ⟨hfind, hactive⟩ := Option.filter_eq_some_iff.mp he
  have hid : e.id = entityId := Table.find?_key hfind
  refine ⟨e, promoted sha s'.catalog prompt e, he, ?_, ?_, migrationHash_refresh _ _, ?_⟩
  · rw [hs', State.activeEntity?]
    exact Option.filter_eq_some_iff.mpr ⟨find?_update hfind _ (promoted_id sha _ _), hactive⟩
  · intro n
    have hnames := mem_names_promotion (n := n) hupsert
    rw [hid, ← hcatalog] at hnames
    exact hnames
  · intro other hne
    constructor
    · rw [hs']
      exact Table.mem_update_of_ne _ (promoted_id sha _ _) hne
    · rw [hcatalog]
      exact (sameFor_attachAll hupsert hne).effective

def tamedPromoted : State :=
  (promoteEntity id tamed "fox" [swim] true fun _ => "swim").getD tamed

theorem promoteEntity_tamed :
    promoteEntity id tamed "fox" [swim] true (fun _ => "swim") = some tamedPromoted := rfl

theorem promoteEntity_union_swim : ∃ e', tamedPromoted.activeEntity? "fox" = some e' ∧
    "swim".toList ∈ tamedPromoted.catalog.capabilityNames e' := by
  obtain ⟨_, e', -, he', hnames, -⟩ := promoteEntity_union promoteEntity_tamed
  exact ⟨e', he', (hnames _).mpr (.inr ⟨by decide, List.mem_singleton_self _⟩)⟩

end Update

/-! The genes of an entity, of which one is taken for each slug. -/

theorem mem_keys {β : Type} {d : List (Str × β)} {k : Str} (h : d.any fun kv => kv.1 = k) :
    ∃ v, (k, v) ∈ d := by
  obtain ⟨⟨k', v⟩, hkv, hk⟩ := List.any_eq_true.mp h
  obtain rfl : k' = k := of_decide_eq_true hk
  exact ⟨v, hkv⟩

/-- Writing what a key has already, or a key that is new. -/
theorem mem_setItem {β : Type} {d : List (Str × β)} {k : Str} {v : β}
    (h : ∀ w, (k, w) ∈ d → w = v) {kv : Str × β} :
    kv ∈ setItem d k v ↔ kv ∈ d ∨ kv = (k, v) := by
  rw [setItem]
  split
  · next hkey =>
    obtain ⟨w, hw⟩ := mem_keys hkey
    obtain rfl := h w hw
    have hsame : (d.map fun kv => if kv.1 = k then (k, w) else kv) = d := by
      conv_rhs => rw [← List.map_id d]
      apply List.map_congr_left
      rintro ⟨k', w'⟩ hw'
      split
      · next hk =>
        obtain rfl : k' = k := hk
        rw [h w' hw']
        rfl
      · rfl
    rw [hsame]
    refine ⟨.inl, ?_⟩
    rintro (hkv | rfl)
    · exact hkv
    · exact hw
  · rw [List.mem_append, List.mem_singleton]

theorem mem_setDefault {β : Type} {d : List (Str × β)} {k : Str} {v : β}
    (h : ∀ w, (k, w) ∈ d → w = v) {kv : Str × β} :
    kv ∈ setDefault d k v ↔ kv ∈ d ∨ kv = (k, v) := by
  rw [setDefault]
  split
  · next hkey =>
    obtain ⟨w, hw⟩ := mem_keys hkey
    obtain rfl := h w hw
    refine ⟨.inl, ?_⟩
    rintro (hkv | rfl)
    · exact hkv
    · exact hw
  · rw [List.mem_append, List.mem_singleton]

def AiGene.entry (g : AiGene) : Str × Option (List CapabilityInline) := (g.slug, g.capabilities)

/-- Where a slug tells the gene, the dict of genes holds each of them. -/
theorem mem_foldl_genes
    {put : List (Str × Option (List CapabilityInline)) → Str → Option (List CapabilityInline) →
      List (Str × Option (List CapabilityInline))}
    (hput : ∀ {d k v}, (∀ w, (k, w) ∈ d → w = v) → ∀ {kv}, kv ∈ put d k v ↔ kv ∈ d ∨ kv = (k, v))
    {all : List AiGene} (hall : ∀ g ∈ all, ∀ g' ∈ all, g.slug = g'.slug → g = g')
    {genes : List AiGene} (hgenes : ∀ g ∈ genes, g ∈ all)
    {d : List (Str × Option (List CapabilityInline))} (hd : ∀ kv ∈ d, ∃ g ∈ all, kv = g.entry)
    {kv : Str × Option (List CapabilityInline)} :
    kv ∈ genes.foldl (fun d g => put d g.slug g.capabilities) d ↔
      kv ∈ d ∨ ∃ g ∈ genes, kv = g.entry := by
  induction genes generalizing d with
  | nil => simp
  | cons g genes ih =>
    rw [List.forall_mem_cons] at hgenes
    have hone : ∀ w, (g.slug, w) ∈ d → w = g.capabilities := by
      intro w hw
      obtain ⟨g', hg', heq⟩ := hd _ hw
      obtain ⟨hslug, rfl⟩ := Prod.mk.inj heq
      rw [hall g hgenes.1 g' hg' hslug]
    have hstep {kv} : kv ∈ put d g.slug g.capabilities ↔ kv ∈ d ∨ kv = g.entry := hput hone
    have hd' : ∀ kv ∈ put d g.slug g.capabilities, ∃ g ∈ all, kv = g.entry := by
      intro kv hkv
      obtain hkv | rfl := hstep.mp hkv
      · exact hd kv hkv
      · exact ⟨g, hgenes.1, rfl⟩
    rw [List.foldl_cons, ih hgenes.2 hd', hstep, List.exists_mem_cons_iff, or_assoc]

/-- The names inlined in a gene. -/
def AiGene.names (g : AiGene) : List Str :=
  ((g.capabilities.getD []).filter fun item => item.name ≠ []).map CapabilityInline.name

theorem mem_names_expandGenes {explicit inherited : List AiGene}
    (h : ∀ g ∈ explicit ++ inherited, ∀ g' ∈ explicit ++ inherited, g.slug = g'.slug → g = g') :
    n ∈ (expandGenes explicit inherited).map CapDict.name ↔
      ∃ g ∈ explicit ++ inherited, n ∈ g.names := by
  have hdict {kv} : kv ∈ inherited.foldl (fun d g => setDefault d g.slug g.capabilities)
      (explicit.foldl (fun d g => setItem d g.slug g.capabilities) []) ↔
      ∃ g ∈ explicit ++ inherited, kv = g.entry := by
    have hexplicit {kv} : kv ∈ explicit.foldl (fun d g => setItem d g.slug g.capabilities) [] ↔
        ∃ g ∈ explicit, kv = g.entry := by
      rw [mem_foldl_genes mem_setItem h (fun g hg => List.mem_append_left _ hg) (by simp)]
      exact or_iff_right List.not_mem_nil
    rw [mem_foldl_genes mem_setDefault h (fun g hg => List.mem_append_right _ hg), hexplicit]
    · simp only [List.mem_append, or_and_right, exists_or]
    · intro kv hkv
      obtain ⟨g, hg, rfl⟩ := hexplicit.mp hkv
      exact ⟨g, List.mem_append_left _ hg, rfl⟩
  have hinline (g : AiGene) : (((g.capabilities.getD []).filter fun item =>
      item.name ≠ []).map geneInlineToDict).map CapDict.name = g.names := by
    rw [List.map_map]
    rfl
  rw [expandGenes, List.map_flatMap, List.mem_flatMap]
  constructor
  · rintro ⟨kv, hkv, hn⟩
    obtain ⟨g, hg, rfl⟩ := hdict.mp hkv
    refine ⟨g, hg, ?_⟩
    rwa [← hinline]
  · rintro ⟨g, hg, hn⟩
    refine ⟨g.entry, hdict.mpr ⟨g, hg, rfl⟩, ?_⟩
    rwa [← hinline] at hn

namespace Catalog

/-- `uq_ai_genes_slug` -/
def UniqueSlugs (c : Catalog) : Prop := UniqueOn (fun g => !g.deleted) AiGene.slug c.genes.rows

instance (c : Catalog) : Decidable c.UniqueSlugs := inferInstanceAs (Decidable (UniqueOn _ _ _))

theorem mem_of_activeGene? {id : Id} {g : AiGene} (h : c.activeGene? id = some g) :
    g ∈ c.genes.rows ∧ (!g.deleted) = true := by
  obtain ⟨hfind, hactive⟩ := Option.filter_eq_some_iff.mp h
  exact ⟨Table.find?_mem hfind, hactive⟩

theorem mem_of_mem_genes {e : Entity} {g : AiGene}
    (h : g ∈ c.explicitGenes e.id ++ c.inheritedGenes e.presetSlug) :
    g ∈ c.genes.rows ∧ (!g.deleted) = true := by
  obtain h | h := List.mem_append.mp h
  · obtain ⟨ref, -, hg⟩ := List.mem_filterMap.mp h
    exact mem_of_activeGene? hg
  · rw [inheritedGenes] at h
    split at h
    · obtain ⟨ref, -, hg⟩ := List.mem_filterMap.mp h
      exact mem_of_activeGene? hg
    · cases h

theorem mem_geneNames (hslugs : c.UniqueSlugs) (e : Entity) :
    n ∈ (c.geneCapabilities e).map CapDict.name ↔
      ∃ g ∈ c.explicitGenes e.id ++ c.inheritedGenes e.presetSlug, n ∈ g.names := by
  apply mem_names_expandGenes
  intro g hg g' hg' hslug
  obtain ⟨hrow, hactive⟩ := mem_of_mem_genes hg
  obtain ⟨hrow', hactive'⟩ := mem_of_mem_genes hg'
  exact hslugs.eq hrow hrow' hactive hactive' hslug

/-- An entity without links of its own has what its base class gives. -/
theorem mem_inheritedNames (hslugs : c.UniqueSlugs) {e : Entity}
    (hjunction : refs c.entityCapabilities e.id = []) (hgenes : refs c.entityAiGenes e.id = []) :
    n ∈ c.capabilityNames e ↔ ∃ g ∈ c.inheritedGenes e.presetSlug, n ∈ g.names := by
  have hnone : n ∉ (c.junctionCapabilities e.id).map CapDict.name := by
    rw [mem_junctionNames, hjunction]
    simp
  rw [mem_capabilityNames, or_iff_right hnone, mem_geneNames hslugs, explicitGenes, hgenes,
    List.filterMap_nil, List.nil_append]

end Catalog

section Fork

variable {sha : Str → Str} {s s' : State} {entityId newId : Id} {newName newSlug : Str}
  {reaped : List CapDict} {includePromptRegen : Bool} {newIds : Nat → Id}

/-- A fork has what the entity has and what is reaped, and nothing changes for the entities that
were there. -/
theorem forkEntity_union (hslugs : s.catalog.UniqueSlugs)
    (h : forkEntity sha s entityId newId newName newSlug reaped includePromptRegen newIds =
      some s') :
    ∃ e row, s.activeEntity? entityId = some e ∧ s'.activeEntity? newId = some row ∧
      s'.entities.rows = s.entities.rows ++ [row] ∧
      (∀ n, n ≠ [] → (n ∈ s'.catalog.capabilityNames row ↔
        n ∈ s.catalog.capabilityNames e ∨ n ∈ reaped.map CapDict.name)) ∧
      row.migrationHash = some (s'.catalog.computeEntityMigrationHash sha row) ∧
      ∀ other ∈ s.entities.rows, s'.catalog.effective other = s.catalog.effective other := by
  rw [forkEntity] at h
  split at h
  · cases h
  · next e he =>
    obtain ⟨-, h⟩ := ite_eq_some h
    dsimp only at h
    split at h
    · cases h
    · next c entries hupsert =>
      obtain ⟨hunused, h⟩ := ite_eq_some h
      obtain ⟨t, ht, rfl⟩ := Option.map_eq_some_iff.mp h
      refine ⟨e, _, he, ?_, Table.insert?_rows ht, ?_, migrationHash_refresh _ _, ?_⟩
      · apply Option.filter_eq_some_iff.mpr
        refine ⟨?_, ?_⟩
        · rw [Table.find?_insert? ht]
          exact if_pos rfl
        · rfl
      · intro n hne
        obtain ⟨hadds, -⟩ := Catalog.upsertAll_spec hupsert
        have hlinks : ∀ l ∈ s.catalog.links, l.parentId ≠ newId := by
          rintro l hl rfl
          rw [hadds.rest] at hunused
          exact hunused (List.mem_map.mpr ⟨l, hl, rfl⟩)
        have hinherited : (∃ g ∈ s.catalog.inheritedGenes e.presetSlug, n ∈ g.names) →
            n ∈ s.catalog.capabilityNames e := by
          rintro ⟨g, hg, hn⟩
          apply (Catalog.mem_capabilityNames _ e).mpr
          exact .inr ((Catalog.mem_geneNames hslugs e).mpr ⟨g, List.mem_append_right _ hg, hn⟩)
        refine (mem_names_attachAll (n := n) hupsert { e with id := newId }).trans ?_
        rw [mem_merged hne, and_iff_right hne, Catalog.mem_inheritedNames hslugs, ← or_assoc]
        · exact or_congr_left (or_iff_right_of_imp hinherited)
        · exact refs_eq_nil fun l hl => hlinks l (Catalog.mem_links_entityCapabilities l hl)
        · exact refs_eq_nil fun l hl => hlinks l (Catalog.mem_links_entityAiGenes l hl)
      · intro other hother
        have hne : other.id ≠ newId := by
          rintro rfl
          exact Table.key_not_mem_of_insert? ht (List.mem_map.mpr ⟨other, hother, rfl⟩)
        exact (sameFor_attachAll hupsert hne).effective

def tamedIds (i : Nat) : Id := if i = 0 then "spare" else if i = 1 then "track" else "swim"

def tamedForked : State :=
  (forkEntity id tamed "fox" "cub" "Cub".toList "cub".toList [swim] false tamedIds).getD tamed

theorem forkEntity_union_cub : ∃ row, tamedForked.activeEntity? "cub" = some row ∧
    "swim".toList ∈ tamedForked.catalog.capabilityNames row := by
  have hfork : forkEntity id tamed "fox" "cub" "Cub".toList "cub".toList [swim] false tamedIds =
      some tamedForked := rfl
  obtain ⟨_, row, -, hrow, -, hnames, -⟩ := forkEntity_union (by decide) hfork
  exact ⟨row, hrow, (hnames _ (by decide)).mpr (.inr (List.mem_singleton_self _))⟩

end Fork

namespace Catalog

theorem entryWithName?_isSome : (c.entryWithName? n).isSome ↔ ∃ id, c.Holds id n := by
  constructor
  · intro h
    obtain ⟨entry, hentry⟩ := Option.isSome_iff_exists.mp h
    exact ⟨entry.id, holds_of_entryWithName? hentry⟩
  · rintro ⟨id, entry, hactive, rfl⟩
    obtain ⟨hfind, hlive⟩ := Option.filter_eq_some_iff.mp hactive
    apply List.find?_isSome.mpr
    exact ⟨entry, Table.find?_mem hfind, by simpa using hlive⟩

/-- The market is left as it is where it has all names. -/
theorem upsertAll_market_iff {scope : Scope} {caps : List (CapDict × Id)} {ids : List Id}
    (h : upsertAll c scope caps = some (c', ids)) :
    c'.market = c.market ↔
      ∀ n ∈ caps.map (fun cap => cap.1.name), n ≠ [] → (c.entryWithName? n).isSome := by
  constructor
  · intro hmarket n hn hne
    obtain ⟨id, -, hholds⟩ := ((upsertAll_spec h).2 n).mpr ⟨hne, hn⟩
    rw [(upsertAll_spec h).1.rest, hmarket] at hholds
    exact entryWithName?_isSome.mpr ⟨id, hholds⟩
  · intro hall
    induction caps generalizing ids with
    | nil =>
      cases h
      rfl
    | cons cap caps ih =>
      rw [List.map_cons, List.forall_mem_cons] at hall
      rw [upsertAll] at h
      split at h
      · exact ih h hall.2
      · next hne =>
        obtain ⟨entry, hentry⟩ := Option.isSome_iff_exists.mp (hall.1 hne)
        have hupsert (newId : Id) : upsertCapability c newId cap.1.typed scope =
            some (c, entry.id) := by
          rw [upsertCapability, show cap.1.typed.name = cap.1.name from rfl, hentry]
        rw [hupsert] at h
        obtain ⟨⟨c₂, rest⟩, hrest, heq⟩ := Option.map_eq_some_iff.mp h
        cases heq
        exact ih hrest hall.2

theorem insertClass_eq_some {baseClass : BaseClass} (h : c.insertClass baseClass = some c') :
    c.Unused baseClass.id ∧ ∃ baseClasses, c.baseClasses.insert? baseClass = some baseClasses ∧
      c' = { c with baseClasses := baseClasses } := by
  rw [insertClass] at h
  split at h
  · next hunused =>
    obtain ⟨baseClasses, hinsert, rfl⟩ := Option.map_eq_some_iff.mp h
    exact ⟨hunused, baseClasses, hinsert, rfl⟩
  · cases h

end Catalog

section Transmute

open Catalog

variable {s : State} {entityId newId : Id} {slug : Str} {newIds : Nat → Id}

/-- The active genes of the slugs of an entity. -/
def Catalog.genesWithRefs (c : Catalog) (e : Entity) : List AiGene :=
  c.genes.rows.filter fun g => !g.deleted && (c.geneRefs e).contains g.slug

/-- Where a slug tells the gene, these are the genes of the entity. -/
theorem mem_genesWithRefs (hslugs : c.UniqueSlugs) {e : Entity} {g : AiGene} :
    g ∈ c.genesWithRefs e ↔ g ∈ c.explicitGenes e.id ++ c.inheritedGenes e.presetSlug := by
  rw [genesWithRefs, List.mem_filter, Bool.and_eq_true, List.contains_iff_mem, geneRefs,
    List.mem_map]
  constructor
  · rintro ⟨hrow, hactive, g', hg', hslug⟩
    obtain ⟨hrow', hactive'⟩ := mem_of_mem_genes hg'
    rwa [hslugs.eq hrow hrow' hactive hactive' hslug.symm]
  · intro hg
    obtain ⟨hrow, hactive⟩ := mem_of_mem_genes hg
    exact ⟨hrow, hactive, g, hg, rfl⟩

theorem transmuteEntity_eq_some (h : transmuteEntity s entityId newId slug newIds = some c') :
    ∃ e baseClass baseClasses market, s.activeEntity? entityId = some e ∧
      s.catalog.classWithSlug? slug = none ∧
      (baseClass.id = newId ∧ baseClass.slug = slug ∧ baseClass.deleted = false) ∧
      s.catalog.Unused newId ∧ s.catalog.baseClasses.insert? baseClass = some baseClasses ∧
      (market = s.catalog.market ↔ ∀ n ∈ s.catalog.capabilityNames e, n ≠ [] →
        (s.catalog.entryWithName? n).isSome) ∧
      (∀ other, Catalog.SameFor s.catalog
        { s.catalog with baseClasses := baseClasses, market := market } other) ∧
      ∃ entries, c' = { s.catalog with
        baseClasses := baseClasses
        market := market
        baseClassCapabilities := attachAll s.catalog.baseClassCapabilities newId entries
        baseClassAiGenes := attachAll s.catalog.baseClassAiGenes newId
          ((s.catalog.genesWithRefs e).map AiGene.id) } := by
  rw [transmuteEntity] at h
  split at h
  · cases h
  · next e he =>
    obtain ⟨hslug, h⟩ := ite_eq_some h
    dsimp only at h
    split at h
    · cases h
    · next c₁ hclass =>
      obtain ⟨⟨c₂, entries⟩, hupsert, rfl⟩ := Option.map_eq_some_iff.mp h
      obtain ⟨hunused, baseClasses, hinsert, hc₁⟩ := Catalog.insertClass_eq_some hclass
      have hmarket := Catalog.upsertAll_market_iff hupsert
      have hrest := (Catalog.upsertAll_spec hupsert).1.rest
      have hsame (other : Entity) : Catalog.SameFor s.catalog c₂ other :=
        (Catalog.sameFor_insertClass hclass other).trans (Catalog.sameFor_upsertAll hupsert other)
      rw [map_name_withIds, hc₁] at hmarket
      rw [hc₁] at hrest
      rw [hrest] at hsame ⊢
      exact ⟨e, _, baseClasses, c₂.market, he, by simpa using hslug, ⟨rfl, rfl, rfl⟩, hunused,
        hinsert, hmarket, hsame, entries, rfl⟩

/-- A transmutation leaves the entities and their links alone, and what they have unless they
named the new base class before. The market is left alone exactly where it has all names: what a
gene inlines need have no entry. -/
theorem transmuteEntity_frame (h : transmuteEntity s entityId newId slug newIds = some c') :
    ∃ e, s.activeEntity? entityId = some e ∧
      c'.entityCapabilities = s.catalog.entityCapabilities ∧
      c'.entityAiGenes = s.catalog.entityAiGenes ∧ c'.genes = s.catalog.genes ∧
      (∀ other : Entity, other.presetSlug ≠ some slug →
        c'.effective other = s.catalog.effective other) ∧
      (c'.market = s.catalog.market ↔ ∀ n ∈ s.catalog.capabilityNames e, n ≠ [] →
        (s.catalog.entryWithName? n).isSome) := by
  obtain ⟨e, baseClass, baseClasses, market, he, -, ⟨rfl, rfl, hlive⟩, -, hinsert, hmarket, hsame,
    entries, rfl⟩ := transmuteEntity_eq_some h
  refine ⟨e, he, rfl, rfl, rfl, ?_, hmarket⟩
  intro other hother
  have hactive : Catalog.activeClass?
      { s.catalog with baseClasses := baseClasses, market := market } baseClass.id =
        some baseClass := by
    rw [Catalog.activeClass?, Table.find?_insert? hinsert, if_pos rfl]
    exact Option.filter_eq_some_iff.mpr ⟨rfl, by rw [hlive]; rfl⟩
  refine SameFor.effective ((hsame other).trans ?_)
  refine ⟨rfl, rfl, inheritedGenes_congr rfl ?_⟩
  intro b hb
  refine genesOfClass_congr ?_ fun _ _ => rfl
  exact refs_attachAll_of_ne (preset?_ne hactive (decide_eq_false hother) hb) _

def tamedTransmuted : Catalog :=
  (transmuteEntity tamed "fox" "canine" "canine".toList fun _ => "track").getD tamed.catalog

theorem transmuteEntity_tamed :
    transmuteEntity tamed "fox" "canine" "canine".toList (fun _ => "track") =
      some tamedTransmuted := rfl

theorem transmuteEntity_frame_canine : tamedTransmuted.market ≠ tamed.catalog.market := by
  obtain ⟨e, he, -, -, -, -, hmarket⟩ := transmuteEntity_frame transmuteEntity_tamed
  obtain rfl := Option.some.inj he
  intro hsame
  exact absurd (hmarket.mp hsame "track".toList (by decide +kernel) (by decide)) (by decide)

/-- An entity made on the base class that a transmutation leaves has what the entity has by its
genes; of what is attached to the entity it has nothing. -/
theorem transmuteEntity_heirs (hslugs : s.catalog.UniqueSlugs) (hslug : slug ≠ [])
    (h : transmuteEntity s entityId newId slug newIds = some c') :
    ∃ e, s.activeEntity? entityId = some e ∧ ∀ heir : Entity, heir.presetSlug = some slug →
      refs c'.entityCapabilities heir.id = [] → refs c'.entityAiGenes heir.id = [] →
      ∀ n, n ∈ c'.capabilityNames heir ↔ n ∈ (s.catalog.geneCapabilities e).map CapDict.name := by
  obtain ⟨e, baseClass, baseClasses, market, he, hfree, ⟨rfl, rfl, hlive⟩, hunused, hinsert, -, -,
    entries, hc'⟩ := transmuteEntity_eq_some h
  refine ⟨e, he, ?_⟩
  intro heir hpreset hjunction hgenes n
  have hslugs' : c'.UniqueSlugs := by
    rw [hc']
    exact hslugs
  have hclass : c'.classWithSlug? baseClass.slug = some baseClass := by
    rw [Catalog.classWithSlug?] at hfree
    rw [hc', Catalog.classWithSlug?, Table.insert?_rows hinsert, List.find?_append, hfree,
      Option.none_or]
    exact List.find?_cons_of_pos (by simp [hlive])
  have hinherited : c'.inheritedGenes heir.presetSlug = c'.genesOfClass baseClass.id := by
    have htruthy : truthy (some baseClass.slug) = some baseClass.slug :=
      Option.filter_eq_some_iff.mpr ⟨rfl, decide_eq_true hslug⟩
    rw [inheritedGenes, hpreset, htruthy, Option.bind_some, hclass]
  have hmem (g : AiGene) : g ∈ c'.genesOfClass baseClass.id ↔ g ∈ s.catalog.genesWithRefs e := by
    have hnone : refs s.catalog.baseClassAiGenes baseClass.id = [] :=
      refs_eq_nil fun l hl => (hunused.2 l (mem_links_baseClassAiGenes l hl)).1
    rw [genesOfClass, hc', List.mem_filterMap]
    simp only [mem_refs_attachAll, hnone, List.not_mem_nil, false_or]
    constructor
    · rintro ⟨ref, href, hg⟩
      obtain ⟨g', hg', rfl⟩ := List.mem_map.mp href
      obtain ⟨hfind, -⟩ := Option.filter_eq_some_iff.mp hg
      rw [s.catalog.genes.find?_of_mem (List.mem_of_mem_filter hg')] at hfind
      rwa [← Option.some.inj hfind]
    · intro hg
      obtain ⟨hrow, htest⟩ := List.mem_filter.mp hg
      rw [Bool.and_eq_true] at htest
      refine ⟨g.id, List.mem_map.mpr ⟨g, hg, rfl⟩, Option.filter_eq_some_iff.mpr ⟨?_, htest.1⟩⟩
      exact s.catalog.genes.find?_of_mem hrow
  rw [mem_inheritedNames hslugs' hjunction hgenes, hinherited, mem_geneNames hslugs]
  simp only [hmem, mem_genesWithRefs hslugs]

def pup : Entity :=
  ⟨"pup", "default", "Pup".toList, "pup".toList, some "canine".toList, none, false, none, false⟩

theorem transmuteEntity_heirs_pup :
    "track".toList ∈ tamedTransmuted.capabilityNames pup ∧
      "alpha".toList ∉ tamedTransmuted.capabilityNames pup := by
  obtain ⟨e, he, hheirs⟩ := transmuteEntity_heirs (by decide) (by decide) transmuteEntity_tamed
  obtain rfl := Option.some.inj he
  have hpup := hheirs pup rfl rfl rfl
  exact ⟨(hpup _).mpr (by decide +kernel), fun h => absurd ((hpup _).mp h) (by decide +kernel)⟩

end Transmute

end Eyot.Market
