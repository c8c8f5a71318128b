import Eyot.Library.Keeps
import Eyot.Market.AssetRequests

/-! Whether the entities of a copied organization go their own way. -/

namespace Eyot.Market

open Table (Edited)

variable {sha : Str → Str} {s s' t t' : Store} {orgId newOrgId : Id}

/-- Row of an organization that the requests may edit. -/
def EntryRow.OwnedBy (orgId : Id) (r : EntryRow) : Prop :=
  r.scope ≠ .system ∧ r.organizationId = some orgId

def GeneRow.OwnedBy (orgId : Id) (g : GeneRow) : Prop :=
  g.scope ≠ .system ∧ g.organizationId = some orgId

def ClassRow.OwnedBy (orgId : Id) (b : ClassRow) : Prop :=
  b.scope ≠ .system ∧ b.organizationId = some orgId

/-! What requests on what belongs to an organization leave of the tables. -/

def EntryRow.Edit (orgId : Id) (r r' : EntryRow) : Prop :=
  r' = r ∨ r.OwnedBy orgId ∧ r'.OwnedBy orgId

def GeneRow.Edit (orgId : Id) (g g' : GeneRow) : Prop :=
  g' = g ∨ g.OwnedBy orgId ∧ g'.OwnedBy orgId ∧ (g'.deleted = false → g.deleted = false)

/-- A slug that an entity refers to is kept. -/
def ClassRow.Edit (orgId : Id) (inUse : Str → Bool) (b b' : ClassRow) : Prop :=
  b' = b ∨ b.OwnedBy orgId ∧ b'.OwnedBy orgId ∧
    (b'.deleted = false → b.deleted = false ∧
      (b'.slug = b.slug ∨ inUse b.slug = false ∧ matchesSlugPattern b'.slug = true))

def EntityRow.Rehashed (e e' : EntityRow) : Prop := { e with migrationHash := e'.migrationHash } = e'

theorem EntryRow.Edit.trans {r r' r'' : EntryRow} (h : r.Edit orgId r') (h' : r'.Edit orgId r'') :
    r.Edit orgId r'' := by
  obtain rfl | ⟨howned, _⟩ := h
  · exact h'
  · obtain rfl | ⟨_, howned'⟩ := h'
    · exact .inr ⟨howned, by assumption⟩
    · exact .inr ⟨howned, howned'⟩

theorem GeneRow.Edit.trans {g g' g'' : GeneRow} (h : g.Edit orgId g') (h' : g'.Edit orgId g'') :
    g.Edit orgId g'' := by
  obtain rfl | ⟨howned, hmid, hactive⟩ := h
  · exact h'
  · obtain rfl | ⟨_, howned', hactive'⟩ := h'
    · exact .inr ⟨howned, hmid, hactive⟩
    · exact .inr ⟨howned, howned', hactive ∘ hactive'⟩

theorem ClassRow.Edit.trans {inUse : Str → Bool} {b b' b'' : ClassRow} (h : b.Edit orgId inUse b')
    (h' : b'.Edit orgId inUse b'') : b.Edit orgId inUse b'' := by
  obtain rfl | ⟨howned, hmid, hactive⟩ := h
  · exact h'
  · obtain rfl | ⟨_, howned', hactive'⟩ := h'
    · exact .inr ⟨howned, hmid, hactive⟩
    · refine .inr ⟨howned, howned', ?_⟩
      intro hlast
      obtain ⟨hb', hslug'⟩ := hactive' hlast
      obtain ⟨hb, hslug⟩ := hactive hb'
      refine ⟨hb, ?_⟩
      obtain heq | ⟨hfree, hvalid⟩ := hslug
      · rw [← heq]
        exact hslug'
      · obtain heq' | ⟨_, hvalid'⟩ := hslug'
        · exact .inr ⟨hfree, heq' ▸ hvalid⟩
        · exact .inr ⟨hfree, hvalid'⟩

theorem EntityRow.Rehashed.trans {e e' e'' : EntityRow} (h : e.Rehashed e') (h' : e'.Rehashed e'') :
    e.Rehashed e'' := by
  rw [Rehashed] at h h' ⊢
  rw [← h'] at *
  rw [← h]

/-- A state that requests on what belongs to the organization lead to. -/
structure Later (orgId : Id) (s t : Store) : Prop where
  entities : Edited EntityRow.Rehashed s.entities t.entities
  market : Edited (EntryRow.Edit orgId) s.market t.market
  genes : Edited (GeneRow.Edit orgId) s.genes t.genes
  baseClasses : Edited (ClassRow.Edit orgId s.slugInUse) s.baseClasses t.baseClasses
  entityCapabilities : t.entityCapabilities = s.entityCapabilities
  entityAiGenes : t.entityAiGenes = s.entityAiGenes
  baseClassAiGenes : t.baseClassAiGenes = s.baseClassAiGenes
  classSlugs : t.ClassSlugs

theorem EntityRow.Rehashed.refl (e : EntityRow) : e.Rehashed e := rfl

theorem later_refl (hs : s.ClassSlugs) : Later orgId s s where
  entities := .refl EntityRow.Rehashed.refl _
  market := .refl (fun _ => .inl rfl) _
  genes := .refl (fun _ => .inl rfl) _
  baseClasses := .refl (fun _ => .inl rfl) _
  entityCapabilities := rfl
  entityAiGenes := rfl
  baseClassAiGenes := rfl
  classSlugs := hs

theorem slugInUse_of_edited (h : Edited EntityRow.Rehashed s.entities t.entities) (slug : Str) :
    t.slugInUse slug = s.slugInUse slug := by
  have hpreset := h.map_eq (g := fun e => e.presetSlug) fun e e' hrow => by rw [← hrow]
  have hany : ∀ rows : List EntityRow, (rows.any fun e => ofBaseClass slug e.toEntity) =
      (rows.map fun e => e.presetSlug).any fun preset => preset = some slug := by
    intro rows
    rw [List.any_map]
    rfl
  rw [Store.slugInUse, Store.slugInUse, hany, hany, hpreset]

theorem Later.trans (h : Later orgId s t) (h' : Later orgId t t') : Later orgId s t' := by
  have hinUse : t.slugInUse = s.slugInUse := funext (slugInUse_of_edited h.entities)
  have hclasses := h'.baseClasses
  rw [hinUse] at hclasses
  exact ⟨h.entities.trans (fun _ _ _ => .trans) h'.entities,
    h.market.trans (fun _ _ _ => .trans) h'.market, h.genes.trans (fun _ _ _ => .trans) h'.genes,
    h.baseClasses.trans (fun _ _ _ => .trans) hclasses,
    h'.entityCapabilities.trans h.entityCapabilities, h'.entityAiGenes.trans h.entityAiGenes,
    h'.baseClassAiGenes.trans h.baseClassAiGenes, h'.classSlugs⟩

/-! One request. -/

theorem edited_market {id : Id} {entry : EntryRow} {f : EntryRow → EntryRow}
    (hf : ∀ r, (f r).key = r.key) (hentry : s.activeEntry? id = some entry)
    (howner : (s.market.find? id).bind (·.organizationId) = some orgId)
    (hscope : entry.scope ≠ .system)
    (hcolumns : (f entry).scope = entry.scope ∧ (f entry).organizationId = entry.organizationId) :
    Edited (EntryRow.Edit orgId) s.market (s.market.update id f hf) := by
  obtain ⟨hfind, _⟩ := Option.filter_eq_some_iff.mp hentry
  rw [hfind, Option.bind_some] at howner
  refine Table.edited_update (fun _ => .inl rfl) hf ?_
  intro r hr
  obtain rfl := Option.some.inj (hfind.symm.trans hr)
  refine .inr ⟨⟨hscope, howner⟩, ?_, hcolumns.2.trans howner⟩
  rwa [hcolumns.1]

theorem edited_genes {id : Id} {gene : GeneRow} {f : GeneRow → GeneRow}
    (hf : ∀ g, (f g).key = g.key) (hgene : s.activeGene? id = some gene)
    (howner : (s.genes.find? id).bind (·.organizationId) = some orgId)
    (hscope : gene.scope ≠ .system)
    (hcolumns : (f gene).scope = gene.scope ∧ (f gene).organizationId = gene.organizationId) :
    Edited (GeneRow.Edit orgId) s.genes (s.genes.update id f hf) := by
  obtain ⟨hfind, hactive⟩ := Option.filter_eq_some_iff.mp hgene
  rw [hfind, Option.bind_some] at howner
  refine Table.edited_update (fun _ => .inl rfl) hf ?_
  intro g hg
  obtain rfl := Option.some.inj (hfind.symm.trans hg)
  refine .inr ⟨⟨hscope, howner⟩, ⟨?_, hcolumns.2.trans howner⟩, fun _ => by simpa using hactive⟩
  rwa [hcolumns.1]

theorem edited_baseClasses {id : Id} {b : ClassRow} {f : ClassRow → ClassRow}
    (hf : ∀ b, (f b).key = b.key) (hclass : s.activeClass? id = some b)
    (howner : (s.baseClasses.find? id).bind (·.organizationId) = some orgId)
    (hscope : b.scope ≠ .system)
    (hcolumns : (f b).scope = b.scope ∧ (f b).organizationId = b.organizationId)
    (hslug : (f b).slug = b.slug ∨
      s.slugInUse b.slug = false ∧ matchesSlugPattern (f b).slug = true) :
    Edited (ClassRow.Edit orgId s.slugInUse) s.baseClasses (s.baseClasses.update id f hf) := by
  obtain ⟨hfind, hactive⟩ := Option.filter_eq_some_iff.mp hclass
  rw [hfind, Option.bind_some] at howner
  refine Table.edited_update (fun _ => .inl rfl) hf ?_
  intro r hr
  obtain rfl := Option.some.inj (hfind.symm.trans hr)
  refine .inr ⟨⟨hscope, howner⟩, ⟨?_, hcolumns.2.trans howner⟩,
    fun _ => ⟨by simpa using hactive, hslug⟩⟩
  rwa [hcolumns.1]

/-- A base class that takes no other's slug leaves the slugs unique. -/
theorem classSlugs_update {id : Id} {f : ClassRow → ClassRow} {hf : ∀ b, (f b).key = b.key}
    (hs : s.ClassSlugs) (hslug : ∀ b ∈ s.baseClasses.rows, b.key = id → (f b).deleted = false →
      ∀ b' ∈ s.baseClasses.rows, b'.key ≠ id → b'.deleted = false → b'.slug ≠ (f b).slug) :
    ({ s with baseClasses := s.baseClasses.update id f hf } : Store).ClassSlugs := by
  intro b hb b' hb' hactive hactive' heq
  obtain ⟨hold, hkey⟩ | ⟨c, hold, hkey, rfl⟩ := Table.mem_update_cases hf hb
  · obtain ⟨hold', hkey'⟩ | ⟨c', hold', hkey', rfl⟩ := Table.mem_update_cases hf hb'
    · exact hs b hold b' hold' hactive hactive' heq
    · exact absurd heq (hslug c' hold' hkey' hactive' b hold hkey hactive)
  · obtain ⟨hold', hkey'⟩ | ⟨c', hold', hkey', rfl⟩ := Table.mem_update_cases hf hb'
    · exact absurd heq.symm (hslug c hold hkey hactive b' hold' hkey' hactive')
    · rw [s.baseClasses.eq_of_key_eq hold hold' (hkey.trans hkey'.symm)]

theorem edited_bump (s : Store) (sha : Str → Str) (id : Id) :
    Edited EntityRow.Rehashed s.entities (s.bumpEntitiesForGene sha id).entities := by
  rw [Edited, Store.bumpEntitiesForGene, Table.updateWhere_rows, List.forall₂_map_right_iff,
    List.forall₂_same]
  intro e _
  split
  · exact ⟨rfl, rfl⟩
  · exact ⟨rfl, rfl⟩

/-- What one request leaves. -/
theorem later_change (hs : s.ClassSlugs) {r : AssetRequest} (howner : s.owner? r = some orgId)
    (h : s.change? sha r = some t) : Later orgId s t := by
  have hrefl : Later orgId s s := later_refl hs
  cases r with
  | updateMarketEntry id patch =>
    rw [Store.change?] at h
    split at h
    · rename_i entry hentry
      split at h
      · rename_i hmay
        cases h
        rw [Store.mayPatchEntry, Bool.and_eq_true, decide_eq_true_eq] at hmay
        exact { hrefl with market := edited_market (EntryRow.patch_key patch) hentry howner hmay.1 ⟨rfl, rfl⟩ }
      · cases h
    · cases h
  | deleteMarketEntry id =>
    rw [Store.change?] at h
    split at h
    · rename_i entry hentry
      split at h
      · rename_i hscope
        cases h
        exact { hrefl with market := edited_market EntryRow.softDelete_key hentry howner hscope ⟨rfl, rfl⟩ }
      · cases h
    · cases h
  | updateAiGene id patch =>
    rw [Store.change?] at h
    split at h
    · rename_i gene hgene
      split at h
      · rename_i hscope
        have hgenes := edited_genes (GeneRow.patch_key patch) hgene howner hscope ⟨rfl, rfl⟩
        obtain rfl := Option.some.inj h
        have hbump := edited_bump { s with
          genes := s.genes.update id (GeneRow.patch patch) (GeneRow.patch_key patch) } sha id
        split
        · exact { hrefl with genes := hgenes }
        · exact { hrefl with genes := hgenes, entities := hbump }
      · cases h
    · cases h
  | deleteAiGene id =>
    rw [Store.change?] at h
    split at h
    · rename_i gene hgene
      split at h
      · rename_i hscope
        cases h
        exact { hrefl with genes := edited_genes GeneRow.softDelete_key hgene howner hscope ⟨rfl, rfl⟩ }
      · cases h
    · cases h
  | updateBaseClass id patch =>
    rw [Store.change?] at h
    split at h
    · rename_i b hb
      split at h
      · rename_i hmay
        cases h
        obtain ⟨hrow, hid, hactive⟩ := activeClass?_mem hb
        simp only [Store.mayPatchClass, Bool.and_eq_true, Bool.or_eq_true, decide_eq_true_eq,
          Bool.not_eq_true'] at hmay
        obtain ⟨hscope, hslug⟩ := hmay
        refine { hrefl with
          baseClasses := edited_baseClasses patch.apply_key hb howner hscope ⟨rfl, rfl⟩ ?_
          classSlugs := classSlugs_update hs ?_ }
        · obtain hsame | ⟨_, hfree⟩ := hslug
          · exact .inl hsame
          · cases hnew : patch.slug with
            | none =>
              left
              rw [ClassPatch.apply, hnew]
              rfl
            | some slug =>
              right
              rw [ClassPatch.apply, hnew]
              exact ⟨hfree, slug.valid⟩
        · intro c hc hkey _ b' hb' hkey' hactive' heq
          obtain rfl : c = b := s.baseClasses.eq_of_key_eq hc hrow (hkey.trans hid.symm)
          obtain hsame | ⟨hfree, _⟩ := hslug
          · rw [hsame] at heq
            exact hkey' ((congrArg ClassRow.key (hs b' hb' c hc hactive' hactive heq)).trans hkey)
          · simp only [Store.classSlugTaken, List.any_eq_false, Bool.and_eq_true, decide_eq_true_eq,
              Bool.not_eq_true'] at hfree
            exact hfree b' hb' ⟨⟨heq, hactive'⟩, fun h => hkey' (h.trans hid)⟩
      · cases h
    · cases h
  | deleteBaseClass id =>
    rw [Store.change?] at h
    split at h
    · rename_i b hb
      split at h
      · rename_i hscope
        cases h
        refine { hrefl with
          baseClasses := edited_baseClasses ClassRow.softDelete_key hb howner hscope ⟨rfl, rfl⟩
            (.inl rfl)
          classSlugs := classSlugs_update hs ?_ }
        intro c _ _ hactive
        cases hactive
      · cases h
    · cases h

theorem later_step (hs : s.ClassSlugs) (r : AssetRequest) :
    Later orgId s (s.stepOwned sha orgId r) := by
  rw [Store.stepOwned]
  split
  · rename_i howner
    cases h : s.change? sha r with
    | none => exact later_refl hs
    | some t => exact later_change hs howner h
  · exact later_refl hs

end Eyot.Market
