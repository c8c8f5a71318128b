import Eyot.Market.Manifest

/-! Whether the effective capabilities of an entity depend on the order the database returns its
rows in. -/

namespace Eyot.Market.Manifest

structure Rows.Reordered (rows rows' : Rows) : Prop where
  junction : rows.junction.Perm rows'.junction
  explicit : rows.explicit.Perm rows'.explicit
  inherited : rows.inherited.Perm rows'.inherited

/-- The genes of the base class whose slugs are not attached to the entity itself. -/
def Rows.fresh (rows : Rows) : List GeneRow :=
  rows.inherited.filter fun g => !rows.explicit.any fun e => e.slug = g.slug

def Rows.genes (rows : Rows) : List GeneRow := rows.explicit ++ rows.fresh

section Python

variable {ν : Type} [LinearOrder ν] (number : Str → ν)

def OrderFree (sha : Str → Str) (prompt : Option Str) (rows : Rows) : Prop :=
  ∀ rows', rows.Reordered rows' →
    loadEntityCapabilityDicts number rows' = loadEntityCapabilityDicts number rows ∧
      migrationHash number sha rows' prompt = migrationHash number sha rows prompt

/-- The first capability of that name in the manifest of a gene. -/
def firstNamed (k : Str ⊕ₗ ν) (g : GeneRow) : Option Dict :=
  (under (Dict.key number) k (inlineCapabilities number g.manifest)).head?

/-- All names can be told apart and sorted. -/
def Sortable (rows : Rows) : Prop :=
  (∀ d ∈ rows.genes.flatMap fun g => inlineCapabilities number g.manifest,
    isHashable d.name.value = true) ∧
  comparable number (rows.junction.map capabilityToDict ++
    rows.genes.flatMap fun g => inlineCapabilities number g.manifest) = true

/-- The genes that inline one capability inline it alike: those attached to the entity, and where
there are none, those of its base class.  An attached capability of that name settles it. -/
def Concordant (rows : Rows) : Prop :=
  ∀ k : Str ⊕ₗ ν, (∀ cap ∈ rows.junction, (capabilityToDict cap).key number ≠ k) →
    Agree (firstNamed number k) rows.explicit ∧
      ((∀ g ∈ rows.explicit, firstNamed number k g = none) →
        Agree (firstNamed number k) rows.fresh)

end Python

/-! The dict of genes. -/

theorem foldl_setItem {d : List (Str × Option Jsonb)} {l : List GeneRow}
    (h : (d.map Prod.fst ++ l.map GeneRow.slug).Nodup) :
    l.foldl (fun d g => setItem d g.slug g.manifest) d =
      d ++ l.map fun g => (g.slug, g.manifest) := by
  induction l generalizing d with
  | nil => exact (List.append_nil d).symm
  | cons g l ih =>
    have hfresh : (d.any fun kv => kv.1 = g.slug) = false := by
      rw [List.any_eq_false]
      intro kv hkv
      rw [decide_eq_true_eq]
      intro heq
      rw [List.map_cons, List.nodup_append] at h
      exact h.2.2 _ (List.mem_map_of_mem hkv) _ List.mem_cons_self heq
    have hset : setItem d g.slug g.manifest = d ++ [(g.slug, g.manifest)] := by
      rw [setItem, hfresh, if_neg Bool.false_ne_true]
    rw [List.foldl_cons, hset, ih, List.map_cons, List.append_assoc, List.singleton_append]
    rw [List.map_append, List.append_assoc]
    exact h

theorem foldl_setDefault {d : List (Str × Option Jsonb)} {l : List GeneRow}
    (h : (l.map GeneRow.slug).Nodup) :
    l.foldl (fun d g => setDefault d g.slug g.manifest) d =
      d ++ (l.filter fun g => !d.any fun kv => kv.1 = g.slug).map
        fun g => (g.slug, g.manifest) := by
  induction l generalizing d with
  | nil => exact (List.append_nil d).symm
  | cons g l ih =>
    rw [List.map_cons, List.nodup_cons] at h
    rw [List.foldl_cons, ih h.2, List.filter_cons, setDefault]
    cases hany : d.any fun kv => kv.1 = g.slug with
    | true => simp
    | false =>
      have hfilter : (l.filter fun g' => !(d ++ [(g.slug, g.manifest)]).any
          fun kv => kv.1 = g'.slug) = l.filter fun g' => !d.any fun kv => kv.1 = g'.slug := by
        apply List.filter_congr
        intro g' hg'
        have hne : g.slug ≠ g'.slug := fun heq => h.1 (heq ▸ List.mem_map_of_mem hg')
        simp [hne]
      simp only [Bool.false_eq_true, if_false, Bool.not_false, if_true, hfilter, List.map_cons,
        List.append_assoc, List.singleton_append]

section Load

variable {ν : Type} [LinearOrder ν] {number : Str → ν} {rows rows' : Rows}

theorem loadEntityGeneInlineCapabilityDicts_eq (rows : Rows) :
    loadEntityGeneInlineCapabilityDicts number rows =
      rows.genes.flatMap fun g => inlineCapabilities number g.manifest := by
  have hexplicit : rows.explicit.foldl (fun d g => setItem d g.slug g.manifest) [] =
      rows.explicit.map fun g => (g.slug, g.manifest) := by
    rw [foldl_setItem (d := []), List.nil_append]
    exact rows.explicit_nodup
  rw [loadEntityGeneInlineCapabilityDicts, hexplicit, foldl_setDefault rows.inherited_nodup]
  simp only [List.any_map, List.flatMap_append, List.flatMap_map, Rows.genes, Rows.fresh]
  rfl

/-! What the order of the rows leaves alone. -/

theorem Rows.Reordered.genes (h : rows.Reordered rows') : rows.genes.Perm rows'.genes := by
  have hfresh : rows.fresh.Perm rows'.fresh := by
    have hsame : (fun g : GeneRow => !rows'.explicit.any fun e => e.slug = g.slug) =
        fun g : GeneRow => !rows.explicit.any fun e => e.slug = g.slug := by
      funext g
      rw [h.explicit.any_eq]
    rw [Rows.fresh, Rows.fresh, hsame]
    exact h.inherited.filter _
  exact h.explicit.append hfresh

theorem Rows.Reordered.inline (h : rows.Reordered rows') :
    (rows.genes.flatMap fun g => inlineCapabilities number g.manifest).Perm
      (rows'.genes.flatMap fun g => inlineCapabilities number g.manifest) :=
  h.genes.flatMap_right _

omit [LinearOrder ν] in
theorem junction_keys_nodup (rows : Rows) :
    ((rows.junction.map capabilityToDict).map (Dict.key number)).Nodup := by
  have hkeys : (rows.junction.map capabilityToDict).map (Dict.key number) =
      (rows.junction.map CapabilityMarketEntry.name).map fun s => toLex (Sum.inl s) := by
    rw [List.map_map, List.map_map]
    rfl
  rw [hkeys]
  exact rows.junction_nodup.map (toLex.injective.comp Sum.inl_injective)

theorem Rows.Reordered.under_junction (h : rows.Reordered rows') (k : Str ⊕ₗ ν) :
    under (Dict.key number) k (rows'.junction.map capabilityToDict) =
      under (Dict.key number) k (rows.junction.map capabilityToDict) := by
  have hnodup : ((rows.junction.map capabilityToDict).map (Dict.key number)).Nodup :=
    junction_keys_nodup rows
  have hsort := sortBy_congr_perm (h.junction.map capabilityToDict) hnodup
  exact (sortBy_eq_iff.mp hsort k).symm

theorem under_junction_eq_nil {k : Str ⊕ₗ ν} :
    under (Dict.key number) k (rows.junction.map capabilityToDict) = [] ↔
      ∀ cap ∈ rows.junction, (capabilityToDict cap).key number ≠ k := by
  rw [under, List.filter_eq_nil_iff, List.forall_mem_map]
  simp

omit [LinearOrder ν] in
theorem comparable_perm {l m : List Dict} (h : l.Perm m) :
    comparable number l = comparable number m := by
  rw [comparable, comparable, h.all_eq, h.all_eq]

/-! The load. -/

theorem load_eq (rows : Rows) :
    loadEntityCapabilityDicts number rows =
      let caps := rows.genes.flatMap fun g => inlineCapabilities number g.manifest
      let junction := rows.junction.map capabilityToDict
      if caps.all fun d => isHashable d.name.value then
        if comparable number (junction ++ caps) then
          .ok (sortBy (Dict.key number) (caps.foldl (mergeBy (Dict.key number)) junction))
        else .error .unorderable
      else .error .unhashable := by
  rw [loadEntityCapabilityDicts, loadEntityGeneInlineCapabilityDicts_eq]
  have hcomparable (caps junction : List Dict) :
      comparable number (caps.foldl (mergeBy (Dict.key number)) junction) =
        comparable number (junction ++ caps) := by
    rw [comparable, comparable, all_foldl_mergeBy, all_foldl_mergeBy fun k => !isText k]
  simp only [hcomparable]

theorem load_of_sortable (h : Sortable number rows) :
    loadEntityCapabilityDicts number rows =
      .ok (sortBy (Dict.key number)
        ((rows.genes.flatMap fun g => inlineCapabilities number g.manifest).foldl
          (mergeBy (Dict.key number)) (rows.junction.map capabilityToDict))) := by
  rw [load_eq]
  simp only
  rw [if_pos (List.all_eq_true.mpr h.1), if_pos h.2]

theorem Rows.Reordered.sortable (h : rows.Reordered rows') (hs : Sortable number rows) :
    Sortable number rows' := by
  refine ⟨?_, ?_⟩
  · intro d hd
    exact hs.1 d (h.inline.mem_iff.mpr hd)
  · rw [← comparable_perm ((h.junction.map capabilityToDict).append h.inline)]
    exact hs.2

/-- A load that fails fails in any order, and in the same way. -/
theorem load_reordered_of_not_sortable (h : rows.Reordered rows') (hs : ¬ Sortable number rows) :
    loadEntityCapabilityDicts number rows' = loadEntityCapabilityDicts number rows := by
  rw [load_eq, load_eq]
  simp only
  rw [← h.inline.all_eq, ← comparable_perm ((h.junction.map capabilityToDict).append h.inline)]
  by_cases hhash : ((rows.genes.flatMap fun g => inlineCapabilities number g.manifest).all
      fun d => isHashable d.name.value) = true
  · have hcomparable := fun hc => hs ⟨List.all_eq_true.mp hhash, hc⟩
    rw [if_pos hhash, if_pos hhash, if_neg hcomparable, if_neg hcomparable]
  · rw [if_neg hhash, if_neg hhash]

/-- A load that goes through gives the same list exactly if each name that is not attached is
first found with the same dict. -/
theorem load_reordered_iff (h : rows.Reordered rows') (hs : Sortable number rows) :
    loadEntityCapabilityDicts number rows' = loadEntityCapabilityDicts number rows ↔
      ∀ k : Str ⊕ₗ ν, (∀ cap ∈ rows.junction, (capabilityToDict cap).key number ≠ k) →
        rows'.genes.findSome? (firstNamed number k) =
          rows.genes.findSome? (firstNamed number k) := by
  rw [load_of_sortable (h.sortable hs), load_of_sortable hs, Except.ok.injEq, sortBy_eq_iff]
  apply forall_congr'
  intro k
  rw [under_foldl_mergeBy, under_foldl_mergeBy, h.under_junction, head?_under_flatMap,
    head?_under_flatMap, ← under_junction_eq_nil]
  by_cases hnil : under (Dict.key number) k (rows.junction.map capabilityToDict) = []
  · rw [if_pos hnil, if_pos hnil]
    constructor
    · intro heq _
      have hhead := congrArg List.head? heq
      rw [Option.head?_toList, Option.head?_toList] at hhead
      exact hhead
    · intro heq
      exact congrArg Option.toList (heq hnil)
  · rw [if_neg hnil, if_neg hnil]
    exact iff_of_true rfl fun hnil' => absurd hnil' hnil

theorem orderFree_iff_load (sha : Str → Str) (prompt : Option Str) :
    OrderFree number sha prompt rows ↔ ∀ rows', rows.Reordered rows' →
      loadEntityCapabilityDicts number rows' = loadEntityCapabilityDicts number rows := by
  constructor
  · intro h rows' hr
    exact (h rows' hr).1
  · intro h rows' hr
    refine ⟨h rows' hr, ?_⟩
    rw [migrationHash, migrationHash, h rows' hr]

theorem concordant_iff :
    Concordant number rows ↔ ∀ k : Str ⊕ₗ ν,
      (∀ cap ∈ rows.junction, (capabilityToDict cap).key number ≠ k) →
        ∀ rows', rows.Reordered rows' → rows'.genes.findSome? (firstNamed number k) =
          rows.genes.findSome? (firstNamed number k) := by
  apply forall_congr'
  intro k
  apply imp_congr_right
  intro _
  rw [Rows.fresh, ← agree_append_iff]
  constructor
  · intro h rows' hr
    have hgenes := h rows'.explicit rows'.inherited hr.explicit hr.inherited
    rw [Rows.genes, Rows.genes, Rows.fresh, Rows.fresh, ← hgenes]
    congr 3
    funext g
    rw [hr.explicit.any_eq]
  · intro h l m hl hm
    let rows' : Rows := ⟨rows.junction, l, m, rows.junction_nodup,
      (hl.map GeneRow.slug).nodup rows.explicit_nodup,
      (hm.map GeneRow.slug).nodup rows.inherited_nodup⟩
    have hgenes := h rows' ⟨.refl _, hl, hm⟩
    rw [Rows.genes, Rows.genes, Rows.fresh, Rows.fresh] at hgenes
    rw [← hgenes]
    congr 3
    funext g
    rw [hl.any_eq]

theorem orderFree_iff (sha : Str → Str) (prompt : Option Str) (rows : Rows) :
    OrderFree number sha prompt rows ↔ (Sortable number rows → Concordant number rows) := by
  rw [orderFree_iff_load, concordant_iff]
  constructor
  · intro h hs k hk rows' hr
    exact (load_reordered_iff hr hs).mp (h rows' hr) k hk
  · intro h rows' hr
    by_cases hs : Sortable number rows
    · rw [load_reordered_iff hr hs]
      intro k hk
      exact h hs k hk rows' hr
    · exact load_reordered_of_not_sortable hr hs

end Load

/-! Two genes that inline one capability with different types. -/

/-- The numerals of natural numbers. -/
def decimal (t : Str) : Nat := t.foldl (fun n c => 10 * n + (c.toNat - '0'.toNat)) 0

def inlining (type : String) : Option Jsonb :=
  some ⟨.obj [("capabilities".toList, .arr [.obj [("name".toList, .str "deploy".toList),
    ("type".toList, .str type.toList)]])], rfl⟩

def disputed : Rows where
  junction := []
  explicit := [⟨"ops".toList, inlining "skill"⟩, ⟨"infra".toList, inlining "tool"⟩]
  inherited := []
  junction_nodup := List.nodup_nil
  explicit_nodup := of_decide_eq_true rfl
  inherited_nodup := List.nodup_nil

def disputedSwapped : Rows where
  junction := []
  explicit := [⟨"infra".toList, inlining "tool"⟩, ⟨"ops".toList, inlining "skill"⟩]
  inherited := []
  junction_nodup := List.nodup_nil
  explicit_nodup := of_decide_eq_true rfl
  inherited_nodup := List.nodup_nil

theorem not_orderFree_disputed :
    ¬ ∃ sha : Str → Str, OrderFree decimal sha none disputed := by
  rintro ⟨sha, h⟩
  have hload := (h disputedSwapped ⟨.refl _, .swap .., .refl _⟩).1
  have htypes := congrArg (fun r => r.toOption.map (List.map fun d => d.type.value.asStr?)) hload
  exact absurd htypes (by decide)

end Eyot.Market.Manifest
