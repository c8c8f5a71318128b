import Eyot.Library.Dict
import Eyot.Market.Overlay

/-! What an override does to the template under it, at every path, and what it cannot do to the
capabilities and the genes. -/

namespace Eyot.Market

def isObject : Json Str → Bool
  | .obj _ => true
  | _ => false

/-- The value under a path of keys. -/
def at? : List Str → Json Str → Option (Json Str)
  | [], v => some v
  | k :: path, v => (v.get? k).bind (at? path)

theorem setItem_eq (d : Members) (k : Str) (v : Json Str) : setItem d k v = Dict.set d k v := rfl

theorem get?_obj (d : Members) (k : Str) : (Json.obj d).get? k = Dict.get? d k := rfl

theorem wellFormed_obj {kvs : Members} :
    (Json.obj kvs).wellFormed = true ↔
      Dict.Distinct kvs ∧ ∀ kv ∈ kvs, kv.2.wellFormed = true := by
  rw [Json.wellFormed, Bool.and_eq_true, decide_eq_true_eq, Json.wellFormedMembers_iff]
  rfl

theorem wellFormed_get? {kvs : Members} {k : Str} {v : Json Str}
    (hkvs : (Json.obj kvs).wellFormed = true) (h : Dict.get? kvs k = some v) :
    v.wellFormed = true :=
  (wellFormed_obj.mp hkvs).2 _ (Dict.mem_of_get? h)

/-! One level. -/

theorem mergeValue_of_not_isObject {base : Option (Json Str)} {v : Json Str}
    (hv : isObject v = false) : mergeValue base v = v := by
  cases v with
  | obj kvs => cases hv
  | _ => rfl

theorem mergeValue_of_base {base : Option (Json Str)} {v : Json Str}
    (hbase : ∀ bs, base ≠ some (.obj bs)) : mergeValue base v = v := by
  cases v with
  | obj kvs =>
    rw [mergeValue]
    exact hbase
  | _ => rfl

theorem deepMerge_cons (base : Members) (k : Str) (v : Json Str) (override : Members) :
    deepMerge base ((k, v) :: override) =
      deepMerge (Dict.set base k (mergeValue (Dict.get? base k) v)) override := by
  rw [deepMerge, setItem_eq, get?_obj]

theorem get?_deepMerge_of_not_mem {base override : Members} {k : Str}
    (hk : k ∉ override.map Prod.fst) :
    Dict.get? (deepMerge base override) k = Dict.get? base k := by
  induction override generalizing base with
  | nil => rfl
  | cons kv override ih =>
    rw [List.map_cons, List.mem_cons, not_or] at hk
    rw [deepMerge_cons, ih hk.2, Dict.get?_set, if_neg fun h => hk.1 h.symm]

theorem get?_deepMerge {base override : Members} (hover : Dict.Distinct override) {k : Str}
    {v : Json Str} (hv : Dict.get? override k = some v) :
    Dict.get? (deepMerge base override) k = some (mergeValue (Dict.get? base k) v) := by
  induction override generalizing base with
  | nil => cases hv
  | cons kv override ih =>
    rw [Dict.Distinct, List.map_cons, List.nodup_cons] at hover
    rw [Dict.get?_cons] at hv
    rw [deepMerge_cons]
    by_cases hk : kv.1 = k
    · subst hk
      rw [if_pos rfl] at hv
      rw [get?_deepMerge_of_not_mem hover.1, Dict.get?_set, if_pos rfl, Option.some.inj hv]
    · rw [if_neg hk] at hv
      rw [ih hover.2 hv, Dict.get?_set, if_neg hk]

theorem distinct_deepMerge {base : Members} (hbase : Dict.Distinct base) (override : Members) :
    Dict.Distinct (deepMerge base override) := by
  induction override generalizing base with
  | nil => exact hbase
  | cons kv override ih =>
    rw [deepMerge_cons]
    exact ih (Dict.distinct_set hbase)

/-! Every path. -/

/-- Down one key, the merge is the base, the override's value, or a merge again. -/
theorem at?_cons_deepMerge (bs : Members) {os : Members} (hos : Dict.Distinct os) (k : Str)
    (path : List Str) :
    (Dict.get? os k = none ∧
        at? (k :: path) (.obj (deepMerge bs os)) = (Dict.get? bs k).bind (at? path)) ∨
      (∃ v, Dict.get? os k = some v ∧
        (isObject v = false ∨ ∀ bs', Dict.get? bs k ≠ some (.obj bs')) ∧
        at? (k :: path) (.obj (deepMerge bs os)) = at? path v) ∨
      (∃ bs' os', Dict.get? bs k = some (.obj bs') ∧ Dict.get? os k = some (.obj os') ∧
        at? (k :: path) (.obj (deepMerge bs os)) = at? path (.obj (deepMerge bs' os'))) := by
  simp only [at?, get?_obj]
  cases hv : Dict.get? os k with
  | none =>
    rw [get?_deepMerge_of_not_mem (Dict.get?_eq_none.mp hv)]
    exact .inl ⟨rfl, rfl⟩
  | some v =>
    rw [get?_deepMerge hos hv]
    by_cases hover : isObject v = false ∨ ∀ bs', Dict.get? bs k ≠ some (.obj bs')
    · refine .inr (.inl ⟨v, rfl, hover, ?_⟩)
      rcases hover with hv | hbase
      · rw [mergeValue_of_not_isObject hv]
        rfl
      · rw [mergeValue_of_base hbase]
        rfl
    · obtain ⟨hv, hbase⟩ := not_or.mp hover
      obtain ⟨bs', hbs'⟩ := not_forall_not.mp hbase
      cases v with
      | obj os' =>
        refine .inr (.inr ⟨bs', os', hbs', rfl, ?_⟩)
        rw [hbs', mergeValue]
        rfl
      | _ => exact absurd rfl hv

theorem at?_cons_of_not_isObject {v : Json Str} (hv : isObject v = false) (k : Str)
    (path : List Str) : at? (k :: path) v = none := by
  cases v with
  | obj kvs => cases hv
  | _ => rfl

/-- Above an object there are objects only. -/
theorem isObject_of_at? {path : List Str} {v : Json Str} {kvs : Members}
    (h : at? path v = some (.obj kvs)) : isObject v = true := by
  cases path with
  | nil =>
    obtain rfl : v = .obj kvs := Option.some.inj h
    rfl
  | cons k path =>
    by_contra hv
    rw [at?_cons_of_not_isObject (Bool.not_eq_true _ ▸ hv)] at h
    cases h

theorem at?_cons_obj (kvs : Members) (k : Str) (path : List Str) :
    at? (k :: path) (.obj kvs) = (Dict.get? kvs k).bind (at? path) := rfl

/-- The override has the last word where it has no object, and where there is none under it. -/
theorem at?_deepMerge_override {bs os : Members} (hos : (Json.obj os).wellFormed = true)
    {path : List Str} {v : Json Str} (hv : at? path (.obj os) = some v)
    (hover : isObject v = false ∨ ∀ bs', at? path (.obj bs) ≠ some (.obj bs')) :
    at? path (.obj (deepMerge bs os)) = some v := by
  induction path generalizing bs os with
  | nil =>
    obtain rfl : Json.obj os = v := Option.some.inj hv
    rcases hover with h | h
    · cases h
    · exact absurd rfl (h bs)
  | cons k path ih =>
    rw [at?_cons_obj] at hv hover
    rcases at?_cons_deepMerge bs (wellFormed_obj.mp hos).1 k path with
      ⟨hk, hmerged⟩ | ⟨w, hk, -, hmerged⟩ | ⟨bs', os', hbk, hok, hmerged⟩
    · rw [hk] at hv
      cases hv
    · rw [hk] at hv
      rw [hmerged]
      exact hv
    · rw [hok] at hv
      rw [hbk] at hover
      rw [hmerged]
      exact ih (wellFormed_get? hos hok) hv hover

/-- Where the override is silent, with nothing but objects above, the base stays. -/
theorem at?_deepMerge_base {bs os : Members} (hos : (Json.obj os).wellFormed = true)
    {path : List Str} (hv : at? path (.obj os) = none)
    (habove : ∀ above v, above <+: path → at? above (.obj os) = some v → isObject v = true) :
    at? path (.obj (deepMerge bs os)) = at? path (.obj bs) := by
  induction path generalizing bs os with
  | nil => cases hv
  | cons k path ih =>
    rcases at?_cons_deepMerge bs (wellFormed_obj.mp hos).1 k path with
      ⟨-, hmerged⟩ | ⟨w, hk, hw, hmerged⟩ | ⟨bs', os', hbk, hok, hmerged⟩
    · exact hmerged
    · have hobject : isObject w = true := by
        refine habove [k] w (by simp) ?_
        rw [at?_cons_obj, hk]
        rfl
      have hbase := hw.resolve_left (by rw [hobject]; nofun)
      rw [at?_cons_obj, hk] at hv
      rw [hmerged, at?_cons_obj]
      cases path with
      | nil => cases hv
      | cons k' path =>
        refine Eq.trans hv (Eq.symm (Option.bind_eq_none_iff.mpr fun b hb => ?_))
        refine at?_cons_of_not_isObject ?_ k' path
        cases b with
        | obj bs' => exact absurd hb (hbase bs')
        | _ => rfl
    · rw [at?_cons_obj, hok] at hv
      rw [hmerged, at?_cons_obj, hbk]
      refine ih (wellFormed_get? hos hok) hv fun above v hprefix habove' => ?_
      refine habove (k :: above) v (List.prefix_cons_inj k |>.mpr hprefix) ?_
      rw [at?_cons_obj, hok]
      exact habove'

theorem at?_deepMerge_both {bs os : Members} (hos : (Json.obj os).wellFormed = true)
    {path : List Str} {bs' os' : Members} (hb : at? path (.obj bs) = some (.obj bs'))
    (ho : at? path (.obj os) = some (.obj os')) :
    at? path (.obj (deepMerge bs os)) = some (.obj (deepMerge bs' os')) := by
  induction path generalizing bs os with
  | nil =>
    obtain rfl : bs = bs' := Json.obj.inj (Option.some.inj hb)
    obtain rfl : os = os' := Json.obj.inj (Option.some.inj ho)
    rfl
  | cons k path ih =>
    rw [at?_cons_obj] at hb ho
    rcases at?_cons_deepMerge bs (wellFormed_obj.mp hos).1 k path with
      ⟨hk, -⟩ | ⟨w, hk, hw, hmerged⟩ | ⟨bs₁, os₁, hbk, hok, hmerged⟩
    · rw [hk] at ho
      cases ho
    · rw [hk] at ho
      obtain ⟨b, hbk, hb⟩ := Option.bind_eq_some_iff.mp hb
      have hobject := isObject_of_at? hb
      cases b with
      | obj bs₁ => exact absurd hbk (hw.resolve_left (by rw [isObject_of_at? ho]; nofun) bs₁)
      | _ => cases hobject
    · rw [hbk] at hb
      rw [hok] at ho
      rw [hmerged]
      exact ih (wellFormed_get? hos hok) hb ho

/-! The same override again. -/

/-- Every value of the override is there already. -/
theorem deepMerge_eq_self {d os : Members} (hd : Dict.Distinct d)
    (hos : ∀ kv ∈ os, ∃ w, Dict.get? d kv.1 = some w ∧ mergeValue (some w) kv.2 = w) :
    deepMerge d os = d := by
  induction os with
  | nil => rfl
  | cons kv os ih =>
    obtain ⟨w, hw, hkv⟩ := hos kv List.mem_cons_self
    rw [deepMerge_cons, hw, hkv, Dict.set_of_get? hd hw]
    exact ih fun kv' hkv' => hos kv' (List.mem_cons_of_mem kv hkv')

mutual
theorem mergeValue_self (v : Json Str) (hv : v.wellFormed = true) :
    mergeValue (some v) v = v := by
  match v with
  | .null | .bool _ | .num _ | .str _ | .arr _ => rfl
  | .obj kvs =>
    obtain ⟨hkvs, hvalues⟩ := wellFormed_obj.mp hv
    rw [mergeValue]
    refine congrArg Json.obj (deepMerge_eq_self hkvs fun kv hkv => ?_)
    exact ⟨kv.2, Dict.get?_of_mem hkvs hkv, mergeMembers_self kvs hvalues kv hkv⟩

theorem mergeMembers_self (kvs : Members) (hkvs : ∀ kv ∈ kvs, kv.2.wellFormed = true) :
    ∀ kv ∈ kvs, mergeValue (some kv.2) kv.2 = kv.2 := by
  match kvs with
  | [] => nofun
  | (k, v) :: kvs =>
    rw [List.forall_mem_cons] at hkvs ⊢
    exact ⟨mergeValue_self v hkvs.1, mergeMembers_self kvs hkvs.2⟩
end

mutual
theorem mergeValue_again (v : Json Str) (hv : v.wellFormed = true) (base : Option (Json Str))
    (hbase : ∀ b, base = some b → b.wellFormed = true) :
    mergeValue (some (mergeValue base v)) v = mergeValue base v := by
  match v with
  | .null | .bool _ | .num _ | .str _ | .arr _ => rfl
  | .obj kvs =>
    obtain ⟨hkvs, hvalues⟩ := wellFormed_obj.mp hv
    by_cases hobject : ∃ bs, base = some (.obj bs)
    · obtain ⟨bs, rfl⟩ := hobject
      have hbs := hbase _ rfl
      rw [mergeValue, mergeValue]
      refine congrArg Json.obj (deepMerge_eq_self
        (distinct_deepMerge (wellFormed_obj.mp hbs).1 kvs) fun kv hkv => ?_)
      refine ⟨_, get?_deepMerge hkvs (Dict.get?_of_mem hkvs hkv), ?_⟩
      exact mergeMembers_again kvs hvalues kv hkv _ fun b hb => wellFormed_get? hbs hb
    · rw [mergeValue_of_base (not_exists.mp hobject)]
      exact mergeValue_self _ hv

theorem mergeMembers_again (kvs : Members) (hkvs : ∀ kv ∈ kvs, kv.2.wellFormed = true) :
    ∀ kv ∈ kvs, ∀ base : Option (Json Str), (∀ b, base = some b → b.wellFormed = true) →
      mergeValue (some (mergeValue base kv.2)) kv.2 = mergeValue base kv.2 := by
  match kvs with
  | [] => nofun
  | (k, v) :: kvs =>
    rw [List.forall_mem_cons] at hkvs ⊢
    exact ⟨mergeValue_again v hkvs.1, mergeMembers_again kvs hkvs.2⟩
end

theorem deepMerge_again (base override : JsonObject) :
    deepMerge (deepMerge base.members override.members) override.members =
      deepMerge base.members override.members := by
  have hagain := mergeValue_again override.json override.wellFormed (some base.json)
    fun b hb => Option.some.inj hb ▸ base.wellFormed
  simp only [JsonObject.json, mergeValue] at hagain
  exact Json.obj.inj hagain

/-! The capabilities and the genes of an entity. -/

/-- What an override says of capabilities and genes. -/
def capPart (entity : EntityRow) : Members :=
  ((entity.configOverride.map JsonObject.members).getD []).filter fun kv => CAP_KEYS.contains kv.1

theorem get?_filter {d : Members} {p : Str → Bool} {k : Str} (hk : p k = true) :
    Dict.get? (d.filter fun kv => p kv.1) k = Dict.get? d k := by
  induction d with
  | nil => rfl
  | cons kv d ih =>
    rw [List.filter_cons, Dict.get?_cons]
    by_cases hkv : kv.1 = k
    · subst hkv
      rw [if_pos hk, Dict.get?_cons, if_pos rfl, if_pos rfl]
    · rw [if_neg hkv, ← ih]
      split
      · rw [Dict.get?_cons, if_neg hkv]
      · rfl

theorem firstList?_filter {d : Members} {keys : List String}
    (hkeys : ∀ k ∈ keys, k.toList ∈ CAP_KEYS) :
    firstList? (d.filter fun kv => CAP_KEYS.contains kv.1) keys = firstList? d keys := by
  induction keys with
  | nil => rfl
  | cons k keys ih =>
    rw [List.forall_mem_cons] at hkeys
    have hk := List.contains_iff_mem.mpr hkeys.1
    simp only [firstList?, List.findSome?_cons, member?, get?_obj, get?_filter hk] at ih ⊢
    rw [ih hkeys.2]

section

variable {ν : Type} [LinearOrder ν] (number : Str → ν)

theorem keys_manifestTemplateSubset {manifest template : Members}
    (h : manifestTemplateSubset number manifest = some template) :
    template.map Prod.fst = ["provider_config".toList, "default_model".toList,
      "commands".toList, "system_prompt".toList, "tools".toList, "runtime_config".toList,
      "subagent_strategy".toList, "baseclass_template_prompt".toList,
      "baseclass_operating_form".toList] := by
  simp only [manifestTemplateSubset, Option.bind_eq_bind, Option.bind_eq_some_iff] at h
  obtain ⟨commands, -, tools, -, runtimeConfig, -, htemplate⟩ := h
  rw [← Option.some.inj htemplate]
  rfl

/-- What the result has under a key of capabilities or genes: lists of the override or the lists
of the entity, and nothing else. -/
def capValue (entity : EntityRow) (capabilities geneRefs : List (Json Str)) (k : Str) :
    Option (Json Str) :=
  if k = "default_capabilities".toList then
    some (.arr ((firstList? (capPart entity) ["default_capabilities", "capabilities"]).getD
      capabilities))
  else if k = "default_gene_refs".toList then
    some (.arr ((firstList? (capPart entity)
      ["default_gene_refs", "gene_refs", "installed_genes"]).getD geneRefs))
  else none

theorem not_mem_keys_template {manifest template : Members}
    (h : manifestTemplateSubset number manifest = some template) {k : Str} (hk : k ∈ CAP_KEYS) :
    k ∉ template.map Prod.fst := by
  have hdisjoint : ∀ k ∈ CAP_KEYS, k ∉ ["provider_config".toList, "default_model".toList,
      "commands".toList, "system_prompt".toList, "tools".toList, "runtime_config".toList,
      "subagent_strategy".toList, "baseclass_template_prompt".toList,
      "baseclass_operating_form".toList] := by decide
  rw [keys_manifestTemplateSubset number h]
  exact hdisjoint k hk

/-- Neither the template nor the merged override has a key of capabilities or genes. -/
theorem get?_merged {manifest template : Members}
    (h : manifestTemplateSubset number manifest = some template) (prompt : Option Str)
    (override : Members) {k : Str} (hk : k ∈ CAP_KEYS) :
    Dict.get? (deepMerge (match prompt with
        | some prompt => setItem template "system_prompt".toList (.str prompt)
        | none => template)
      (override.filter fun kv => !CAP_KEYS.contains kv.1)) k = none := by
  have htemplate := Dict.get?_eq_none.mpr (not_mem_keys_template number h hk)
  have hprompt : ∀ k ∈ CAP_KEYS, "system_prompt".toList ≠ k := by decide
  rw [get?_deepMerge_of_not_mem]
  · cases prompt with
    | none => exact htemplate
    | some prompt =>
      change Dict.get? (Dict.set template "system_prompt".toList (.str prompt)) k = none
      rw [Dict.get?_set, if_neg (hprompt k hk), htemplate]
  · intro hmem
    obtain ⟨kv, hkv, rfl⟩ := List.mem_map.mp hmem
    have hcap := (List.mem_filter.mp hkv).2
    rw [List.contains_iff_mem.mpr hk] at hcap
    cases hcap

theorem get?_resolveEntityConfig {entity : EntityRow} {baseManifest : Option JsonObject}
    {capabilities geneRefs : List (Json Str)} {resolved : Members}
    (h : resolveEntityConfig number entity baseManifest capabilities geneRefs = some resolved)
    {k : Str} (hk : k ∈ CAP_KEYS) :
    Dict.get? resolved k = capValue entity capabilities geneRefs k := by
  simp only [resolveEntityConfig, Option.map_eq_some_iff] at h
  obtain ⟨template, htemplate, rfl⟩ := h
  have hfixed : ∀ k ∈ CAP_KEYS, "entity_slug".toList ≠ k ∧ "entity_name".toList ≠ k ∧
      "entity_role_prompt".toList ≠ k := by decide
  obtain ⟨hslug, hname, hrole⟩ := hfixed k hk
  simp only [List.foldl_cons, List.foldl_nil, setItem_eq, Dict.get?_set, if_neg hslug,
    if_neg hname, if_neg hrole]
  have hcaps : ∀ k ∈ ["default_capabilities", "capabilities"], k.toList ∈ CAP_KEYS := by decide
  have hgenes : ∀ k ∈ ["default_gene_refs", "gene_refs", "installed_genes"],
      k.toList ∈ CAP_KEYS := by decide
  have hmerged := get?_merged number htemplate entity.systemPrompt
    ((entity.configOverride.map JsonObject.members).getD []) hk
  rw [capValue, capPart, firstList?_filter hcaps, firstList?_filter hgenes]
  by_cases hrefs : k = "default_gene_refs".toList
  · subst hrefs
    rfl
  · rw [if_neg (Ne.symm hrefs), if_neg hrefs]
    by_cases hcap : k = "default_capabilities".toList
    · subst hcap
      rfl
    · rw [if_neg (Ne.symm hcap), if_neg hcap]
      exact hmerged

/-- What the merge of an override over a base has at every path. -/
structure IsOverlay (base override merged : Json Str) : Prop where
  wins : ∀ path v, at? path override = some v →
    (isObject v = false ∨ ∀ bs, at? path base ≠ some (.obj bs)) → at? path merged = some v
  stays : ∀ path, at? path override = none →
    (∀ above v, above <+: path → at? above override = some v → isObject v = true) →
    at? path merged = at? path base
  merges : ∀ path bs os, at? path base = some (.obj bs) → at? path override = some (.obj os) →
    at? path merged = some (.obj (deepMerge bs os))

theorem isOverlay_deepMerge (base override : JsonObject) :
    IsOverlay base.json override.json (.obj (deepMerge base.members override.members)) where
  wins _ _ hv hover := at?_deepMerge_override override.wellFormed hv hover
  stays _ hv habove := at?_deepMerge_base override.wellFormed hv habove
  merges _ _ _ hb ho := at?_deepMerge_both override.wellFormed hb ho

/-- The overlay law. Entities whose overrides say the same of capabilities and genes get the same
of them, whatever the manifests hold and whatever else the overrides merge. -/
theorem overlay_law (base override : JsonObject) :
    IsOverlay base.json override.json (.obj (deepMerge base.members override.members)) ∧
      deepMerge (deepMerge base.members override.members) override.members =
        deepMerge base.members override.members ∧
      ∀ (entity entity' : EntityRow) (manifest manifest' : Option JsonObject)
        (capabilities geneRefs : List (Json Str)) (resolved resolved' : Members),
        capPart entity = capPart entity' →
        resolveEntityConfig number entity manifest capabilities geneRefs = some resolved →
        resolveEntityConfig number entity' manifest' capabilities geneRefs = some resolved' →
        ∀ k ∈ CAP_KEYS, Dict.get? resolved k = Dict.get? resolved' k := by
  refine ⟨isOverlay_deepMerge base override, deepMerge_again base override, ?_⟩
  intro entity entity' manifest manifest' capabilities geneRefs resolved resolved' hcap h h' k hk
  rw [get?_resolveEntityConfig number h hk, get?_resolveEntityConfig number h' hk]
  simp only [capValue, hcap]

/-- `{"caps": {"a": 1, "b": 2}}` -/
def plainBase : JsonObject where
  members := [("caps".toList, .obj [("a".toList, .num ['1']), ("b".toList, .num ['2'])])]
  wellFormed := by decide

/-- `{"capabilities": [], "caps": {"a": null}}` -/
def cappedOverride : JsonObject where
  members := [("capabilities".toList, .arr []), ("caps".toList, .obj [("a".toList, .null)])]
  wellFormed := by decide

def cappedEntity : EntityRow :=
  { id := "e", namespaceId := "n", name := ['e'], slug := ['e'], presetSlug := none,
    systemPrompt := none, isCerebellum := false, migrationHash := none, deleted := false,
    displayName := none, configOverride := some cappedOverride, hasKnowledge := none }

theorem overlay_law_capped :
    at? ["caps".toList, "a".toList]
        (.obj (deepMerge plainBase.members cappedOverride.members)) = some .null ∧
      ∃ resolved resolved',
        resolveEntityConfig (fun _ => 0) cappedEntity none [.null] [] = some resolved ∧
        resolveEntityConfig (fun _ => 0) cappedEntity (some plainBase) [.null] [] =
          some resolved' ∧
        ∀ k ∈ CAP_KEYS, Dict.get? resolved k = Dict.get? resolved' k := by
  obtain ⟨hpaths, -, hcaps⟩ := overlay_law (fun _ => (0 : Nat)) plainBase cappedOverride
  refine ⟨hpaths.wins _ _ rfl (.inl rfl), _, _, rfl, rfl, ?_⟩
  exact hcaps cappedEntity cappedEntity none (some plainBase) [.null] [] _ _ rfl rfl rfl

end

end Eyot.Market
