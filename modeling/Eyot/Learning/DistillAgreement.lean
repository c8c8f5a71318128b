import Eyot.Learning.Distill
import Eyot.Library.FirstWins

/-! Whether the directive and the endpoint come to the same capabilities. -/

namespace Eyot.Learning

open Market (Scope truthy)

/-- What is compared of a capability. -/
structure Produced where
  name : Str
  type : Str
  requiredKnowledge : List Str
  scope : Scope
  organizationId : Option Id
  namespaceId : Option Id
  deriving DecidableEq

def CapabilityMarketEntry.produced (e : CapabilityMarketEntry) : Produced :=
  ⟨e.name, e.type, e.requiredKnowledge.getD [], e.scope, e.organizationId, e.namespaceId⟩

def SameCapabilities (caps caps' : List CapabilityMarketEntry) : Prop :=
  ∀ c, c ∈ caps.map CapabilityMarketEntry.produced ↔ c ∈ caps'.map CapabilityMarketEntry.produced

/-- A request that is refused comes to none. -/
def capabilitiesOf : Except Failure (DistillResultOut × Store) → List CapabilityMarketEntry
  | .ok (out, _) => out.capabilityCandidates
  | .error _ => []

theorem upsertCapabilities_fst (s : Store) (ds : List Draft) :
    (upsertCapabilities s ds).1 = (getOrAddAll CapabilityMarketEntry.isActive
      CapabilityMarketEntry.name s.market (ds.map Draft.row)).1 := by
  induction ds generalizing s with
  | nil => rfl
  | cons d ds ih => exact congrArg (_ :: ·) (ih (upsertCapability s d).2)

/-- The directive reports what the distiller of its target comes to. -/
theorem routeLearningDirective_reports (lower : Str → Str) (s : Store) (db : Db)
    (directive : Slash.Directive Char) (fromUserId : Id) {result : Routing.DirectiveResult}
    (h : (Routing.routeLearningDirective (distiller lower s) db directive fromUserId).result =
      .ok result) :
    result.createdCapabilities =
      ((directive.targetEntity.bind (Routing.findEntity db)).toList.flatMap
        fun e => (distillDirective lower s e).1.map fun cap => (cap.name, String.ofList cap.type)) := by
  rw [Routing.routeLearningDirective] at h
  cases htarget : directive.targetEntity with
  | none =>
    rw [htarget] at h
    cases h
    rfl
  | some targetSlug =>
    rw [htarget] at h
    dsimp only at h
    rw [Option.bind_some]
    cases hentity : Routing.findEntity db targetSlug with
    | none =>
      rw [hentity] at h
      cases h
      rfl
    | some e =>
      rw [hentity] at h
      rw [Option.toList_some, List.flatMap_singleton]
      cases hcaps : (distillDirective lower s e).1.map
          fun cap => (cap.name, String.ofList cap.type) with
      | nil =>
        simp only [distiller, hcaps] at h
        cases h
        rfl
      | cons cap caps =>
        simp only [distiller, hcaps] at h
        cases h
        rfl

/-! The candidates of the endpoint. -/

theorem capabilityCandidates_names {candidates : List CapabilityCandidate} {entries : List Memory}
    (c : CapabilityCandidate) (hc : c ∈ capabilityCandidates candidates entries) :
    c ∈ candidates ∨
      ∃ e ∈ entries, candidateKey? e = some c.name ∧ c = capabilityCandidate e c.name := by
  induction entries generalizing candidates with
  | nil => exact .inl hc
  | cons e entries ih =>
    have hlater (candidates : List CapabilityCandidate)
        (hc : c ∈ capabilityCandidates candidates entries) :
        c ∈ candidates ∨ ∃ e' ∈ e :: entries,
          candidateKey? e' = some c.name ∧ c = capabilityCandidate e' c.name :=
      (ih hc).imp_right fun ⟨e', he', h⟩ => ⟨e', List.mem_cons_of_mem e he', h⟩
    have hhere {key : Str} (hkey : candidateKey? e = some key)
        (hc : c ∈ candidates ++ [capabilityCandidate e key]) :
        c ∈ candidates ∨ ∃ e' ∈ e :: entries,
          candidateKey? e' = some c.name ∧ c = capabilityCandidate e' c.name := by
      obtain hc | hc := List.mem_append.mp hc
      · exact .inl hc
      · obtain rfl := List.mem_singleton.mp hc
        exact .inr ⟨e, List.mem_cons_self, hkey, rfl⟩
    rw [capabilityCandidates] at hc
    split at hc
    · exact hlater candidates hc
    · rename_i key hkey
      split at hc
      · exact hlater candidates hc
      · split at hc
        · exact hhere hkey hc
        · exact (hlater _ hc).elim (hhere hkey) .inr

theorem subset_capabilityCandidates (candidates : List CapabilityCandidate)
    (entries : List Memory) : candidates ⊆ capabilityCandidates candidates entries := by
  induction entries generalizing candidates with
  | nil => exact List.Subset.refl candidates
  | cons e entries ih =>
    rw [capabilityCandidates]
    split
    · exact ih candidates
    · split
      · exact ih candidates
      · split
        · exact List.subset_append_left _ _
        · exact List.Subset.trans (List.subset_append_left _ _) (ih _)

theorem nodup_capabilityCandidates {candidates : List CapabilityCandidate} (entries : List Memory)
    (h : (candidates.map CapabilityCandidate.name).Nodup) :
    ((capabilityCandidates candidates entries).map CapabilityCandidate.name).Nodup := by
  induction entries generalizing candidates with
  | nil => exact h
  | cons e entries ih =>
    rw [capabilityCandidates]
    split
    · exact ih h
    · rename_i key _
      split
      · exact ih h
      · rename_i hnew
        have hnew' : ((candidates ++ [capabilityCandidate e key]).map
            CapabilityCandidate.name).Nodup := by
          rw [List.map_append, List.nodup_append]
          refine ⟨h, List.nodup_singleton _, ?_⟩
          rintro _ hname _ hkey rfl
          obtain ⟨c, hc, rfl⟩ := List.mem_map.mp hname
          refine hnew (List.any_eq_true.mpr ⟨c, hc, ?_⟩)
          simpa [capabilityCandidate] using hkey
        split
        · exact hnew'
        · exact ih hnew'

/-- A key that is left out finds the list full. -/
theorem mem_or_full (candidates : List CapabilityCandidate) {entries : List Memory} {e : Memory}
    {key : Str} (he : e ∈ entries) (hkey : candidateKey? e = some key) :
    key ∈ (capabilityCandidates candidates entries).map CapabilityCandidate.name ∨
      MAX_COMMANDS ≤ (capabilityCandidates candidates entries).length := by
  induction entries generalizing candidates with
  | nil => cases he
  | cons e' entries ih =>
    have hlast (candidates : List CapabilityCandidate) (more : List Memory)
        (h : key ∈ candidates.map CapabilityCandidate.name) :
        key ∈ (capabilityCandidates candidates more).map CapabilityCandidate.name :=
      List.map_subset _ (subset_capabilityCandidates candidates more) h
    rw [capabilityCandidates]
    obtain rfl | he := List.mem_cons.mp he
    · rw [hkey]
      dsimp only
      split
      · rename_i hany
        obtain ⟨c, hc, hname⟩ := List.any_eq_true.mp hany
        exact .inl (hlast _ _ (List.mem_map.mpr ⟨c, hc, of_decide_eq_true hname⟩))
      · split
        · exact .inl (by simp [capabilityCandidate])
        · exact .inl (hlast _ _ (by simp [capabilityCandidate]))
    · split
      · exact ih _ he
      · split
        · exact ih _ he
        · split
          · rename_i hfull
            exact .inr (by rwa [List.length_append])
          · exact ih _ he

theorem mem_of_head {entries : List Memory} {e : Memory} {key : Str}
    (hkey : candidateKey? e = some key) :
    key ∈ (capabilityCandidates [] (e :: entries)).map CapabilityCandidate.name := by
  have hfirst : capabilityCandidates [] (e :: entries) =
      capabilityCandidates [capabilityCandidate e key] entries := by
    rw [capabilityCandidates, hkey]
    rfl
  rw [hfirst]
  exact List.map_subset CapabilityCandidate.name (subset_capabilityCandidates _ entries)
    List.mem_cons_self

/-- No key is left out where there are ten at most. -/
theorem mem_of_few {entries : List Memory} (names : List Str) (hlen : names.length ≤ MAX_COMMANDS)
    (hnames : ∀ e ∈ entries, ∀ key, candidateKey? e = some key → key ∈ names)
    {e : Memory} {key : Str} (he : e ∈ entries) (hkey : candidateKey? e = some key) :
    key ∈ (capabilityCandidates [] entries).map CapabilityCandidate.name := by
  obtain hmem | hfull := mem_or_full [] he hkey
  · exact hmem
  · have hnodup := @nodup_capabilityCandidates [] entries List.nodup_nil
    have hsub : (capabilityCandidates [] entries).map CapabilityCandidate.name ⊆ names := by
      intro name hname
      obtain ⟨c, hc, rfl⟩ := List.mem_map.mp hname
      obtain hc | ⟨e', he', hkey', -⟩ := capabilityCandidates_names c hc
      · cases hc
      · exact hnames e' he' _ hkey'
    have hperm := (hnodup.subperm hsub).perm_of_length_le (by rw [List.length_map]; omega)
    exact hperm.mem_iff.mpr (hnames e he key hkey)

theorem extractKeyPrefix_ne_nil {e : Memory} {key : Str} (hkey : candidateKey? e = some key) :
    extractKeyPrefix key ≠ [] := by
  have hkebab : isKebabCase key = true := by
    rw [candidateKey?] at hkey
    split at hkey
    · exact (Option.filter_eq_some_iff.mp hkey).2
    · cases hkey
  cases key with
  | nil => cases hkebab
  | cons c rest =>
    have hc : pythonText.isLower c = true := by
      rw [isKebabCase] at hkebab
      split at hkebab
      · cases hkebab
      · rename_i c' rest' heq
        rw [Bool.and_eq_true, Bool.and_eq_true] at hkebab
        split at heq
        · cases rest with
          | nil => cases heq
          | cons d rest => exact (List.cons.inj heq).1 ▸ hkebab.1.1
        · exact (List.cons.inj heq).1 ▸ hkebab.1.1
    have hdash : c ≠ '-' := by
      rintro rfl
      cases hc
    rw [extractKeyPrefix, List.takeWhile_cons_of_pos (by simp [hdash])]
    exact List.cons_ne_nil _ _

/-! The rows of either way. -/

theorem Draft.row_isActive (d : Draft) : d.row.isActive = true := rfl

theorem produced_row (s : Store) (e : Entity) {c : CapabilityCandidate}
    (htype : c.type = "skill".toList) :
    (distillDraft s e c).row.produced =
      ⟨c.name, "skill".toList, c.requiredKnowledge.getD [], scopeOf (s.orgOf e), s.orgOf e,
        none⟩ := by
  simp only [distillDraft, Draft.row, CapabilityMarketEntry.produced, htype]
  rfl

theorem name_of_produced (r r' : CapabilityMarketEntry) (h : r.produced = r'.produced) :
    r.name = r'.name :=
  congrArg Produced.name h

def newRows (s : Store) (e : Entity) (cs : List CapabilityCandidate) :
    List CapabilityMarketEntry :=
  cs.map fun c => (distillDraft s e c).row

theorem isActive_of_mem_newRows {s : Store} {e : Entity} {cs : List CapabilityCandidate} :
    ∀ r ∈ newRows s e cs, r.isActive = true := by
  intro r hr
  obtain ⟨c, -, rfl⟩ := List.mem_map.mp hr
  rfl

theorem newRows_names (s : Store) (e : Entity) (cs : List CapabilityCandidate) :
    (newRows s e cs).map CapabilityMarketEntry.name = cs.map CapabilityCandidate.name := by
  rw [newRows, List.map_map]
  rfl

theorem upsert_candidates (s : Store) (e : Entity) (cs : List CapabilityCandidate) :
    (upsertCapabilities s (cs.map (distillDraft s e))).1 = (getOrAddAll
      CapabilityMarketEntry.isActive CapabilityMarketEntry.name s.market (newRows s e cs)).1 := by
  rw [upsertCapabilities_fst, List.map_map]
  rfl

/-- The first of the candidates of that name. -/
def candidate? (cs : List CapabilityCandidate) (name : Str) : Option CapabilityCandidate :=
  cs.find? fun c => c.name = name

theorem firstUnder_newRows (s : Store) (e : Entity) (cs : List CapabilityCandidate) (name : Str) :
    firstUnder CapabilityMarketEntry.isActive CapabilityMarketEntry.name (newRows s e cs) name =
      (candidate? cs name).map fun c => (distillDraft s e c).row :=
  firstUnder_map (fun c => Draft.row_isActive (distillDraft s e c)) cs

theorem mem_of_candidate? {cs : List CapabilityCandidate} {name : Str} {c : CapabilityCandidate}
    (h : candidate? cs name = some c) : c ∈ cs ∧ c.name = name := by
  rw [candidate?] at h
  exact ⟨List.mem_of_find?_eq_some h, by simpa using List.find?_some h⟩

/-! The law. -/

theorem distillEntity_capabilities {s : Store} {e : Entity} {request : DistillRequest}
    (hentity : s.activeEntity? e.id = some e) (hall : request.memoryKindFilter.getD [] = [])
    (scan : List Memory) :
    capabilitiesOf (distillEntity (.ok ()) s scan e.id request) =
      (upsertCapabilities s ((capabilityCandidates [] scan).map (distillDraft s e))).1 := by
  have hselect : request.select scan = scan := by
    rw [DistillRequest.select]
    split
    · rfl
    · rfl
    · rename_i kinds hne heq
      rw [heq] at hall
      exact absurd hall hne
  have hfind : s.entities.find? e.id = some e := (Option.filter_eq_some_iff.mp hentity).1
  cases scan with
  | nil =>
    simp only [distillEntity, distill, hentity, hfind, hselect]
    rfl
  | cons m scan =>
    simp only [distillEntity, distill, hentity, hfind, hselect]
    rfl

section

variable (lower : Str → Str) (s : Store) (e : Entity)

/-- The slug of every memory that the directive reads is a key that the endpoint distils, and the
other way round; and where the market has no such name yet, the first memory with that slug asks
for the knowledge that the slug begins with. -/
structure Matches : Prop where
  named : ∀ m ∈ oldestMemories s e.id 10, ∃ entry ∈ s.activeMemories e.id,
    candidateKey? entry = some (slugifyCapabilityName lower (seedText m))
  noted : ∀ entry ∈ s.activeMemories e.id, ∀ key, candidateKey? entry = some key →
    ∃ m ∈ oldestMemories s e.id 10, slugifyCapabilityName lower (seedText m) = key
  known : ∀ m name,
    firstUnder CapabilityMarketEntry.isActive CapabilityMarketEntry.name s.market name = none →
    (oldestMemories s e.id 10).find?
      (fun m => slugifyCapabilityName lower (seedText m) = name) = some m →
    (knowledgeSlugsForMemory lower m.key).getD [] = [extractKeyPrefix name]

variable {lower s e}

theorem candidate?_memories {name : Str} :
    candidate? (distillMemoryCandidates lower s e.id) name =
      ((oldestMemories s e.id 10).find?
        fun m => slugifyCapabilityName lower (seedText m) = name).map (memoryCandidate lower) := by
  rw [candidate?, distillMemoryCandidates, List.find?_map]
  rfl

/-- Of one name, the two ways make one capability exactly when they ask for the same knowledge. -/
theorem produced_eq_iff {m : Memory} {entry : Memory} {key : Str}
    (hkey : candidateKey? entry = some key)
    (hname : slugifyCapabilityName lower (seedText m) = key) :
    (distillDraft s e (capabilityCandidate entry key)).row.produced =
        (distillDraft s e (memoryCandidate lower m)).row.produced ↔
      (knowledgeSlugsForMemory lower m.key).getD [] = [extractKeyPrefix key] := by
  have hprefix : (extractKeyPrefix key).isEmpty = false := by
    simpa using extractKeyPrefix_ne_nil hkey
  rw [produced_row s e rfl, produced_row s e rfl]
  simp only [memoryCandidate, capabilityCandidate, hname, hprefix, Bool.false_eq_true, if_false,
    Option.getD_some, Produced.mk.injEq, true_and, and_true]
  exact eq_comm

theorem Matches.names (h : Matches lower s e) {scan : List Memory}
    (hscan : scan.Perm (s.activeMemories e.id)) (name : Str) :
    name ∈ (distillMemoryCandidates lower s e.id).map CapabilityCandidate.name ↔
      name ∈ (capabilityCandidates [] scan).map CapabilityCandidate.name := by
  constructor
  · intro hname
    rw [distillMemoryCandidates, List.map_map] at hname
    obtain ⟨m, hm, rfl⟩ := List.mem_map.mp hname
    obtain ⟨entry, hentry, hkey⟩ := h.named m hm
    refine mem_of_few ((oldestMemories s e.id 10).map
      fun m => slugifyCapabilityName lower (seedText m)) ?_ ?_ (hscan.mem_iff.mpr hentry) hkey
    · rw [List.length_map]
      exact List.length_take_le 10 _
    · intro entry hentry key hkey
      obtain ⟨m, hm, rfl⟩ := h.noted entry (hscan.mem_iff.mp hentry) key hkey
      exact List.mem_map_of_mem hm
  · intro hname
    obtain ⟨c, hc, rfl⟩ := List.mem_map.mp hname
    obtain hc | ⟨entry, hentry, hkey, -⟩ := capabilityCandidates_names c hc
    · cases hc
    · obtain ⟨m, hm, heq⟩ := h.noted entry (hscan.mem_iff.mp hentry) _ hkey
      rw [distillMemoryCandidates, List.map_map, ← heq]
      exact List.mem_map_of_mem hm

/-- The first candidates of a name that is new look the same. -/
theorem Matches.produced (h : Matches lower s e) {scan : List Memory} {name : Str}
    {c c' : CapabilityCandidate}
    (hnew : firstUnder CapabilityMarketEntry.isActive CapabilityMarketEntry.name s.market name =
      none)
    (hc : candidate? (distillMemoryCandidates lower s e.id) name = some c)
    (hc' : candidate? (capabilityCandidates [] scan) name = some c') :
    (distillDraft s e c').row.produced = (distillDraft s e c).row.produced := by
  obtain ⟨hmem', rfl⟩ := mem_of_candidate? hc'
  obtain hmem' | ⟨entry, -, hkey, heq⟩ := capabilityCandidates_names c' hmem'
  · cases hmem'
  rw [candidate?_memories] at hc
  obtain ⟨m, hm, rfl⟩ := Option.map_eq_some_iff.mp hc
  rw [heq]
  exact (produced_eq_iff hkey (by simpa using List.find?_some hm)).mpr
    (h.known m _ hnew hm)

theorem Matches.same (h : Matches lower s e) {scan : List Memory}
    (hscan : scan.Perm (s.activeMemories e.id)) :
    SameCapabilities (distillDirective lower s e).1
      (upsertCapabilities s ((capabilityCandidates [] scan).map (distillDraft s e))).1 := by
  have hnames := h.names hscan
  rw [distillDirective, upsert_candidates, upsert_candidates]
  simp only [← newRows_names s e] at hnames
  intro c
  constructor
  · refine getOrAddAll_views_subset isActive_of_mem_newRows isActive_of_mem_newRows
      (fun name => (hnames name).mp) ?_ c
    intro name r hnew hr
    obtain ⟨r', hr'⟩ := exists_firstUnder_of_key isActive_of_mem_newRows ((hnames name).mp
      ((firstUnder_eq_some hr).2.2 ▸ List.mem_map_of_mem (firstUnder_eq_some hr).1))
    refine ⟨r', hr', ?_⟩
    rw [firstUnder_newRows] at hr hr'
    obtain ⟨c, hc, rfl⟩ := Option.map_eq_some_iff.mp hr
    obtain ⟨c', hc', rfl⟩ := Option.map_eq_some_iff.mp hr'
    exact h.produced hnew hc hc'
  · refine getOrAddAll_views_subset isActive_of_mem_newRows isActive_of_mem_newRows
      (fun name => (hnames name).mpr) ?_ c
    intro name r hnew hr
    obtain ⟨r', hr'⟩ := exists_firstUnder_of_key isActive_of_mem_newRows ((hnames name).mpr
      ((firstUnder_eq_some hr).2.2 ▸ List.mem_map_of_mem (firstUnder_eq_some hr).1))
    refine ⟨r', hr', ?_⟩
    rw [firstUnder_newRows] at hr hr'
    obtain ⟨c, hc, rfl⟩ := Option.map_eq_some_iff.mp hr
    obtain ⟨c', hc', rfl⟩ := Option.map_eq_some_iff.mp hr'
    exact (h.produced hnew hc' hc).symm

theorem matches_of_same
    (h : ∀ scan, scan.Perm (s.activeMemories e.id) →
      SameCapabilities (distillDirective lower s e).1
        (upsertCapabilities s ((capabilityCandidates [] scan).map (distillDraft s e))).1) :
    Matches lower s e := by
  simp only [distillDirective, upsert_candidates] at h
  have hdirective (scan : List Memory) (hscan : scan.Perm (s.activeMemories e.id)) :
      ∀ name ∈ (distillMemoryCandidates lower s e.id).map CapabilityCandidate.name,
        name ∈ (capabilityCandidates [] scan).map CapabilityCandidate.name := by
    have hkeys := keys_subset_of_views isActive_of_mem_newRows isActive_of_mem_newRows
      name_of_produced fun c => (h scan hscan c).mp
    rwa [newRows_names, newRows_names] at hkeys
  have hendpoint (scan : List Memory) (hscan : scan.Perm (s.activeMemories e.id)) :
      ∀ name ∈ (capabilityCandidates [] scan).map CapabilityCandidate.name,
        name ∈ (distillMemoryCandidates lower s e.id).map CapabilityCandidate.name := by
    have hkeys := keys_subset_of_views isActive_of_mem_newRows isActive_of_mem_newRows
      name_of_produced fun c => (h scan hscan c).mpr
    rwa [newRows_names, newRows_names] at hkeys
  constructor
  · intro m hm
    have hname := hdirective _ (.refl _) (slugifyCapabilityName lower (seedText m)) <| by
      rw [distillMemoryCandidates, List.map_map]
      exact List.mem_map_of_mem (f := fun m => slugifyCapabilityName lower (seedText m)) hm
    obtain ⟨c, hc, heq⟩ := List.mem_map.mp hname
    obtain hc | ⟨entry, hentry, hkey, -⟩ := capabilityCandidates_names c hc
    · cases hc
    · exact ⟨entry, hentry, heq ▸ hkey⟩
  · intro entry hentry key hkey
    -- The endpoint may read that entry first.
    obtain ⟨rest, hperm⟩ := exists_perm_cons hentry
    have hname := hendpoint (entry :: rest) hperm.symm key (mem_of_head hkey)
    rw [distillMemoryCandidates, List.map_map] at hname
    exact List.mem_map.mp hname
  · intro m name hnew hm
    have hfound : firstUnder CapabilityMarketEntry.isActive CapabilityMarketEntry.name
        (newRows s e (distillMemoryCandidates lower s e.id)) name =
          some (distillDraft s e (memoryCandidate lower m)).row := by
      rw [firstUnder_newRows, candidate?_memories, hm]
      rfl
    obtain ⟨r', hr', hview⟩ := firstUnder_view_of_views isActive_of_mem_newRows
      isActive_of_mem_newRows name_of_produced (fun c => (h _ (.refl _) c).mp) hnew hfound
    rw [firstUnder_newRows] at hr'
    obtain ⟨c', hc', rfl⟩ := Option.map_eq_some_iff.mp hr'
    obtain ⟨hmem', rfl⟩ := mem_of_candidate? hc'
    obtain hmem' | ⟨entry, -, hkey, heq⟩ := capabilityCandidates_names c' hmem'
    · cases hmem'
    · rw [heq] at hview
      exact (produced_eq_iff hkey (by simpa using List.find?_some hm)).mp hview

end

/-- The directive and the endpoint come to the same capabilities, in whatever order the endpoint
reads the memories, exactly when the memories match. -/
theorem distilled_alike_iff (lower : Str → Str) (s : Store) (e : Entity) (request : DistillRequest)
    (permission : Except Failure Unit) (hentity : s.activeEntity? e.id = some e)
    (hpermission : permission = .ok ()) (hall : request.memoryKindFilter.getD [] = []) :
    (∀ scan, scan.Perm (s.activeMemories e.id) →
      SameCapabilities (distillDirective lower s e).1
        (capabilitiesOf (distillEntity permission s scan e.id request))) ↔
      Matches lower s e := by
  subst hpermission
  simp only [distillEntity_capabilities hentity hall]
  exact ⟨matches_of_same, fun h scan => h.same⟩

/-- `str.lower`, of ASCII. -/
def asciiLower (text : Str) : Str := text.map Char.toLower

def heron : Entity := ⟨"heron", "marsh", "heron".toList, none⟩

def tideNote (kind : String) : Memory :=
  ⟨"heron", kind.toList, some "tide-table".toList, some "Read it first.".toList, 7, false⟩

/-- One memory, of the given kind, and an empty market. -/
def marsh (kind : String) : Store where
  entities := ⟨[heron], List.nodup_singleton _⟩
  namespaces := ⟨[⟨"marsh", "delta", false⟩], List.nodup_singleton _⟩
  memories := [tideNote kind]
  market := []
  uniqueName := List.nodup_nil

theorem distilled_alike_marsh :
    SameCapabilities (distillDirective asciiLower (marsh "lesson") heron).1
      (capabilitiesOf (distillEntity (.ok ()) (marsh "lesson") [tideNote "lesson"] "heron"
        ⟨none, none⟩)) := by
  have hold : oldestMemories (marsh "lesson") "heron" 10 = [tideNote "lesson"] := rfl
  have hactive : (marsh "lesson").activeMemories "heron" = [tideNote "lesson"] := rfl
  have hkey : candidateKey? (tideNote "lesson") = some "tide-table".toList := by decide +kernel
  have hslug : slugifyCapabilityName asciiLower (seedText (tideNote "lesson")) =
      "tide-table".toList := by decide +kernel
  refine (distilled_alike_iff asciiLower (marsh "lesson") heron ⟨none, none⟩ (.ok ()) rfl rfl
    rfl).mpr ⟨?_, ?_, ?_⟩ [tideNote "lesson"] (.refl _)
  · intro m hm
    obtain rfl := List.mem_singleton.mp (hold ▸ hm)
    exact ⟨_, hactive ▸ List.mem_singleton_self _, hslug ▸ hkey⟩
  · intro entry hentry key hk
    obtain rfl := List.mem_singleton.mp (hactive ▸ hentry)
    rw [hkey] at hk
    exact ⟨_, hold ▸ List.mem_singleton_self _, hslug.trans (Option.some.inj hk)⟩
  · intro m name _ hm
    have hmem := List.mem_of_find?_eq_some hm
    have hname : slugifyCapabilityName asciiLower (seedText m) = name := by
      simpa using List.find?_some hm
    obtain rfl := List.mem_singleton.mp (hold ▸ hmem)
    rw [← hname, hslug]
    decide +kernel

/-- An experience is a capability to the directive only. -/
theorem not_distilled_alike : ¬ ∀ scan,
    scan.Perm ((marsh "experience").activeMemories "heron") →
      SameCapabilities (distillDirective asciiLower (marsh "experience") heron).1
        (capabilitiesOf (distillEntity (.ok ()) (marsh "experience") scan "heron" ⟨none, none⟩)) := by
  intro h
  have hdirective := (h _ (.refl _) ⟨"tide-table".toList, "skill".toList, ["tide".toList], .org,
    some "delta", none⟩).mp (by decide +kernel)
  revert hdirective
  decide +kernel

end Eyot.Learning
