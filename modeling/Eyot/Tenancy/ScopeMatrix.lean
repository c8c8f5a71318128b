import Eyot.Library.Run
import Eyot.Tenancy.Requests

/-! Which requests leave every active row inside the matrix of its scope. -/

namespace Eyot.Tenancy

open Market (CloneNames)

variable {s s' : State} {kind : Kind}

/-- Every active row has just the ids that its scope wants. -/
def Filled (s : State) : Prop :=
  ∀ kind, ∀ r ∈ (s.resources kind).rows, r.deleted = false → Matrix r.scope r.ids

theorem filled_empty : Filled .empty := by
  intro kind r hr
  cases hr

theorem filled_congr (h : s'.resources = s.resources) : Filled s' ↔ Filled s := by
  simp only [Filled, h]

theorem Filled.active {id : Id} {r : ScopedRow} (hs : Filled s) (h : s.active? kind id = some r) :
    Matrix r.scope r.ids := by
  obtain ⟨hr, hlive⟩ := Option.filter_eq_some_iff.mp h
  exact hs kind r (Table.find?_mem hr) (by simpa using hlive)

/-! What the changes to one table do. -/

theorem filled_insertRow {row : ScopedRow} (hrow : row.deleted = false)
    (h : s.insertRow kind row = some s') : Filled s' ↔ Filled s ∧ Matrix row.scope row.ids := by
  obtain ⟨rows, hrows, rfl⟩ := State.insertRow_eq_some h
  have hmem : ∀ k r, r ∈ ((s.setRows kind rows).resources k).rows ↔
      r ∈ (s.resources k).rows ∨ k = kind ∧ r = row := by
    intro k r
    by_cases hk : k = kind
    · subst hk
      simp [Table.insert?_rows hrows]
    · simp [hk]
  simp only [Filled, hmem]
  constructor
  · intro h
    exact ⟨fun k r hr => h k r (.inl hr), h kind row (.inr ⟨rfl, rfl⟩) hrow⟩
  · rintro ⟨hs, hmatrix⟩ k r (hr | ⟨rfl, rfl⟩) hlive
    · exact hs k r hr hlive
    · exact hmatrix

/-- A change that revives nothing and leaves scope and ids alone. -/
def Harmless (f : ScopedRow → ScopedRow) : Prop :=
  ∀ r, (f r).deleted = false → r.deleted = false ∧ (f r).scope = r.scope ∧ (f r).ids = r.ids

theorem harmless_patch (name : Option Str) (inlined : Option (List Str)) :
    Harmless (ScopedRow.patch name inlined) := fun _ hlive => ⟨hlive, rfl, rfl⟩

theorem harmless_softDelete : Harmless ScopedRow.softDelete := by
  intro r hlive
  cases hlive

theorem Filled.updateWhere {f : ScopedRow → ScopedRow} (hs : Filled s) (hharmless : Harmless f)
    (kind : Kind) (p : ScopedRow → Bool) (hf : ∀ r, (f r).id = r.id) :
    ∀ r ∈ ((s.resources kind).updateWhere p f hf).rows, r.deleted = false →
      Matrix r.scope r.ids := by
  intro r hr hlive
  obtain ⟨old, hold, rfl⟩ := Table.mem_updateWhere.mp hr
  cases hp : p old with
  | false =>
    rw [hp] at hlive
    exact hs kind old hold hlive
  | true =>
    rw [hp] at hlive
    obtain ⟨hlive, hscope, hids⟩ := hharmless old hlive
    rw [if_pos rfl, hscope, hids]
    exact hs kind old hold hlive

theorem Filled.setRows {rows : Table ScopedRow.id} (hs : Filled s)
    (hrows : ∀ r ∈ rows.rows, r.deleted = false → Matrix r.scope r.ids) :
    Filled (s.setRows kind rows) := by
  intro k r hr
  by_cases hk : k = kind
  · subst hk
    rw [State.setRows_resources, Function.update_self] at hr
    exact hrows r hr
  · rw [State.setRows_resources, Function.update_of_ne hk] at hr
    exact hs k r hr

theorem createOrganization_resources {id : Id} {slug : Str}
    (h : createOrganization s id slug = some s') : s'.resources = s.resources := by
  rw [createOrganization] at h
  split at h
  · cases h
  · obtain ⟨organizations, _, rfl⟩ := Option.map_eq_some_iff.mp h
    rfl

theorem insertEntity_resources {e : Entity} (h : insertEntity s e = some s') :
    s'.resources = s.resources := by
  rw [insertEntity] at h
  split at h
  · cases h
  · obtain ⟨entities, _, rfl⟩ := Option.map_eq_some_iff.mp h
    rfl

theorem copyEntity_resources {source : Id} {copy : Entity} (h : copyEntity s source copy = some s') :
    s'.resources = s.resources := by
  obtain ⟨s₁, h₁, rfl⟩ := Option.map_eq_some_iff.mp h
  have heq : s₁.resources = s.resources := insertEntity_resources h₁
  exact heq

theorem copyEntities_resources {names : CloneNames} {es : List Entity}
    (h : copyEntities names s es = some s') : s'.resources = s.resources := by
  induction es generalizing s with
  | nil =>
    cases h
    rfl
  | cons e es ih =>
    rw [copyEntities] at h
    split at h
    · rename_i s₁ h₁
      rw [ih h, copyEntity_resources h₁]
    · cases h

/-! The requests. -/

theorem filled_createRow {id : Id} {name : Str} {inlined : List Str} {scope : Scope}
    {ids : ScopeIds} {currentOrgId : Option Id} (hs : Filled s)
    (h : createRow s kind id name inlined scope ids currentOrgId = some s') : Filled s' := by
  rw [createRow] at h
  split at h
  · cases h
  · split at h
    · cases h
    · rename_i ids' hids
      exact (filled_insertRow rfl h).mpr ⟨hs, matrix_of_validateScopeFks hids⟩

theorem filled_patchRow {id : Id} {name : Option Str} {inlined : Option (List Str)}
    (hs : Filled s) (h : patchRow s kind id name inlined = some s') : Filled s' := by
  rw [patchRow] at h
  split at h
  · cases h
  · split at h
    · cases h
    · cases h
      apply hs.setRows
      exact hs.updateWhere (harmless_patch name inlined) kind _ _

theorem filled_deleteRow {id : Id} (hs : Filled s) (h : deleteRow s kind id = some s') :
    Filled s' := by
  rw [deleteRow] at h
  split at h
  · cases h
  · split at h
    · cases h
    · cases h
      apply hs.setRows
      exact hs.updateWhere harmless_softDelete kind _ _

theorem filled_deleteOrganization {orgId : Id} (hs : Filled s)
    (h : deleteOrganization s orgId = some s') : Filled s' := by
  obtain ⟨_, _, rfl⟩ := Option.map_eq_some_iff.mp h
  intro kind
  exact hs.updateWhere harmless_softDelete kind _ ScopedRow.softDelete_id

theorem matrix_learnedRow (id : Id) (name : Str) (org : Option Id) :
    Matrix (learnedRow id name org).scope (learnedRow id name org).ids := by
  cases org with
  | none => exact ⟨rfl, rfl, rfl⟩
  | some org => exact ⟨rfl, rfl, rfl⟩

theorem filled_upsertCapability {newId cap : Id} {name : Str} {org : Option Id} (hs : Filled s)
    (h : upsertCapability s newId name org = some (s', cap)) : Filled s' := by
  rw [upsertCapability] at h
  split at h
  · cases h
    exact hs
  · obtain ⟨s₁, h₁, heq⟩ := Option.map_eq_some_iff.mp h
    cases heq
    exact (filled_insertRow rfl h₁).mpr ⟨hs, matrix_learnedRow newId name org⟩

theorem filled_upsertAll {org : Option Id} {names : List (Str × Id)} {caps : List Id}
    (hs : Filled s) (h : upsertAll org s names = some (s', caps)) : Filled s' := by
  induction names generalizing s caps with
  | nil =>
    cases h
    exact hs
  | cons n names ih =>
    rw [upsertAll] at h
    split at h
    · cases h
    · rename_i s₁ cap h₁
      obtain ⟨r, hr, heq⟩ := Option.map_eq_some_iff.mp h
      cases heq
      exact ih (filled_upsertCapability hs h₁) hr

/-- An upload is the one row too many. -/
theorem filled_uploadNew {names : List (Str × Id)} (h : uploadNew s names = some s') :
    Filled s' ↔ Filled s ∧ ∀ n ∈ names, (s.named? .capability n.1).isSome := by
  induction names generalizing s with
  | nil =>
    cases h
    simp
  | cons n names ih =>
    rw [uploadNew] at h
    split at h
    · rename_i cap hcap
      rw [ih h]
      simp [hcap]
    · rename_i hnone
      split at h
      · cases h
      · rename_i s₁ h₁
        apply iff_of_false
        · intro hs'
          obtain ⟨horg, -, -⟩ := ((filled_insertRow rfl h₁).mp ((ih h).mp hs').1).2
          cases horg
        · rintro ⟨-, hall⟩
          have := hall n List.mem_cons_self
          rw [hnone] at this
          cases this

theorem filled_distillEntity {id : Id} {names : List Str} {newIds : Nat → Id} (hs : Filled s)
    (h : distillEntity s id names newIds = some s') : Filled s' := by
  rw [distillEntity] at h
  split at h
  · cases h
  · obtain ⟨⟨s₁, caps⟩, h₁, rfl⟩ := Option.map_eq_some_iff.mp h
    have hs₁ : Filled s₁ := filled_upsertAll hs h₁
    exact hs₁

theorem filled_routeLearningDirective {targetSlug : Str} {scan : Nat} {names : List Str}
    {newIds : Nat → Id} (hs : Filled s)
    (h : routeLearningDirective s targetSlug scan names newIds = some s') : Filled s' := by
  simp only [routeLearningDirective] at h
  split at h
  · cases h
  · exact filled_distillEntity hs h

theorem filled_promoteEntity {id : Id} {reaped : List Str} {newIds : Nat → Id} (hs : Filled s)
    (h : promoteEntity s id reaped newIds = some s') : Filled s' := by
  rw [promoteEntity] at h
  split at h
  · cases h
  · obtain ⟨⟨s₁, caps⟩, h₁, rfl⟩ := Option.map_eq_some_iff.mp h
    have hs₁ : Filled s₁ := filled_upsertAll hs h₁
    exact hs₁

theorem filled_forkEntity {id newId : Id} {newSlug : Str} {reaped : List Str}
    {newIds : Nat → Id} (hs : Filled s)
    (h : forkEntity s id newId newSlug reaped newIds = some s') : Filled s' := by
  rw [forkEntity] at h
  split at h
  · cases h
  · split at h
    · cases h
    · simp only at h
      split at h
      · cases h
      · rename_i s₁ h₁
        have hs₁ : Filled s₁ := (filled_congr (insertEntity_resources h₁)).mpr hs
        obtain ⟨⟨s₂, caps⟩, h₂, rfl⟩ := Option.map_eq_some_iff.mp h
        have hs₂ : Filled s₂ := filled_upsertAll hs₁ h₂
        exact hs₂

theorem filled_transmuteEntity {id newId : Id} {slug : Str} {newIds : Nat → Id} (hs : Filled s)
    (h : transmuteEntity s id newId slug newIds = some s') : Filled s' := by
  rw [transmuteEntity] at h
  split at h
  · cases h
  · simp only at h
    split at h
    · cases h
    · rename_i s₁ h₁
      have hs₁ : Filled s₁ := (filled_insertRow rfl h₁).mpr ⟨hs, matrix_learnedRow ..⟩
      obtain ⟨⟨s₂, caps⟩, h₂, rfl⟩ := Option.map_eq_some_iff.mp h
      have hs₂ : Filled s₂ := filled_upsertAll hs₁ h₂
      exact hs₂

/-- The gene has the scope of an organization, and none to go with it. -/
theorem not_filled_combineCapabilities {newId : Id} {names : List Str} {geneSlug : Str}
    {entityId baseClassId : Option Id}
    (h : combineCapabilities s newId names geneSlug entityId baseClassId = some s') :
    ¬Filled s' := by
  rw [combineCapabilities] at h
  split at h
  · cases h
  · obtain ⟨s₁, h₁, rfl⟩ := Option.map_eq_some_iff.mp h
    intro hs'
    obtain ⟨horg, -, -⟩ := ((filled_insertRow rfl h₁).mp hs').2
    cases horg

theorem filled_ensureBuiltinBaseClass {newId : Id} {slug : Str} {legacy : Option Str}
    (hs : Filled s) (h : ensureBuiltinBaseClass s newId slug legacy = some s') : Filled s' := by
  rw [ensureBuiltinBaseClass] at h
  split at h
  · cases h
    exact hs
  · cases h
    exact hs.setRows (hs.updateWhere (harmless_patch (some slug) none) _ _ _)
  · exact (filled_insertRow rfl h).mpr ⟨hs, matrix_learnedRow ..⟩

theorem filled_ensureCommandCapability {newId : Id} {name : Str} {slugs : List Str}
    (hs : Filled s) (h : ensureCommandCapability s newId name slugs = some s') : Filled s' := by
  obtain ⟨⟨s₁, cap⟩, h₁, rfl⟩ := Option.map_eq_some_iff.mp h
  have hs₁ : Filled s₁ := filled_upsertCapability hs h₁
  exact hs₁

theorem filled_ensureKnowledgeSeed {newId : Id} {key : Str} (hs : Filled s)
    (h : ensureKnowledgeSeed s newId key = some s') : Filled s' := by
  rw [ensureKnowledgeSeed] at h
  split at h
  · cases h
    exact hs
  · exact (filled_insertRow rfl h).mpr ⟨hs, matrix_learnedRow ..⟩

theorem filled_copyClass {source : Id} {copy : ScopedRow}
    (h : copyClass s source copy = some s') (hcopy : copy.deleted = false) :
    Filled s' ↔ Filled s ∧ Matrix copy.scope copy.ids := by
  obtain ⟨s₁, h₁, rfl⟩ := Option.map_eq_some_iff.mp h
  exact (filled_congr (s := s₁) rfl).trans (filled_insertRow hcopy h₁)

theorem filled_cloneBaseClass {source newId : Id} {newSlug : Str} {targetOrgId : Option Id}
    (hs : Filled s) (h : cloneBaseClass s source newId newSlug targetOrgId = some s') :
    Filled s' := by
  rw [cloneBaseClass] at h
  split at h
  · cases h
  · rename_i b hb
    have hlive : b.deleted = false := by simpa using (Option.filter_eq_some_iff.mp hb).2
    have hmatrix : Matrix b.scope b.ids := hs.active hb
    split at h
    · cases h
    · exact (filled_copyClass h hlive).mpr ⟨hs, rfl, rfl, rfl⟩
    · exact (filled_copyClass h hlive).mpr ⟨hs, hmatrix⟩

theorem filled_copyClasses {names : CloneNames} {namespaceIds : List Id} {newOrgId : Id}
    {bs : List ScopedRow} (hbs : ∀ b ∈ bs, b.deleted = false)
    (h : copyClasses names namespaceIds newOrgId s bs = some s') :
    Filled s' ↔ Filled s ∧ ∀ b ∈ bs, Matrix b.scope (classCopy names namespaceIds newOrgId b).ids := by
  induction bs generalizing s with
  | nil =>
    cases h
    simp
  | cons b bs ih =>
    rw [copyClasses] at h
    split at h
    · rename_i s₁ h₁
      obtain ⟨hb, hbs⟩ := List.forall_mem_cons.mp hbs
      rw [ih hbs h, filled_copyClass h₁ hb, List.forall_mem_cons, and_assoc]
      rfl
    · cases h

/-- A copied class stays inside the matrix when its namespace is copied along. -/
theorem matrix_classCopy_iff {names : CloneNames} {namespaceIds : List Id} {newOrgId : Id}
    {b : ScopedRow} (hscope : b.scope ≠ .system) (hb : Matrix b.scope b.ids) :
    Matrix b.scope (classCopy names namespaceIds newOrgId b).ids ↔
      ∀ id, b.ids.namespaceId = some id → id ∈ namespaceIds := by
  have hns : ((b.ids.namespaceId.filter fun id => namespaceIds.contains id).map
      names.namespaceId).isSome ↔ ∃ id, b.ids.namespaceId = some id ∧ id ∈ namespaceIds := by
    cases b.ids.namespaceId with
    | none => simp
    | some id => simp [Option.isSome_filter]
  have hcopy : ((classCopy names namespaceIds newOrgId b).ids.namespaceId.isSome ↔
      ∃ id, b.ids.namespaceId = some id ∧ id ∈ namespaceIds) := hns
  cases hbscope : b.scope with
  | system => exact absurd hbscope hscope
  | org =>
    rw [hbscope] at hb
    obtain ⟨-, hnone, hws⟩ := hb
    apply iff_of_true
    · exact ⟨rfl, by simp [classCopy, hnone], hws⟩
    · intro id hid
      rw [hnone] at hid
      cases hid
  | namespaced =>
    rw [hbscope] at hb
    obtain ⟨-, hsome, hws⟩ := hb
    obtain ⟨id, hid⟩ := Option.isSome_iff_exists.mp hsome
    simp only [Matrix, hcopy, hid]
    simp [classCopy, hws]
  | workspace =>
    rw [hbscope] at hb
    obtain ⟨-, hsome, hws⟩ := hb
    obtain ⟨id, hid⟩ := Option.isSome_iff_exists.mp hsome
    simp only [Matrix, hcopy, hid]
    simp [classCopy, hws]

theorem filled_cloneOrganization {orgId newOrgId : Id} {newSlug : Str} {names : CloneNames}
    (hs : Filled s) (h : cloneOrganization s orgId newOrgId newSlug names = some s') :
    Filled s' ↔ ∀ b ∈ sourceClasses s orgId, ∀ id, b.ids.namespaceId = some id →
      id ∈ (sourceNamespaces s orgId).map Market.Namespace.id := by
  rw [cloneOrganization] at h
  split at h
  · cases h
  · obtain ⟨s₁, h₁, h⟩ := Option.bind_eq_some_iff.mp h
    obtain ⟨namespaces, _, h⟩ := Option.bind_eq_some_iff.mp h
    obtain ⟨s₂, h₂, h⟩ := Option.bind_eq_some_iff.mp h
    have hres₁ : s₁.resources = s.resources := createOrganization_resources h₁
    have hres₂ : s₂.resources = s.resources := (copyEntities_resources h₂).trans hres₁
    have hsource : ∀ b ∈ sourceClasses s orgId,
        b ∈ (s.resources .baseClass).rows ∧ b.deleted = false ∧ b.scope ≠ .system := by
      intro b hb
      obtain ⟨hb, hb'⟩ := List.mem_filter.mp hb
      simp only [Bool.and_eq_true, Bool.not_eq_true', decide_eq_true_eq] at hb'
      exact ⟨hb, hb'.1, hb'.2.1⟩
    rw [filled_copyClasses (fun b hb => (hsource b hb).2.1) h, filled_congr hres₂]
    constructor
    · rintro ⟨-, hcopies⟩ b hb
      obtain ⟨hrow, hlive, hscope⟩ := hsource b hb
      exact (matrix_classCopy_iff hscope (hs _ b hrow hlive)).mp (hcopies b hb)
    · intro hns
      refine ⟨hs, ?_⟩
      intro b hb
      obtain ⟨hrow, hlive, hscope⟩ := hsource b hb
      exact (matrix_classCopy_iff hscope (hs _ b hrow hlive)).mpr (hns b hb)

/-! Every request, and every run. -/

/-- What the three requests that put together scope and ids by hand would have to meet. -/
def KeepsMatrix (s : State) : Request → Prop
  | .reap names _ => ∀ name ∈ names, (s.named? .capability name).isSome
  | .combine .. => False
  | .cloneOrganization orgId .. => ∀ b ∈ sourceClasses s orgId, ∀ id, b.ids.namespaceId = some id →
      id ∈ (sourceNamespaces s orgId).map Market.Namespace.id
  | _ => True

/-- The requests that write links, entities, namespaces or organizations only. -/
def Request.leavesResources : Request → Bool
  | .createOrganization .. | .createNamespace .. | .createEntity .. | .updateEntity ..
  | .deleteEntity .. | .deleteNamespace .. | .attachEntityCapability ..
  | .detachEntityCapability .. | .attachEntityAiGene .. | .detachEntityAiGene ..
  | .attachBaseClassCapability .. | .detachBaseClassCapability .. | .attachBaseClassAiGene ..
  | .detachBaseClassAiGene .. | .cloneEntity .. => true
  | _ => false

theorem resources_of_leavesResources {r : Request} (hr : r.leavesResources = true)
    (h : step? s r = some s') : s'.resources = s.resources := by
  cases r with
  | createOrganization id slug => exact createOrganization_resources h
  | createNamespace id orgId =>
    obtain ⟨_, _, rfl⟩ := Option.map_eq_some_iff.mp h
    rfl
  | createEntity id namespaceId slug presetSlug => exact insertEntity_resources h
  | updateEntity id slug presetSlug =>
    simp only [step?, updateEntity] at h
    split at h
    · cases h
    · split at h <;> cases h
      rfl
  | deleteEntity id | deleteNamespace id =>
    obtain ⟨_, _, rfl⟩ := Option.map_eq_some_iff.mp h
    rfl
  | attachEntityCapability id capabilityId =>
    simp only [step?, attachEntityCapability] at h
    split at h <;> cases h
    rfl
  | attachEntityAiGene id geneId =>
    simp only [step?, attachEntityAiGene] at h
    split at h <;> cases h
    rfl
  | attachBaseClassCapability id capabilityId =>
    simp only [step?, attachBaseClassCapability] at h
    split at h <;> cases h
    rfl
  | attachBaseClassAiGene id geneId =>
    simp only [step?, attachBaseClassAiGene] at h
    split at h <;> cases h
    rfl
  | detachEntityCapability id capabilityId =>
    simp only [step?, detachEntityCapability] at h
    split at h
    · obtain ⟨_, _, rfl⟩ := Option.map_eq_some_iff.mp h
      rfl
    · cases h
  | detachEntityAiGene id geneId =>
    simp only [step?, detachEntityAiGene] at h
    split at h
    · obtain ⟨_, _, rfl⟩ := Option.map_eq_some_iff.mp h
      rfl
    · cases h
  | detachBaseClassCapability id capabilityId =>
    simp only [step?, detachBaseClassCapability] at h
    split at h
    · obtain ⟨_, _, rfl⟩ := Option.map_eq_some_iff.mp h
      rfl
    · cases h
  | detachBaseClassAiGene id geneId =>
    simp only [step?, detachBaseClassAiGene] at h
    split at h
    · obtain ⟨_, _, rfl⟩ := Option.map_eq_some_iff.mp h
      rfl
    · cases h
  | cloneEntity source newId newSlug =>
    simp only [step?, cloneEntity] at h
    split at h
    · cases h
    · exact copyEntity_resources h
  | _ => cases hr

theorem filled_step? {r : Request} (hs : Filled s) (h : step? s r = some s') :
    Filled s' ↔ KeepsMatrix s r := by
  cases r with
  | createMarketEntry id name scope organizationId namespaceId currentOrgId =>
    exact iff_of_true (filled_createRow hs h) trivial
  | createAiGene id slug inlined scope organizationId namespaceId currentOrgId =>
    exact iff_of_true (filled_createRow hs h) trivial
  | createBaseClass id slug scope organizationId namespaceId currentOrgId =>
    exact iff_of_true (filled_createRow hs h) trivial
  | createKnowledgeEntry id key scope ids => exact iff_of_true (filled_createRow hs h) trivial
  | createKnowledgeDimension id slug scope ids currentOrgId =>
    exact iff_of_true (filled_createRow hs h) trivial
  | updateMarketEntry id name => exact iff_of_true (filled_patchRow hs h) trivial
  | updateAiGene id inlined => exact iff_of_true (filled_patchRow hs h) trivial
  | updateBaseClass id slug =>
    simp only [step?, updateBaseClass] at h
    split at h
    · cases h
    · exact iff_of_true (filled_patchRow hs h) trivial
  | updateKnowledgeEntry id key => exact iff_of_true (filled_patchRow hs h) trivial
  | updateKnowledgeDimension id slug => exact iff_of_true (filled_patchRow hs h) trivial
  | deleteRow kind id => exact iff_of_true (filled_deleteRow hs h) trivial
  | deleteOrganization id => exact iff_of_true (filled_deleteOrganization hs h) trivial
  | reap names newIds =>
    rw [filled_uploadNew h, and_iff_right hs]
    exact forall_withIds names newIds fun name => (s.named? .capability name).isSome
  | distill id names newIds => exact iff_of_true (filled_distillEntity hs h) trivial
  | learn targetSlug scan names newIds =>
    exact iff_of_true (filled_routeLearningDirective hs h) trivial
  | promote id reaped newIds => exact iff_of_true (filled_promoteEntity hs h) trivial
  | fork id newId newSlug reaped newIds => exact iff_of_true (filled_forkEntity hs h) trivial
  | transmute id newId slug newIds => exact iff_of_true (filled_transmuteEntity hs h) trivial
  | combine newId names geneSlug entityId baseClassId =>
    exact iff_of_false (not_filled_combineCapabilities h) not_false
  | cloneBaseClass source newId newSlug targetOrgId =>
    exact iff_of_true (filled_cloneBaseClass hs h) trivial
  | cloneOrganization orgId newOrgId newSlug names => exact filled_cloneOrganization hs h
  | ensureBuiltinBaseClass newId slug legacy =>
    exact iff_of_true (filled_ensureBuiltinBaseClass hs h) trivial
  | ensureCommandCapability newId name slugs =>
    exact iff_of_true (filled_ensureCommandCapability hs h) trivial
  | ensureKnowledgeSeed newId key =>
    exact iff_of_true (filled_ensureKnowledgeSeed hs h) trivial
  | _ => exact iff_of_true ((filled_congr (resources_of_leavesResources rfl h)).mpr hs) trivial

/-- A request that is refused, or that meets what its path asks for. -/
def PutsTogether (s : State) (r : Request) : Prop := (step? s r).isSome → KeepsMatrix s r

/-- From nothing on, all active rows are inside the matrix just while every request that goes
through keeps it. -/
theorem filled_iff (rs : List Request) :
    Run.Always step Filled .empty rs ↔ Run.Meets step PutsTogether .empty rs := by
  apply Run.always_iff_meets (r := fun _ => True)
  · intro s r _
    trivial
  · intro s r _ hs
    rw [step, PutsTogether]
    cases h : step? s r with
    | none => simp [hs]
    | some s' => simpa using filled_step? hs h
  · trivial
  · exact filled_empty

/-- An instance that is reaped leaves a capability of no organization behind. -/
theorem not_filled_reaped :
    ¬Run.Always step Filled .empty
      [.createOrganization "acme" "acme".toList, .createNamespace "ops" "acme",
        .createEntity "fox" "ops" "fox".toList none,
        .reap ["deploy".toList] fun _ => "deploy"] := by
  intro h
  obtain ⟨horg, -, -⟩ :=
    h.exec .capability ⟨"deploy", "deploy".toList, [], .org, .empty, false⟩ (.head _) rfl
  cases horg

end Eyot.Tenancy
