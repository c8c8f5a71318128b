import Eyot.Data.Rows
import Eyot.Library.Grouped
import Mathlib.Data.Prod.Lex

/-! The knowledge entries, what they hang from, and which of them an entity gets under a key. -/

namespace Eyot.Knowledge

/-- `ck_knowledge_entries_scope` admits no other. -/
inductive Scope where
  | workspace | namespaced | org | system
  deriving DecidableEq

structure KnowledgeEntry where
  id : Id
  key : Str
  title : Str
  body : Str
  dimensionId : Option Id
  scope : Scope
  organizationId : Option Id
  namespaceId : Option Id
  workspaceId : Option Id
  entityId : Option Id
  instanceId : Option Id
  updatedAt : Time
  deletedAt : Option Time
  deriving DecidableEq

def KnowledgeEntry.isActive (e : KnowledgeEntry) : Bool := e.deletedAt.isNone

structure Namespace where
  id : Id
  orgId : Id
  deletedAt : Option Time

structure Db where
  entities : Table Entity.id
  namespaces : Table Namespace.id
  entries : Table KnowledgeEntry.id

def SCOPE_PRIORITY : Scope → Nat
  | .workspace => 0
  | .namespaced => 1
  | .org => 2
  | .system => 3

namespace Db

variable (db : Db)

def scopeChain (entityId : Id) : Option Id × Option Id :=
  match (db.entities.find? entityId).filter fun e => e.deletedAt.isNone with
  | none => (none, none)
  | some entity =>
    match (db.namespaces.find? entity.namespaceId).filter fun n => n.deletedAt.isNone with
    | none => (none, some entity.namespaceId)
    | some n => (some n.orgId, some entity.namespaceId)

end Db

/-- `_visibility_clause`; a comparison with `None` asks for NULL. -/
def visibilityClause (orgId nsId wsId : Option Id) (e : KnowledgeEntry) : Bool :=
  match orgId with
  | none => e.scope = .system
  | some orgId =>
    e.scope = .system ||
      e.scope = .org && e.organizationId = some orgId ||
      e.scope = .namespaced && e.organizationId = some orgId && e.namespaceId = nsId ||
      e.scope = .workspace && e.organizationId = some orgId && e.namespaceId = nsId &&
        e.workspaceId = wsId

/-- `updated_at DESC, id DESC` -/
def recency (e : KnowledgeEntry) : Timeᵒᵈ ×ₗ Idᵒᵈ :=
  toLex (OrderDual.toDual e.updatedAt, OrderDual.toDual e.id)

namespace Db

variable (db : Db)

def candidateRows (entityId : Id) (workspaceId instanceId : Option Id) (keys : List Str) :
    List KnowledgeEntry :=
  let (orgId, nsId) := db.scopeChain entityId
  sortBy recency <| db.entries.rows.filter fun e =>
    e.isActive && visibilityClause orgId nsId workspaceId e &&
      (e.entityId.isNone || e.entityId = some entityId) &&
      (e.instanceId.isNone || e.instanceId = instanceId) &&
      (keys.isEmpty || keys.contains e.key)

/-- The winner of the candidates for one key. -/
def winner? (group : Str × List KnowledgeEntry) : Option KnowledgeEntry :=
  firstOfLeast (fun e => SCOPE_PRIORITY e.scope) group.2

/-- An empty set of keys restricts nothing. -/
def resolveKnowledgeWinners (entityId : Id) (workspaceId instanceId : Option Id)
    (keys : List Str) : List KnowledgeEntry :=
  (grouped KnowledgeEntry.key (db.candidateRows entityId workspaceId instanceId keys)).filterMap winner?

end Db

/-! What the law says. -/

/-- What an entity is in, as far as it is there. -/
structure Home where
  orgId : Id
  namespaceId : Id

def Db.home? (db : Db) (entityId : Id) : Option Home :=
  ((db.entities.find? entityId).filter fun e => e.deletedAt.isNone).bind fun e =>
    ((db.namespaces.find? e.namespaceId).filter fun n => n.deletedAt.isNone).map fun n =>
      ⟨n.orgId, e.namespaceId⟩

/-- The entry belongs to the home, or to the workspace in it, or to nobody. -/
inductive Along (home : Option Home) (workspaceId : Option Id) (e : KnowledgeEntry) : Prop
  | system : e.scope = .system → Along home workspaceId e
  | org (h : Home) : home = some h → e.scope = .org → e.organizationId = some h.orgId →
    Along home workspaceId e
  | namespaced (h : Home) : home = some h → e.scope = .namespaced →
    e.organizationId = some h.orgId → e.namespaceId = some h.namespaceId →
    Along home workspaceId e
  | workspace (h : Home) : home = some h → e.scope = .workspace →
    e.organizationId = some h.orgId → e.namespaceId = some h.namespaceId →
    e.workspaceId = workspaceId → Along home workspaceId e

structure Visible (db : Db) (entityId : Id) (workspaceId instanceId : Option Id)
    (e : KnowledgeEntry) : Prop where
  row : e ∈ db.entries.rows
  active : e.deletedAt = none
  along : Along (db.home? entityId) workspaceId e
  entity : e.entityId = none ∨ e.entityId = some entityId
  instance_ : e.instanceId = none ∨ e.instanceId = instanceId

/-- It is of a nearer scope, or of the same and newer, or as new and of the greater id. -/
def Overrides (w e : KnowledgeEntry) : Prop :=
  SCOPE_PRIORITY w.scope < SCOPE_PRIORITY e.scope ∨
    SCOPE_PRIORITY w.scope = SCOPE_PRIORITY e.scope ∧
      (e.updatedAt < w.updatedAt ∨ e.updatedAt = w.updatedAt ∧ e.id < w.id)

section

variable {db : Db} {entityId : Id} {workspaceId instanceId : Option Id}

theorem visibilityClause_iff {e : KnowledgeEntry} :
    visibilityClause (db.scopeChain entityId).1 (db.scopeChain entityId).2 workspaceId e = true ↔
      Along (db.home? entityId) workspaceId e := by
  have hsystem (h : db.home? entityId = none) :
      Along (db.home? entityId) workspaceId e ↔ e.scope = .system := by
    constructor
    · intro halong
      cases halong with
      | system hscope => exact hscope
      | org home hhome | namespaced home hhome | workspace home hhome =>
        rw [h] at hhome
        cases hhome
    · exact .system
  rw [Db.scopeChain]
  unfold Db.home? at hsystem ⊢
  cases hentity : (db.entities.find? entityId).filter fun e => e.deletedAt.isNone with
  | none =>
    rw [hentity] at hsystem
    rw [hsystem rfl]
    exact decide_eq_true_iff
  | some entity =>
    dsimp only
    rw [hentity] at hsystem
    rw [Option.bind_some] at hsystem ⊢
    cases hns : (db.namespaces.find? entity.namespaceId).filter fun n => n.deletedAt.isNone with
    | none =>
      rw [hns] at hsystem
      rw [hsystem rfl]
      exact decide_eq_true_iff
    | some n =>
      dsimp only
      simp only [visibilityClause, Option.map_some, Bool.or_eq_true, Bool.and_eq_true,
        decide_eq_true_eq]
      constructor
      · rintro (((h | ⟨hscope, horg⟩) | ⟨⟨hscope, horg⟩, hns⟩) | ⟨⟨⟨hscope, horg⟩, hns⟩, hws⟩)
        · exact .system h
        · exact .org _ rfl hscope horg
        · exact .namespaced _ rfl hscope horg hns
        · exact .workspace _ rfl hscope horg hns hws
      · intro halong
        cases halong with
        | system hscope => exact .inl (.inl (.inl hscope))
        | org home hhome hscope horg =>
          cases hhome
          exact .inl (.inl (.inr ⟨hscope, horg⟩))
        | namespaced home hhome hscope horg hns =>
          cases hhome
          exact .inl (.inr ⟨⟨hscope, horg⟩, hns⟩)
        | workspace home hhome hscope horg hns hws =>
          cases hhome
          exact .inr ⟨⟨⟨hscope, horg⟩, hns⟩, hws⟩

theorem mem_candidateRows {keys : List Str} {e : KnowledgeEntry} :
    e ∈ db.candidateRows entityId workspaceId instanceId keys ↔
      Visible db entityId workspaceId instanceId e ∧ (keys = [] ∨ e.key ∈ keys) := by
  rw [Db.candidateRows, mem_sortBy, List.mem_filter]
  simp only [Bool.and_eq_true, Bool.or_eq_true, visibilityClause_iff, KnowledgeEntry.isActive,
    Option.isNone_iff_eq_none, decide_eq_true_eq, List.isEmpty_iff, List.contains_iff_mem]
  constructor
  · rintro ⟨hrow, (⟨⟨⟨hactive, halong⟩, hentity⟩, hinstance⟩), hkeys⟩
    exact ⟨⟨hrow, hactive, halong, hentity, hinstance⟩, hkeys⟩
  · rintro ⟨h, hkeys⟩
    exact ⟨h.row, ⟨⟨⟨h.active, h.along⟩, h.entity⟩, h.instance_⟩, hkeys⟩

theorem candidateRows_keys {keys : List Str} (hkeys : keys ≠ []) :
    db.candidateRows entityId workspaceId instanceId keys =
      (db.candidateRows entityId workspaceId instanceId []).filter fun e => keys.contains e.key := by
  unfold Db.candidateRows
  rw [← sortBy_filter, List.filter_filter]
  refine congrArg (sortBy recency) ?_
  apply List.filter_congr
  intro e _
  have hsome : keys.isEmpty = false := by simpa using hkeys
  simp only [hsome, List.isEmpty_nil, Bool.false_or, Bool.true_or, Bool.and_true]
  exact Bool.and_comm _ _

theorem recency_le {w e : KnowledgeEntry} (h : recency w ≤ recency e) (hid : w.id ≠ e.id) :
    e.updatedAt < w.updatedAt ∨ e.updatedAt = w.updatedAt ∧ e.id < w.id := by
  obtain hlt | ⟨heq, hle⟩ := Prod.Lex.toLex_le_toLex.mp h
  · exact .inl hlt
  · exact .inr ⟨(OrderDual.toDual_inj.mp heq).symm, lt_of_le_of_ne hle hid.symm⟩

/-- The candidates of one key, newest first. -/
theorem group_newest_first {keys : List Str} {group : Str × List KnowledgeEntry}
    (hgroup : group ∈ grouped KnowledgeEntry.key
      (db.candidateRows entityId workspaceId instanceId keys)) :
    group.2.Pairwise fun w e => recency w ≤ recency e := by
  rw [group_eq_under hgroup]
  exact (pairwise_sortBy recency _).filter _

theorem mem_group {keys : List Str} {group : Str × List KnowledgeEntry}
    (hgroup : group ∈ grouped KnowledgeEntry.key
      (db.candidateRows entityId workspaceId instanceId keys)) {e : KnowledgeEntry} :
    e ∈ group.2 ↔ e ∈ db.candidateRows entityId workspaceId instanceId keys ∧ e.key = group.1 := by
  rw [group_eq_under hgroup, mem_under]

theorem mem_winners {keys : List Str} {w : KnowledgeEntry}
    (hw : w ∈ db.resolveKnowledgeWinners entityId workspaceId instanceId keys) :
    ∃ group ∈ grouped KnowledgeEntry.key
        (db.candidateRows entityId workspaceId instanceId keys),
      w.key = group.1 ∧ Db.winner? group = some w := by
  obtain ⟨group, hgroup, hfirst⟩ := List.mem_filterMap.mp hw
  have hmem := (firstOfLeast_spec (group_newest_first hgroup) hfirst).1
  exact ⟨group, hgroup, ((mem_group hgroup).mp hmem).2, hfirst⟩

theorem winners_keys (keys : List Str) :
    (db.resolveKnowledgeWinners entityId workspaceId instanceId keys).map KnowledgeEntry.key =
      (grouped KnowledgeEntry.key
        (db.candidateRows entityId workspaceId instanceId keys)).map Prod.fst := by
  rw [Db.resolveKnowledgeWinners]
  suffices h : ∀ groups ⊆ grouped KnowledgeEntry.key
      (db.candidateRows entityId workspaceId instanceId keys),
      (groups.filterMap Db.winner?).map KnowledgeEntry.key = groups.map Prod.fst from h _ (List.Subset.refl _)
  intro groups hsub
  induction groups with
  | nil => rfl
  | cons group groups ih =>
    obtain ⟨hgroup, hgroups⟩ := List.cons_subset.mp hsub
    obtain ⟨e, he, hkey⟩ := mem_grouped_keys.mp (List.mem_map_of_mem hgroup)
    have hne : group.2 ≠ [] := List.ne_nil_of_mem ((mem_group hgroup).mpr ⟨he, hkey⟩)
    obtain ⟨w, hw⟩ : ∃ w, Db.winner? group = some w := firstOfLeast_isSome hne
    have hmem := (firstOfLeast_spec (group_newest_first hgroup) hw).1
    rw [List.filterMap_cons_some hw, List.map_cons, List.map_cons, ih hgroups,
      ((mem_group hgroup).mp hmem).2]

theorem winner_overrides {w : KnowledgeEntry}
    (hw : w ∈ db.resolveKnowledgeWinners entityId workspaceId instanceId []) :
    Visible db entityId workspaceId instanceId w ∧
      ∀ e, Visible db entityId workspaceId instanceId e → e.key = w.key → e ≠ w →
        Overrides w e := by
  obtain ⟨group, hgroup, hkey, hfirst⟩ := mem_winners hw
  obtain ⟨hmem, hbeats⟩ := firstOfLeast_spec (group_newest_first hgroup) hfirst
  have hvisible := (mem_candidateRows.mp ((mem_group hgroup).mp hmem).1).1
  refine ⟨hvisible, ?_⟩
  intro e he heq hne
  have hcandidate : e ∈ group.2 :=
    (mem_group hgroup).mpr ⟨mem_candidateRows.mpr ⟨he, .inl rfl⟩, heq.trans hkey⟩
  have hid : w.id ≠ e.id := fun hid => hne (db.entries.eq_of_key_eq he.row hvisible.row hid.symm)
  exact (hbeats e hcandidate hne).imp_right fun ⟨hrank, hle⟩ => ⟨hrank, recency_le hle hid⟩

theorem winners_restrict {keys : List Str} (hkeys : keys ≠ []) :
    db.resolveKnowledgeWinners entityId workspaceId instanceId keys =
      (db.resolveKnowledgeWinners entityId workspaceId instanceId []).filter
        fun e => keys.contains e.key := by
  unfold Db.resolveKnowledgeWinners
  rw [candidateRows_keys hkeys, grouped_filter, List.filterMap_filter, List.filter_filterMap]
  apply List.filterMap_congr
  intro group hgroup
  cases hfirst : Db.winner? group with
  | none => simp
  | some w =>
    have hmem := (firstOfLeast_spec (group_newest_first hgroup) hfirst).1
    have hkey := ((mem_group hgroup).mp hmem).2
    rw [← hkey, Option.filter_some]

end

/-- There is one winner for each key that anything visible has, and for no other key; it overrides
all else that is visible under the key; and asking for some keys gives the winners of those. -/
theorem knowledge_override_law (db : Db) (entityId : Id) (workspaceId instanceId : Option Id) :
    (∀ key, (∃ e, Visible db entityId workspaceId instanceId e ∧ e.key = key) ↔
      key ∈ (db.resolveKnowledgeWinners entityId workspaceId instanceId []).map
        KnowledgeEntry.key) ∧
    ((db.resolveKnowledgeWinners entityId workspaceId instanceId []).map
      KnowledgeEntry.key).Nodup ∧
    (∀ w ∈ db.resolveKnowledgeWinners entityId workspaceId instanceId [],
      Visible db entityId workspaceId instanceId w ∧
        ∀ e, Visible db entityId workspaceId instanceId e → e.key = w.key → e ≠ w →
          Overrides w e) ∧
    ∀ keys ≠ [], db.resolveKnowledgeWinners entityId workspaceId instanceId keys =
      (db.resolveKnowledgeWinners entityId workspaceId instanceId []).filter
        fun e => keys.contains e.key := by
  refine ⟨?_, ?_, fun w hw => winner_overrides hw, fun keys hkeys => winners_restrict hkeys⟩
  · intro key
    rw [winners_keys, mem_grouped_keys]
    simp only [mem_candidateRows, true_or, and_true]
  · rw [winners_keys]
    exact grouped_keys_nodup _

end Eyot.Knowledge
