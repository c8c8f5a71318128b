import Eyot.Cerebellum.Migration

/-! What a database comes to when its legacy agents are migrated. -/

namespace Eyot.Cerebellum

variable {uuids : Uuids} {now : Time} {db db' : Db}

/-! Rows that are put in. -/

theorem numberedSlug_injective (base : Str) : Function.Injective (numberedSlug base) := by
  intro m n h
  have htail := (List.cons.inj (List.append_cancel_left h)).2
  rw [Nat.toString_eq_repr, Nat.toString_eq_repr, Nat.toList_repr, Nat.toList_repr] at htail
  have hnum := congrArg (fun l => Nat.ofDigitChars 10 l 0) htail
  simp only [Nat.ofDigitChars_ten_toDigits] at hnum
  exact Nat.add_right_cancel hnum

/-- No active entity of the namespace has the slug. -/
theorem uniqueSlug_free (db : Db) (namespaceId : Id) (base : Str) {e : Entity}
    (he : e ∈ db.entities.rows) (hactive : e.isActive = true) (hns : e.namespaceId = namespaceId) :
    e.slug ≠ uniqueSlug db namespaceId base := by
  intro heq
  have hmem : e.slug ∈ (db.entities.rows.filter fun e =>
      e.namespaceId = namespaceId && e.deletedAt.isNone).map Entity.slug := by
    refine List.mem_map_of_mem (List.mem_filter.mpr ⟨he, ?_⟩)
    rw [decide_eq_true hns]
    exact hactive
  unfold uniqueSlug at heq
  dsimp only at heq
  split at heq
  · rw [heq] at hmem
    exact firstFree_not_mem (numberedSlug_injective base) hmem
  · rename_i hfree
    exact hfree (List.contains_iff_mem.mpr (heq ▸ hmem))

theorem insertEntity_ok {e : Entity} (hid : e.id ∉ db.entities.rows.map Entity.id)
    (hslug : ∀ f ∈ db.entities.rows, f.isActive = true → f.place ≠ e.place)
    (hone : ∀ f ∈ db.entities.rows, f.isActiveCerebellum = true → f.namespaceId ≠ e.namespaceId) :
    ∃ db', db.insertEntity e = .ok db' ∧ db'.entities.rows = db.entities.rows ++ [e] ∧
      db'.agents = db.agents ∧ db'.hubs = db.hubs ∧ db'.workspaces = db.workspaces ∧
      db'.instances = db.instances ∧ db'.events = db.events := by
  obtain ⟨t, ht, hrows⟩ := Table.insert?_of_not_mem hid
  have hunique : UniqueOn Entity.isActive Entity.place t.rows ∧
      UniqueOn Entity.isActiveCerebellum Entity.namespaceId t.rows := by
    rw [hrows]
    refine ⟨db.uniqueSlug.append (.singleton _ _ e) ?_,
      db.uniqueCerebellum.append (.singleton _ _ e) ?_⟩
    · intro f hf e' he' hactive _
      obtain rfl := List.mem_singleton.mp he'
      exact hslug f hf hactive
    · intro f hf e' he' hactive _
      obtain rfl := List.mem_singleton.mp he'
      exact hone f hf hactive
  unfold Db.insertEntity
  split
  · rename_i hnone
    rw [ht] at hnone
    cases hnone
  · rename_i t' ht'
    obtain rfl : t = t' := Option.some.inj (ht.symm.trans ht')
    rw [dif_pos hunique]
    exact ⟨_, rfl, hrows, rfl, rfl, rfl, rfl, rfl⟩

theorem insertInstance_ok {i : Instance} (hid : i.id ∉ db.instances.rows.map Instance.id)
    (hone : ∀ j ∈ db.instances.rows, isActiveInstance j = true →
      placeOfInstance j ≠ placeOfInstance i) :
    ∃ db', db.insertInstance i = .ok db' ∧ db'.instances.rows = db.instances.rows ++ [i] ∧
      db'.agents = db.agents ∧ db'.hubs = db.hubs ∧ db'.workspaces = db.workspaces ∧
      db'.entities = db.entities ∧ db'.events = db.events := by
  obtain ⟨t, ht, hrows⟩ := Table.insert?_of_not_mem hid
  have hunique : UniqueOn isActiveInstance placeOfInstance t.rows := by
    rw [hrows]
    refine db.uniqueInstance.append (.singleton _ _ i) ?_
    intro j hj i' hi' hactive _
    obtain rfl := List.mem_singleton.mp hi'
    exact hone j hj hactive
  unfold Db.insertInstance
  split
  · rename_i hnone
    rw [ht] at hnone
    cases hnone
  · rename_i t' ht'
    obtain rfl : t = t' := Option.some.inj (ht.symm.trans ht')
    rw [dif_pos hunique]
    exact ⟨_, rfl, hrows, rfl, rfl, rfl, rfl, rfl⟩

theorem insertEvent_ok {e : MergedEvent} (hid : e.id ∉ db.events.rows.map MergedEvent.id) :
    ∃ t, db.insertEvent e = .ok { db with events := t } ∧ t.rows = db.events.rows ++ [e] := by
  obtain ⟨t, ht, hrows⟩ := Table.insert?_of_not_mem hid
  unfold Db.insertEvent
  rw [ht]
  exact ⟨t, rfl, hrows⟩

/-! The agents of one namespace. -/

theorem hasInstance_iff {entityId workspaceId : Id} : hasInstance db entityId workspaceId = true ↔
    ∃ i ∈ db.instances.rows, isActiveInstance i = true ∧ i.entityId = entityId ∧
      i.workspaceId = workspaceId := by
  unfold hasInstance
  rw [List.any_eq_true]
  refine exists_congr fun i => and_congr_right fun _ => ?_
  rw [Bool.and_eq_true, Bool.and_eq_true, decide_eq_true_eq, decide_eq_true_eq, and_comm]
  rfl

theorem hasInstance_mono {new : List Instance} (h : db'.instances.rows = db.instances.rows ++ new)
    {entityId workspaceId : Id} (hi : hasInstance db entityId workspaceId = true) :
    hasInstance db' entityId workspaceId = true := by
  rw [hasInstance_iff] at hi ⊢
  obtain ⟨i, hi, hrest⟩ := hi
  exact ⟨i, h ▸ List.mem_append_left _ hi, hrest⟩

/-- What the loop over the agents `ps` does. -/
structure AgentsDone (uuids : Uuids) (entityId : Id) (ps : List Placed) (db db' : Db) : Prop where
  agents : db'.agents = db.agents
  hubs : db'.hubs = db.hubs
  workspaces : db'.workspaces = db.workspaces
  entities : db'.entities = db.entities
  instances : ∃ new, db'.instances.rows = db.instances.rows ++ new ∧ ∀ i ∈ new,
    ∃ p ∈ ps, i = newInstance uuids entityId p ∧ hasInstance db entityId p.workspaceId = false
  events : ∃ new, db'.events.rows = db.events.rows ++ new ∧ ∀ ev ∈ new,
    ∃ p ∈ ps, ev.id = uuids.ofEvent p.agent.id
  covered : ∀ p ∈ ps, hasInstance db' entityId p.workspaceId = true

/-- The ids drawn for agents are taken by no row. -/
def FreshFor (uuids : Uuids) (ps : List Placed) (db : Db) : Prop :=
  ∀ p ∈ ps, uuids.ofInstance p.agent.id ∉ db.instances.rows.map Instance.id ∧
    uuids.ofEvent p.agent.id ∉ db.events.rows.map MergedEvent.id

theorem agentsDone_nil (entityId : Id) : AgentsDone uuids entityId [] db db where
  agents := rfl
  hubs := rfl
  workspaces := rfl
  entities := rfl
  instances := ⟨[], (List.append_nil _).symm, List.forall_mem_nil _⟩
  events := ⟨[], (List.append_nil _).symm, List.forall_mem_nil _⟩
  covered := List.forall_mem_nil _

theorem AgentsDone.trans {entityId : Id} {ps qs : List Placed} {db₁ : Db}
    (h : AgentsDone uuids entityId ps db db₁) (h' : AgentsDone uuids entityId qs db₁ db') :
    AgentsDone uuids entityId (ps ++ qs) db db' := by
  obtain ⟨new, hnew, hmade⟩ := h.instances
  obtain ⟨new', hnew', hmade'⟩ := h'.instances
  obtain ⟨evs, hevs, hof⟩ := h.events
  obtain ⟨evs', hevs', hof'⟩ := h'.events
  refine ⟨h'.agents.trans h.agents, h'.hubs.trans h.hubs, h'.workspaces.trans h.workspaces,
    h'.entities.trans h.entities, ⟨new ++ new', ?_, fun i hi => ?_⟩,
    ⟨evs ++ evs', ?_, fun ev hev => ?_⟩, fun p hp => ?_⟩
  · rw [hnew', hnew, List.append_assoc]
  · rcases List.mem_append.mp hi with hi | hi
    · obtain ⟨p, hp, hrest⟩ := hmade i hi
      exact ⟨p, List.mem_append_left _ hp, hrest⟩
    · obtain ⟨p, hp, heq, hnone⟩ := hmade' i hi
      refine ⟨p, List.mem_append_right _ hp, heq, ?_⟩
      by_contra hsome
      rw [Bool.not_eq_false] at hsome
      rw [hasInstance_mono hnew hsome] at hnone
      cases hnone
  · rw [hevs', hevs, List.append_assoc]
  · rcases List.mem_append.mp hev with hev | hev
    · obtain ⟨p, hp, hid⟩ := hof ev hev
      exact ⟨p, List.mem_append_left _ hp, hid⟩
    · obtain ⟨p, hp, hid⟩ := hof' ev hev
      exact ⟨p, List.mem_append_right _ hp, hid⟩
  · rcases List.mem_append.mp hp with hp | hp
    · exact hasInstance_mono hnew' (h.covered p hp)
    · exact h'.covered p hp

/-- One agent. -/
theorem migrateAgent_done (entityId winnerId : Id) (report : Report) {p : Placed}
    (hfresh : FreshFor uuids [p] db) :
    ∃ db' report', migrateAgent uuids entityId winnerId (db, report) p = .ok (db', report') ∧
      AgentsDone uuids entityId [p] db db' ∧ report'.orphaned = report.orphaned := by
  obtain ⟨hinstance, hevent⟩ := hfresh p List.mem_cons_self
  have hensured : ∃ db₁, ensureInstance uuids entityId p db = .ok db₁ ∧
      AgentsDone uuids entityId [p] db db₁ ∧ db₁.events = db.events := by
    unfold ensureInstance
    split
    · rename_i hhas
      refine ⟨db, rfl, ⟨rfl, rfl, rfl, rfl,
        ⟨[], (List.append_nil _).symm, List.forall_mem_nil _⟩,
        ⟨[], (List.append_nil _).symm, List.forall_mem_nil _⟩, fun q hq => ?_⟩, rfl⟩
      obtain rfl := List.mem_singleton.mp hq
      exact hhas
    · rename_i hnone
      rw [Bool.not_eq_true] at hnone
      have hone : ∀ j ∈ db.instances.rows, isActiveInstance j = true →
          placeOfInstance j ≠ placeOfInstance (newInstance uuids entityId p) := by
        intro j hj hactive hplace
        obtain ⟨hws, hentity⟩ := Prod.mk.inj hplace
        have hhas : hasInstance db entityId p.workspaceId = true :=
          hasInstance_iff.mpr ⟨j, hj, hactive, hentity, hws⟩
        rw [hnone] at hhas
        cases hhas
      obtain ⟨db₁, h₁, hrows, hagents, hhubs, hworkspaces, hentities, hevents⟩ :=
        insertInstance_ok hinstance hone
      refine ⟨db₁, h₁, ⟨hagents, hhubs, hworkspaces, hentities, ⟨_, hrows, fun i hi => ?_⟩,
        ⟨[], by rw [hevents, List.append_nil], List.forall_mem_nil _⟩, fun q hq => ?_⟩, hevents⟩
      · exact ⟨p, List.mem_cons_self, List.mem_singleton.mp hi, hnone⟩
      · obtain rfl := List.mem_singleton.mp hq
        refine hasInstance_iff.mpr ⟨newInstance uuids entityId q, ?_, rfl, rfl, rfl⟩
        rw [hrows]
        exact List.mem_append_right _ List.mem_cons_self
  obtain ⟨db₁, h₁, hdone, hevents⟩ := hensured
  have hrecorded : ∃ db₂, recordMerge uuids entityId winnerId p db₁ = .ok db₂ ∧
      AgentsDone uuids entityId [p] db db₂ := by
    unfold recordMerge
    split
    · exact ⟨db₁, rfl, hdone⟩
    · rw [← hevents] at hevent
      obtain ⟨t, ht, hrows⟩ := insertEvent_ok (e := mergedEvent uuids entityId p) hevent
      refine ⟨_, ht, { hdone with events := ⟨[mergedEvent uuids entityId p], ?_, fun ev hev => ?_⟩ }⟩
      · rw [hrows, hevents]
      · obtain rfl := List.mem_singleton.mp hev
        exact ⟨p, List.mem_cons_self, rfl⟩
  obtain ⟨db₂, h₂, hdone₂⟩ := hrecorded
  refine ⟨db₂, { report with
    instancesCreated :=
      report.instancesCreated + if hasInstance db entityId p.workspaceId then 0 else 1
    merged := report.merged + if p.agent.id = winnerId then 0 else 1 }, ?_, hdone₂, rfl⟩
  unfold migrateAgent
  dsimp only
  rw [h₁]
  dsimp only [bind, Except.bind]
  rw [h₂]
  rfl

/-- A row that is put in for one agent is not in the way of another. -/
theorem FreshFor.of_done {entityId : Id} {p : Placed} {ps : List Placed}
    (hfresh : FreshFor uuids ps db) (hdone : AgentsDone uuids entityId [p] db db')
    (hne : ∀ q ∈ ps, q.agent.id ≠ p.agent.id) : FreshFor uuids ps db' := by
  intro q hq
  obtain ⟨hinstance, hevent⟩ := hfresh q hq
  obtain ⟨new, hnew, hmade⟩ := hdone.instances
  obtain ⟨evs, hevs, hof⟩ := hdone.events
  rw [hnew, hevs, List.map_append, List.map_append, List.mem_append, List.mem_append]
  refine ⟨?_, ?_⟩
  · rintro (hold | hmem)
    · exact hinstance hold
    · obtain ⟨i, hi, hid⟩ := List.mem_map.mp hmem
      obtain ⟨p', hp', rfl, _⟩ := hmade i hi
      obtain rfl := List.mem_singleton.mp hp'
      exact hne q hq (uuids.instance_inj hid).symm
  · rintro (hold | hmem)
    · exact hevent hold
    · obtain ⟨ev, hev, hid⟩ := List.mem_map.mp hmem
      obtain ⟨p', hp', hev⟩ := hof ev hev
      obtain rfl := List.mem_singleton.mp hp'
      exact hne q hq (uuids.event_inj (hev.symm.trans hid)).symm

theorem migrateAgents_done (entityId winnerId : Id) (report : Report) {ps : List Placed}
    (hids : (ps.map fun p => p.agent.id).Nodup) (hfresh : FreshFor uuids ps db) :
    ∃ db' report', ps.foldlM (migrateAgent uuids entityId winnerId) (db, report) =
        .ok (db', report') ∧
      AgentsDone uuids entityId ps db db' ∧ report'.orphaned = report.orphaned := by
  induction ps generalizing db report with
  | nil => exact ⟨db, report, rfl, agentsDone_nil entityId, rfl⟩
  | cons p ps ih =>
    obtain ⟨hhead, htail⟩ := List.nodup_cons.mp hids
    have hone : FreshFor uuids [p] db := by
      intro q hq
      obtain rfl := List.mem_singleton.mp hq
      exact hfresh q List.mem_cons_self
    obtain ⟨db₁, report₁, h₁, hdone₁, horphaned₁⟩ :=
      migrateAgent_done entityId winnerId report hone
    have hrest : FreshFor uuids ps db₁ := by
      refine FreshFor.of_done (fun q hq => hfresh q (List.mem_cons_of_mem p hq)) hdone₁ ?_
      intro q hq heq
      exact hhead (List.mem_map.mpr ⟨q, hq, heq⟩)
    obtain ⟨db₂, report₂, h₂, hdone₂, horphaned₂⟩ := ih report₁ htail hrest
    refine ⟨db₂, report₂, ?_, hdone₁.trans hdone₂, horphaned₂.trans horphaned₁⟩
    rw [List.foldlM_cons, h₁]
    exact h₂

/-! The entity of one namespace. -/

/-- The agent that the entity of its namespace is made from, or has its prompt from. -/
def OfWinner (db : Db) (namespaceId : Id) (winner : CerebellumAgent) (e : Entity) : Prop :=
  (∀ f ∈ db.entities.rows, f.isActiveCerebellum = true → f.namespaceId ≠ namespaceId) ∧
      e.name = textOr winner.name "cerebellum".toList ∧
      e.presetSlug = some (textOr winner.baseSlug "cerebellum-baseclass".toList) ∧
      e.systemPrompt = truthy winner.systemPrompt ∨
    ∃ f ∈ db.entities.rows, f.isActiveCerebellum = true ∧ f.namespaceId = namespaceId ∧
      e = backfill winner f

/-- What is done with the entities for the namespace. -/
structure EntityDone (uuids : Uuids) (namespaceId : Id) (winner : CerebellumAgent) (e : Entity)
    (db db' : Db) : Prop where
  agents : db'.agents = db.agents
  hubs : db'.hubs = db.hubs
  workspaces : db'.workspaces = db.workspaces
  instances : db'.instances = db.instances
  events : db'.events = db.events
  mem : e ∈ db'.entities.rows
  active : e.isActiveCerebellum = true
  inNamespace : e.namespaceId = namespaceId
  ofWinner : OfWinner db namespaceId winner e
  kept : ∀ f ∈ db.entities.rows,
    (f.isActiveCerebellum = true → f.namespaceId ≠ namespaceId) → f ∈ db'.entities.rows
  back : ∀ f ∈ db'.entities.rows, f = e ∨ f ∈ db.entities.rows
  ids : ∀ f ∈ db'.entities.rows,
    f.id ∈ db.entities.rows.map Entity.id ∨ f.id = uuids.ofEntity namespaceId

theorem cerebellumOf?_eq_none {namespaceId : Id} (h : cerebellumOf? db namespaceId = none) :
    ∀ f ∈ db.entities.rows, f.isActiveCerebellum = true → f.namespaceId ≠ namespaceId := by
  intro f hf hactive hns
  have hnot := List.find?_eq_none.mp h f hf
  rw [decide_eq_true hns, Bool.true_and] at hnot
  exact hnot hactive

theorem cerebellumOf?_eq_some {namespaceId : Id} {f : Entity}
    (h : cerebellumOf? db namespaceId = some f) :
    f ∈ db.entities.rows ∧ f.isActiveCerebellum = true ∧ f.namespaceId = namespaceId := by
  have hfound := List.find?_some h
  rw [Bool.and_eq_true, decide_eq_true_eq] at hfound
  exact ⟨List.mem_of_find?_eq_some h, hfound.2, hfound.1⟩

theorem ensureEntity_done (namespaceId : Id) (winner : CerebellumAgent)
    (hfresh : uuids.ofEntity namespaceId ∉ db.entities.rows.map Entity.id) :
    ∃ (db' : Db) (e : Entity) (created : Bool),
      ensureEntity uuids db namespaceId winner = .ok (db', e.id, created) ∧
      EntityDone uuids namespaceId winner e db db' := by
  unfold ensureEntity
  split
  · rename_i hnone
    have hnone := cerebellumOf?_eq_none hnone
    have hslug : ∀ f ∈ db.entities.rows, f.isActive = true →
        f.place ≠ (newEntity uuids db namespaceId winner).place := by
      intro f hf hactive hplace
      obtain ⟨hns, hslug⟩ := Prod.mk.inj hplace
      exact uniqueSlug_free db namespaceId "cerebellum".toList hf hactive hns hslug
    obtain ⟨db', h, hrows, hagents, hhubs, hworkspaces, hinstances, hevents⟩ :=
      insertEntity_ok (e := newEntity uuids db namespaceId winner) hfresh hslug hnone
    refine ⟨db', newEntity uuids db namespaceId winner, true, ?_, hagents, hhubs, hworkspaces,
      hinstances, hevents, ?_, rfl, rfl, .inl ⟨hnone, rfl, rfl, rfl⟩, ?_, ?_, ?_⟩
    · rw [h]
      rfl
    · rw [hrows]
      exact List.mem_append_right _ List.mem_cons_self
    · intro f hf _
      rw [hrows]
      exact List.mem_append_left _ hf
    · intro f hf
      rw [hrows, List.mem_append, List.mem_singleton] at hf
      exact hf.symm
    · intro f hf
      rw [hrows, List.mem_append, List.mem_singleton] at hf
      obtain hf | rfl := hf
      · exact .inl (List.mem_map_of_mem hf)
      · exact .inr rfl
  · rename_i f hsome
    obtain ⟨hf, hactive, hns⟩ := cerebellumOf?_eq_some hsome
    refine ⟨db.backfillEntity f.id winner, backfill winner f, false, ?_, rfl, rfl, rfl, rfl, rfl,
      ?_, ?_, ?_, .inr ⟨f, hf, hactive, hns, rfl⟩, ?_, ?_, ?_⟩
    · rw [backfill_id]
    · exact Table.mem_update_self (backfill winner) (backfill_id winner) hf rfl
    · rw [backfill_isActiveCerebellum]
      exact hactive
    · rw [backfill_namespaceId]
      exact hns
    · intro g hg hne
      have hkept : (if decide (g.id = f.id) then backfill winner g else g) = g := by
        refine if_neg ?_
        rw [decide_eq_true_eq]
        intro hid
        obtain rfl := db.entities.eq_of_key_eq hg hf hid
        exact hne hactive hns
      exact List.mem_map.mpr ⟨g, hg, hkept⟩
    · intro g' hg'
      obtain ⟨g, hg, rfl⟩ := List.mem_map.mp hg'
      split
      · rename_i hid
        obtain rfl := db.entities.eq_of_key_eq hg hf (of_decide_eq_true hid)
        exact .inl rfl
      · exact .inr hg
    · intro g' hg'
      obtain ⟨g, hg, rfl⟩ := List.mem_map.mp hg'
      refine .inl (List.mem_map.mpr ⟨g, hg, ?_⟩)
      split
      · exact (backfill_id winner g).symm
      · rfl

theorem EntityDone.isActiveCerebellum_back {namespaceId : Id} {winner : CerebellumAgent}
    {e f : Entity} (h : EntityDone uuids namespaceId winner e db db') (hf : f ∈ db'.entities.rows)
    (hne : f.namespaceId ≠ namespaceId) : f ∈ db.entities.rows := by
  rcases h.back f hf with rfl | hold
  · exact absurd h.inNamespace hne
  · exact hold

/-- Deleted if its id is one of those given. -/
def deletedIn (now : Time) (ids : List Id) (a : CerebellumAgent) : CerebellumAgent :=
  if a.id ∈ ids then softDelete now a else a

@[simp] theorem deletedIn_nil (now : Time) : deletedIn now [] = id :=
  funext fun _ => if_neg List.not_mem_nil

theorem deletedIn_append (now : Time) (ids ids' : List Id) :
    deletedIn now (ids ++ ids') = deletedIn now ids' ∘ deletedIn now ids := by
  funext a
  have hmem : a.id ∈ ids ++ ids' ↔ a.id ∈ ids ∨ a.id ∈ ids' := List.mem_append
  by_cases h : a.id ∈ ids
  · have hdeleted : deletedIn now ids a = softDelete now a := if_pos h
    rw [Function.comp_apply, hdeleted, deletedIn, if_pos (hmem.mpr (.inl h)), deletedIn]
    split <;> rfl
  · have hkept : deletedIn now ids a = a := if_neg h
    rw [Function.comp_apply, hkept]
    exact if_congr (hmem.trans (or_iff_right h)) rfl rfl

theorem deleteAgents_rows (db : Db) (group : List Placed) :
    (deleteAgents now db group).agents.rows =
      db.agents.rows.map (deletedIn now (group.map fun p => p.agent.id)) := by
  unfold deleteAgents
  dsimp only
  generalize db.agents = agents
  induction group generalizing agents with
  | nil => exact (deletedIn_nil now ▸ List.map_id agents.rows).symm
  | cons p group ih =>
    have hone : (agents.update p.agent.id (softDelete now) fun _ => rfl).rows =
        agents.rows.map (deletedIn now [p.agent.id]) := by
      refine List.map_congr_left fun a _ => if_congr ?_ rfl rfl
      rw [decide_eq_true_eq, List.mem_singleton]
    rw [List.foldl_cons, ih, hone, List.map_map, ← deletedIn_append]
    rfl

/-! The groups. -/

abbrev Group := Id × List Placed

def idsOf (groups : List Group) : List Id :=
  groups.flatMap fun g => g.2.map fun p => p.agent.id

/-- Every entity outside the namespaces of the groups is as it was, and in each of these there is
one that is made for the agent of the highest rank. -/
structure Done (uuids : Uuids) (now : Time) (groups : List Group) (db db' : Db) : Prop where
  hubs : db'.hubs = db.hubs
  workspaces : db'.workspaces = db.workspaces
  agents : db'.agents.rows = db.agents.rows.map (deletedIn now (idsOf groups))
  instances : ∃ new, db'.instances.rows = db.instances.rows ++ new ∧ ∀ i ∈ new,
    ∃ g ∈ groups, ∃ p ∈ g.2, ∃ entityId, i = newInstance uuids entityId p ∧
      hasInstance db entityId p.workspaceId = false
  events : ∃ new, db'.events.rows = db.events.rows ++ new ∧ ∀ ev ∈ new,
    ∃ g ∈ groups, ∃ p ∈ g.2, ev.id = uuids.ofEvent p.agent.id
  kept : ∀ f ∈ db.entities.rows, (f.isActiveCerebellum = true →
    f.namespaceId ∉ groups.map Prod.fst) → f ∈ db'.entities.rows
  back : ∀ f ∈ db'.entities.rows,
    f ∈ db.entities.rows ∨ f.isActiveCerebellum = true ∧ f.namespaceId ∈ groups.map Prod.fst
  ids : ∀ f ∈ db'.entities.rows, f.id ∈ db.entities.rows.map Entity.id ∨
    ∃ g ∈ groups, f.id = uuids.ofEntity g.1
  served : ∀ g ∈ groups, ∃ winner ∈ g.2, (∀ p ∈ g.2, rank p.agent ≤ rank winner.agent) ∧
    ∃ e ∈ db'.entities.rows, e.isActiveCerebellum = true ∧ e.namespaceId = g.1 ∧
      OfWinner db g.1 winner.agent e ∧ ∀ p ∈ g.2, hasInstance db' e.id p.workspaceId = true

theorem done_nil : Done uuids now [] db db where
  hubs := rfl
  workspaces := rfl
  agents := (deletedIn_nil now ▸ List.map_id db.agents.rows).symm
  instances := ⟨[], (List.append_nil _).symm, List.forall_mem_nil _⟩
  events := ⟨[], (List.append_nil _).symm, List.forall_mem_nil _⟩
  kept := fun _ hf _ => hf
  back := fun _ hf => .inl hf
  ids := fun _ hf => .inl (List.mem_map_of_mem hf)
  served := List.forall_mem_nil _

/-- What other namespaces come to is no matter to the entity of one. -/
theorem OfWinner.of_done {groups : List Group} {k : Id} {winner : CerebellumAgent} {e : Entity}
    (hdone : Done uuids now groups db db') (hk : k ∉ groups.map Prod.fst)
    (h : OfWinner db' k winner e) : OfWinner db k winner e := by
  rcases h with ⟨hnone, hmade⟩ | ⟨f, hf, hactive, hns, heq⟩
  · refine .inl ⟨fun f hf hactive hns => ?_, hmade⟩
    exact hnone f (hdone.kept f hf fun _ => hns ▸ hk) hactive hns
  · rcases hdone.back f hf with hold | ⟨_, hmem⟩
    · exact .inr ⟨f, hold, hactive, hns, heq⟩
    · exact absurd (hns ▸ hmem) hk

theorem Done.cons {g : Group} {groups : List Group} {db₁ : Db}
    (hkey : g.1 ∉ groups.map Prod.fst) (h : Done uuids now [g] db db₁)
    (h' : Done uuids now groups db₁ db') : Done uuids now (g :: groups) db db' := by
  obtain ⟨new, hnew, hmade⟩ := h.instances
  obtain ⟨new', hnew', hmade'⟩ := h'.instances
  obtain ⟨evs, hevs, hof⟩ := h.events
  obtain ⟨evs', hevs', hof'⟩ := h'.events
  constructor
  case hubs => exact h'.hubs.trans h.hubs
  case workspaces => exact h'.workspaces.trans h.workspaces
  case agents =>
    have hids : idsOf (g :: groups) = idsOf [g] ++ idsOf groups := by simp [idsOf]
    rw [h'.agents, h.agents, List.map_map, hids, deletedIn_append]
  case instances =>
    refine ⟨new ++ new', ?_, fun i hi => ?_⟩
    · rw [hnew', hnew, List.append_assoc]
    rcases List.mem_append.mp hi with hi | hi
    · obtain ⟨g', hg', p, hp, entityId, hrest⟩ := hmade i hi
      obtain rfl := List.mem_singleton.mp hg'
      exact ⟨g', List.mem_cons_self, p, hp, entityId, hrest⟩
    · obtain ⟨g', hg', p, hp, entityId, heq, hnone⟩ := hmade' i hi
      refine ⟨g', List.mem_cons_of_mem g hg', p, hp, entityId, heq, ?_⟩
      by_contra hsome
      rw [Bool.not_eq_false] at hsome
      rw [hasInstance_mono hnew hsome] at hnone
      cases hnone
  case events =>
    refine ⟨evs ++ evs', ?_, fun ev hev => ?_⟩
    · rw [hevs', hevs, List.append_assoc]
    rcases List.mem_append.mp hev with hev | hev
    · obtain ⟨g', hg', p, hp, hid⟩ := hof ev hev
      obtain rfl := List.mem_singleton.mp hg'
      exact ⟨g', List.mem_cons_self, p, hp, hid⟩
    · obtain ⟨g', hg', p, hp, hid⟩ := hof' ev hev
      exact ⟨g', List.mem_cons_of_mem g hg', p, hp, hid⟩
  case kept =>
    intro f hf hout
    refine h'.kept f (h.kept f hf fun hactive hmem => hout hactive ?_) fun hactive hmem =>
      hout hactive ?_
    · rw [List.map_cons, List.mem_singleton.mp hmem]
      exact List.mem_cons_self
    · rw [List.map_cons]
      exact List.mem_cons_of_mem _ hmem
  case back =>
    intro f hf
    rcases h'.back f hf with hf | ⟨hactive, hmem⟩
    · rcases h.back f hf with hf | ⟨hactive, hmem⟩
      · exact .inl hf
      · rw [List.map_cons, List.mem_singleton.mp hmem]
        exact .inr ⟨hactive, List.mem_cons_self⟩
    · exact .inr ⟨hactive, List.mem_cons_of_mem _ hmem⟩
  case ids =>
    intro f hf
    rcases h'.ids f hf with hid | ⟨g', hg', hid⟩
    · obtain ⟨f', hf', heq⟩ := List.mem_map.mp hid
      rcases h.ids f' hf' with hid | ⟨g', hg', hid⟩
      · exact .inl (heq ▸ hid)
      · obtain rfl := List.mem_singleton.mp hg'
        exact .inr ⟨g', List.mem_cons_self, heq.symm.trans hid⟩
    · exact .inr ⟨g', List.mem_cons_of_mem g hg', hid⟩
  case served =>
    intro g' hg'
    rcases List.mem_cons.mp hg' with rfl | hg'
    · obtain ⟨winner, hwinner, hmax, e, he, hactive, hns, hof, hcovered⟩ :=
        h.served g' List.mem_cons_self
      refine ⟨winner, hwinner, hmax, e, h'.kept e he fun _ => hns ▸ hkey, hactive, hns, hof,
        fun p hp => hasInstance_mono hnew' (hcovered p hp)⟩
    · obtain ⟨winner, hwinner, hmax, e, he, hactive, hns, hof, hcovered⟩ := h'.served g' hg'
      refine ⟨winner, hwinner, hmax, e, he, hactive, hns, hof.of_done h ?_, hcovered⟩
      intro hmem
      refine hkey ?_
      rw [← List.mem_singleton.mp hmem]
      exact List.mem_map_of_mem hg'

end Eyot.Cerebellum
