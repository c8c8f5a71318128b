import Eyot.Cerebellum.Migrated

/-! A migration of all namespaces, and another one after it. -/

namespace Eyot.Cerebellum

variable {uuids : Uuids} {now : Time} {db db' : Db}

/-! The winner. -/

theorem tiebreak_perm (group : List Placed) : (tiebreak group).Perm group := sortBy_perm _ group

theorem rank_le_winner {group : List Placed} {winner : Placed} {rest : List Placed}
    (h : tiebreak group = winner :: rest) : ∀ p ∈ group, rank p.agent ≤ rank winner.agent := by
  intro p hp
  have hsorted : (tiebreak group).Pairwise fun p q =>
      OrderDual.toDual (rank p.agent) ≤ OrderDual.toDual (rank q.agent) := pairwise_sortBy _ group
  rw [h] at hsorted
  rw [← (tiebreak_perm group).mem_iff, h] at hp
  rcases List.mem_cons.mp hp with rfl | hp
  · exact le_rfl
  · exact OrderDual.toDual_le_toDual.mp ((List.pairwise_cons.mp hsorted).1 p hp)

/-! The loop over the groups. -/

/-- What is drawn for the groups is not there yet. -/
structure FreshGroups (uuids : Uuids) (groups : List Group) (db : Db) : Prop where
  keys : (groups.map Prod.fst).Nodup
  ids : (idsOf groups).Nodup
  entities : ∀ g ∈ groups, uuids.ofEntity g.1 ∉ db.entities.rows.map Entity.id
  agents : ∀ g ∈ groups, FreshFor uuids g.2 db

theorem migrateGroup_done {g : Group} (report : Report) (hne : g.2 ≠ [])
    (hfresh : FreshGroups uuids [g] db) :
    ∃ db' report', migrateGroup uuids now (db, report) g = .ok (db', report') ∧
      Done uuids now [g] db db' ∧ report'.orphaned = report.orphaned := by
  have hperm := tiebreak_perm g.2
  unfold migrateGroup
  split
  · rename_i hnil
    rw [hnil] at hperm
    exact absurd hperm.nil_eq.symm hne
  · rename_i winner rest hsorted
    rw [hsorted] at hperm
    obtain ⟨db₁, e, created, h₁, hentity⟩ :=
      ensureEntity_done g.1 winner.agent (hfresh.entities g List.mem_cons_self)
    have hids : ((winner :: rest).map fun p => p.agent.id).Nodup := by
      have hids := hfresh.ids
      rw [idsOf, List.flatMap_singleton] at hids
      exact (hperm.map fun p => p.agent.id).nodup_iff.mpr hids
    have hagents : FreshFor uuids (winner :: rest) db₁ := by
      intro p hp
      rw [hentity.instances, hentity.events]
      exact hfresh.agents g List.mem_cons_self p (hperm.mem_iff.mp hp)
    obtain ⟨db₂, report₂, h₂, hdone, horphaned⟩ :=
      migrateAgents_done e.id winner.agent.id
        (if created then { report with entitiesCreated := report.entitiesCreated + 1 } else report)
        hids hagents
    refine ⟨deleteAgents now db₂ (winner :: rest), report₂, ?_, ?_, ?_⟩
    · dsimp only
      rw [h₁]
      dsimp only [bind, Except.bind]
      rw [h₂]
      rfl
    · obtain ⟨new, hnew, hmade⟩ := hdone.instances
      obtain ⟨evs, hevs, hof⟩ := hdone.events
      constructor
      case hubs => exact hdone.hubs.trans hentity.hubs
      case workspaces => exact hdone.workspaces.trans hentity.workspaces
      case agents =>
        rw [deleteAgents_rows, hdone.agents, hentity.agents]
        refine List.map_congr_left fun a _ => if_congr ?_ rfl rfl
        rw [idsOf, List.flatMap_singleton]
        exact (hperm.map fun p => p.agent.id).mem_iff
      case instances =>
        refine ⟨new, hentity.instances ▸ hnew, fun i hi => ?_⟩
        obtain ⟨p, hp, heq, hnone⟩ := hmade i hi
        refine ⟨g, List.mem_cons_self, p, hperm.mem_iff.mp hp, e.id, heq, ?_⟩
        unfold hasInstance at hnone ⊢
        rwa [← hentity.instances]
      case events =>
        refine ⟨evs, hentity.events ▸ hevs, fun ev hev => ?_⟩
        obtain ⟨p, hp, hid⟩ := hof ev hev
        exact ⟨g, List.mem_cons_self, p, hperm.mem_iff.mp hp, hid⟩
      case kept =>
        intro f hf hout
        change f ∈ db₂.entities.rows
        rw [hdone.entities]
        exact hentity.kept f hf fun hactive heq =>
          hout hactive (heq ▸ List.mem_cons_self)
      case back =>
        intro f hf
        change f ∈ db₂.entities.rows at hf
        rw [hdone.entities] at hf
        rcases hentity.back f hf with rfl | hf
        · exact .inr ⟨hentity.active, hentity.inNamespace ▸ List.mem_cons_self⟩
        · exact .inl hf
      case ids =>
        intro f hf
        change f ∈ db₂.entities.rows at hf
        rw [hdone.entities] at hf
        exact (hentity.ids f hf).imp_right fun hid => ⟨g, List.mem_cons_self, hid⟩
      case served =>
        intro g' hg'
        obtain rfl := List.mem_singleton.mp hg'
        refine ⟨winner, hperm.mem_iff.mp List.mem_cons_self, rank_le_winner hsorted, e, ?_,
          hentity.active, hentity.inNamespace, hentity.ofWinner, fun p hp => ?_⟩
        · change e ∈ db₂.entities.rows
          rw [hdone.entities]
          exact hentity.mem
        · exact hdone.covered p (hperm.mem_iff.mpr hp)
    · rw [horphaned]
      split <;> rfl

theorem FreshGroups.tail {g : Group} {groups : List Group}
    (hfresh : FreshGroups uuids (g :: groups) db) (hdone : Done uuids now [g] db db') :
    FreshGroups uuids groups db' := by
  obtain ⟨hkey, hkeys⟩ := List.nodup_cons.mp hfresh.keys
  have hids := hfresh.ids
  rw [idsOf, List.flatMap_cons] at hids
  obtain ⟨_, hids, hapart⟩ := List.nodup_append.mp hids
  obtain ⟨new, hnew, hmade⟩ := hdone.instances
  obtain ⟨evs, hevs, hof⟩ := hdone.events
  have hother : ∀ g' ∈ groups, ∀ q ∈ g'.2, ∀ p ∈ g.2, p.agent.id ≠ q.agent.id := by
    intro g' hg' q hq p hp
    exact hapart p.agent.id (List.mem_map.mpr ⟨p, hp, rfl⟩) q.agent.id
      (List.mem_flatMap.mpr ⟨g', hg', List.mem_map.mpr ⟨q, hq, rfl⟩⟩)
  refine ⟨hkeys, hids, fun g' hg' hmem => ?_, fun g' hg' q hq => ?_⟩
  · obtain ⟨f, hf, hid⟩ := List.mem_map.mp hmem
    rcases hdone.ids f hf with hold | ⟨g₀, hg₀, hnew⟩
    · exact hfresh.entities g' (List.mem_cons_of_mem g hg') (hid ▸ hold)
    · obtain rfl := List.mem_singleton.mp hg₀
      refine hkey ?_
      rw [← uuids.entity_inj (hid.symm.trans hnew)]
      exact List.mem_map_of_mem hg'
  · obtain ⟨hinstance, hevent⟩ := hfresh.agents g' (List.mem_cons_of_mem g hg') q hq
    rw [hnew, hevs, List.map_append, List.map_append, List.mem_append, List.mem_append]
    refine ⟨?_, ?_⟩
    · rintro (hold | hmem)
      · exact hinstance hold
      · obtain ⟨i, hi, hid⟩ := List.mem_map.mp hmem
        obtain ⟨g₀, hg₀, p, hp, _, rfl, _⟩ := hmade i hi
        obtain rfl := List.mem_singleton.mp hg₀
        exact hother g' hg' q hq p hp (uuids.instance_inj hid)
    · rintro (hold | hmem)
      · exact hevent hold
      · obtain ⟨ev, hev, hid⟩ := List.mem_map.mp hmem
        obtain ⟨g₀, hg₀, p, hp, hev⟩ := hof ev hev
        obtain rfl := List.mem_singleton.mp hg₀
        exact hother g' hg' q hq p hp (uuids.event_inj (hev.symm.trans hid))

theorem migrateGroups_done {groups : List Group} (report : Report) (hne : ∀ g ∈ groups, g.2 ≠ [])
    (hfresh : FreshGroups uuids groups db) :
    ∃ db' report', groups.foldlM (migrateGroup uuids now) (db, report) = .ok (db', report') ∧
      Done uuids now groups db db' ∧ report'.orphaned = report.orphaned := by
  induction groups generalizing db report with
  | nil => exact ⟨db, report, rfl, done_nil, rfl⟩
  | cons g groups ih =>
    rw [List.forall_mem_cons] at hne
    have hhead : FreshGroups uuids [g] db := by
      refine ⟨List.nodup_singleton _, ?_, ?_, ?_⟩
      · have hids := hfresh.ids
        rw [idsOf, List.flatMap_cons] at hids
        rw [idsOf, List.flatMap_singleton]
        exact (List.nodup_append.mp hids).1
      · exact List.forall_mem_singleton.mpr (hfresh.entities g List.mem_cons_self)
      · exact List.forall_mem_singleton.mpr (hfresh.agents g List.mem_cons_self)
    obtain ⟨db₁, report₁, h₁, hdone₁, horphaned₁⟩ := 
      migrateGroup_done report hne.1 hhead
    obtain ⟨db₂, report₂, h₂, hdone₂, horphaned₂⟩ := ih report₁ hne.2 (hfresh.tail hdone₁)
    refine ⟨db₂, report₂, ?_, hdone₁.cons (List.nodup_cons.mp hfresh.keys).1 hdone₂,
      horphaned₂.trans horphaned₁⟩
    rw [List.foldlM_cons, h₁]
    exact h₂

/-! Where the agents live. -/

/-- The workspace of the active hub of an agent, deleted or not. -/
def workspaceOf (db : Db) (a : CerebellumAgent) : Option Workspace := do
  let hub ← (db.hubs.find? a.centralHubId).filter fun h => h.deletedAt.isNone
  db.workspaces.find? hub.workspaceId

/-- The active workspace of the active hub of an agent. -/
def homeOf (db : Db) (a : CerebellumAgent) : Option Workspace :=
  (workspaceOf db a).filter fun w => w.deletedAt.isNone

theorem placeOf_eq (db : Db) (a : CerebellumAgent) :
    placeOf db a = (workspaceOf db a).map fun w => ⟨a, w.id, w.namespaceId⟩ := by
  unfold placeOf workspaceOf
  cases (db.hubs.find? a.centralHubId).filter fun h => h.deletedAt.isNone with
  | none => rfl
  | some hub =>
    dsimp only [bind, Option.bind]
    cases hfound : db.workspaces.find? hub.workspaceId with
    | none => rfl
    | some w =>
      dsimp only [Option.map]
      rw [if_neg (db.namespaceIds w (Table.find?_mem hfound)), Table.find?_key hfound]

/-- The agents that are moved, each with its place. -/
def placedOf (db : Db) : List Placed :=
  (db.agents.rows.filter CerebellumAgent.isLive).filterMap (placeOf db)

theorem mem_placedOf {p : Placed} : p ∈ placedOf db ↔ ∃ a ∈ db.agents.rows, a.isLive = true ∧
    ∃ w, workspaceOf db a = some w ∧ p = ⟨a, w.id, w.namespaceId⟩ := by
  unfold placedOf
  rw [List.mem_filterMap]
  refine exists_congr fun a => ?_
  rw [List.mem_filter, and_assoc, placeOf_eq, Option.map_eq_some_iff]
  refine and_congr_right fun _ => and_congr_right fun _ => exists_congr fun w => ?_
  exact and_congr_right fun _ => eq_comm

theorem placedOf_ids_nodup (db : Db) : ((placedOf db).map fun p => p.agent.id).Nodup := by
  unfold placedOf
  rw [List.Nodup, List.pairwise_map, List.pairwise_filterMap]
  have hagents : db.agents.rows.Pairwise fun a b => a.id ≠ b.id :=
    List.pairwise_map.mp db.agents.keys_nodup
  refine (hagents.filter _).imp fun {a b} hne p hp q hq => ?_
  rw [placeOf_eq, Option.map_eq_some_iff] at hp hq
  obtain ⟨_, _, rfl⟩ := hp
  obtain ⟨_, _, rfl⟩ := hq
  exact hne

theorem mem_idsOf_grouped {placed : List Placed} {id : Id} :
    id ∈ idsOf (grouped Placed.namespaceId placed) ↔ ∃ p ∈ placed, p.agent.id = id := by
  unfold idsOf
  rw [List.mem_flatMap]
  constructor
  · rintro ⟨g, hg, hid⟩
    obtain ⟨p, hp, hid⟩ := List.mem_map.mp hid
    exact ⟨p, ((mem_group hg).mp hp).1, hid⟩
  · rintro ⟨p, hp, hid⟩
    obtain ⟨g, hg, -, hmem⟩ : ∃ g ∈ grouped Placed.namespaceId placed,
        g.1 = p.namespaceId ∧ p ∈ g.2 := exists_group hp
    exact ⟨g, hg, List.mem_map.mpr ⟨p, hmem, hid⟩⟩

theorem idsOf_grouped_nodup {placed : List Placed}
    (h : (placed.map fun p => p.agent.id).Nodup) :
    (idsOf (grouped Placed.namespaceId placed)).Nodup := by
  unfold idsOf
  rw [List.nodup_flatMap]
  constructor
  · intro g hg
    rw [group_eq_under hg]
    exact (List.filter_sublist.map _).nodup h
  · have hkeys : ((grouped Placed.namespaceId placed).map Prod.fst).Nodup :=
      grouped_keys_nodup placed
    rw [List.Nodup, List.pairwise_map] at hkeys
    refine hkeys.imp_of_mem fun {g g'} hg hg' hne => ?_
    refine List.disjoint_left.mpr ?_
    intro id hid hid'
    obtain ⟨p, hp, rfl⟩ := List.mem_map.mp hid
    obtain ⟨q, hq, heq⟩ := List.mem_map.mp hid'
    obtain ⟨hp, hkey⟩ := (mem_group hg).mp hp
    obtain ⟨hq, hkey'⟩ := (mem_group hg').mp hq
    obtain rfl := List.inj_on_of_nodup_map h hq hp heq
    exact hne (hkey.symm.trans hkey')

/-- No id that is drawn is in a table. -/
structure Fresh (uuids : Uuids) (db : Db) : Prop where
  entities : ∀ id, uuids.ofEntity id ∉ db.entities.rows.map Entity.id
  instances : ∀ id, uuids.ofInstance id ∉ db.instances.rows.map Instance.id
  events : ∀ id, uuids.ofEvent id ∉ db.events.rows.map MergedEvent.id

theorem migrateCerebellum_done (now : Time) (hfresh : Fresh uuids db) :
    ∃ db' report, migrateCerebellum uuids now db = .ok (db', report) ∧
      Done uuids now (grouped Placed.namespaceId (placedOf db)) db db' ∧
      report.orphaned = (db.agents.rows.filter CerebellumAgent.isLive).countP fun a =>
        (placeOf db a).isNone := by
  unfold migrateCerebellum
  refine migrateGroups_done _ (fun g hg => group_ne_nil hg) ⟨grouped_keys_nodup _,
    idsOf_grouped_nodup (placedOf_ids_nodup db), fun g _ => hfresh.entities g.1,
    fun g _ p _ => ⟨hfresh.instances p.agent.id, hfresh.events p.agent.id⟩⟩

/-! The migration as a whole. -/

/-- The agent lives in the namespace. -/
def LivesIn (db : Db) (namespaceId : Id) (a : CerebellumAgent) : Prop :=
  a ∈ db.agents.rows ∧ a.isLive = true ∧ ∃ w, homeOf db a = some w ∧ w.namespaceId = namespaceId

/-- What a migration comes to. -/
structure Migrated (now : Time) (db db' : Db) (report : Report) : Prop where
  oneCerebellum : ∀ e ∈ db'.entities.rows, ∀ e' ∈ db'.entities.rows,
    e.isActiveCerebellum = true → e'.isActiveCerebellum = true →
      e.namespaceId = e'.namespaceId → e = e'
  moved : ∀ a ∈ db.agents.rows, a.isLive = true → ∀ w, homeOf db a = some w →
    softDelete now a ∈ db'.agents.rows ∧
    ∃ winner, LivesIn db w.namespaceId winner ∧
      (∀ b, LivesIn db w.namespaceId b → rank b ≤ rank winner) ∧
      ∃ e ∈ db'.entities.rows, e.isActiveCerebellum = true ∧ e.namespaceId = w.namespaceId ∧
        OfWinner db w.namespaceId winner e ∧
        ∃ i ∈ db'.instances.rows, isActiveInstance i = true ∧ i.entityId = e.id ∧
          i.workspaceId = w.id
  spared : ∀ a ∈ db.agents.rows, (a.isLive = true → homeOf db a = none) → a ∈ db'.agents.rows
  otherEntities : ∀ f, (f.isActiveCerebellum = true → ∀ a, ¬ LivesIn db f.namespaceId a) →
    (f ∈ db'.entities.rows ↔ f ∈ db.entities.rows)
  newInstances : ∃ new, db'.instances.rows = db.instances.rows ++ new ∧ ∀ i ∈ new,
    isActiveInstance i = true ∧ (∃ w ∈ db.workspaces.rows, w.id = i.workspaceId ∧
      w.deletedAt = none) ∧
    ∀ j ∈ db.instances.rows, isActiveInstance j = true → placeOfInstance j ≠ placeOfInstance i
  onePerPlace : ∀ i ∈ db'.instances.rows, ∀ j ∈ db'.instances.rows, isActiveInstance i = true →
    isActiveInstance j = true → placeOfInstance i = placeOfInstance j → i = j
  orphaned : report.orphaned = db.agents.rows.countP fun a => a.isLive && (homeOf db a).isNone

/-- The migration goes through and does what it is for, and another one changes nothing. -/
def Migrates (uuids : Uuids) (now : Time) (db : Db) : Prop :=
  ∃ db' report, migrateCerebellum uuids now db = .ok (db', report) ∧ Migrated now db db' report ∧
    ∀ (uuids' : Uuids) (now' : Time), ∃ report', migrateCerebellum uuids' now' db' = .ok (db', report')

/-! Another run. -/

/-- No agent that is still live after a run has a place. -/
theorem placeOf_of_done (hdone : Done uuids now (grouped Placed.namespaceId (placedOf db)) db db')
    {a : CerebellumAgent} (ha : a ∈ db'.agents.rows) (hlive : a.isLive = true) :
    placeOf db' a = none := by
  rw [hdone.agents] at ha
  obtain ⟨a₀, ha₀, rfl⟩ := List.mem_map.mp ha
  unfold deletedIn at hlive ⊢
  split at hlive
  · cases hlive
  rename_i hid
  rw [if_neg hid]
  have hplace : placeOf db' a₀ = placeOf db a₀ := by
    unfold placeOf
    rw [hdone.hubs, hdone.workspaces]
  rw [hplace, Option.eq_none_iff_forall_ne_some]
  intro p hp
  refine hid (mem_idsOf_grouped.mpr ⟨p, ?_, ?_⟩)
  · exact List.mem_filterMap.mpr ⟨a₀, List.mem_filter.mpr ⟨ha₀, hlive⟩, hp⟩
  · rw [placeOf_eq, Option.map_eq_some_iff] at hp
    obtain ⟨_, _, rfl⟩ := hp
    rfl

theorem migrateCerebellum_again
    (hdone : Done uuids now (grouped Placed.namespaceId (placedOf db)) db db') (uuids' : Uuids)
    (now' : Time) : ∃ report, migrateCerebellum uuids' now' db' = .ok (db', report) := by
  have hnone : placedOf db' = [] := by
    refine List.filterMap_eq_nil_iff.mpr fun a ha => ?_
    obtain ⟨ha, hlive⟩ := List.mem_filter.mp ha
    exact placeOf_of_done hdone ha hlive
  unfold migrateCerebellum
  unfold placedOf at hnone
  dsimp only
  rw [hnone]
  exact ⟨_, rfl⟩

/-! Databases whose live agents are in no deleted workspace. -/

/-- No live agent is led to a deleted workspace by an active hub. -/
def NoneInDeleted (db : Db) : Prop :=
  ∀ a ∈ db.agents.rows, a.isLive = true → ∀ w, workspaceOf db a = some w → w.deletedAt = none

theorem homeOf_eq_some {a : CerebellumAgent} {w : Workspace} :
    homeOf db a = some w ↔ workspaceOf db a = some w ∧ w.deletedAt = none := by
  unfold homeOf
  rw [Option.filter_eq_some_iff, Option.isNone_iff_eq_none]

theorem NoneInDeleted.homeOf_eq (h : NoneInDeleted db) {a : CerebellumAgent}
    (ha : a ∈ db.agents.rows) (hlive : a.isLive = true) : homeOf db a = workspaceOf db a := by
  refine Option.ext fun w => ?_
  rw [homeOf_eq_some]
  exact and_iff_left_of_imp (h a ha hlive w)

theorem NoneInDeleted.livesIn_iff (h : NoneInDeleted db) {k : Id} {a : CerebellumAgent} :
    LivesIn db k a ↔ ∃ p ∈ placedOf db, p.agent = a ∧ p.namespaceId = k := by
  constructor
  · rintro ⟨ha, hlive, w, hw, rfl⟩
    rw [h.homeOf_eq ha hlive] at hw
    exact ⟨⟨a, w.id, w.namespaceId⟩, mem_placedOf.mpr ⟨a, ha, hlive, w, hw, rfl⟩, rfl, rfl⟩
  · rintro ⟨p, hp, rfl, rfl⟩
    obtain ⟨a, ha, hlive, w, hw, rfl⟩ := mem_placedOf.mp hp
    rw [← h.homeOf_eq ha hlive] at hw
    exact ⟨ha, hlive, w, hw, rfl⟩

theorem migrated_of_done {report : Report} (h : NoneInDeleted db)
    (hdone : Done uuids now (grouped Placed.namespaceId (placedOf db)) db db')
    (horphaned : report.orphaned = (db.agents.rows.filter CerebellumAgent.isLive).countP fun a =>
      (placeOf db a).isNone) : Migrated now db db' report := by
  obtain ⟨new, hnew, hmade⟩ := hdone.instances
  constructor
  case oneCerebellum =>
    intro e he e' he' hactive hactive' hns
    exact db'.uniqueCerebellum.eq he he' hactive hactive' hns
  case moved =>
    intro a ha hlive w hw
    have hplaced : ⟨a, w.id, w.namespaceId⟩ ∈ placedOf db :=
      mem_placedOf.mpr ⟨a, ha, hlive, w, h.homeOf_eq ha hlive ▸ hw, rfl⟩
    obtain ⟨g, hg, hkey, hmem⟩ : ∃ g ∈ grouped Placed.namespaceId (placedOf db),
        g.1 = w.namespaceId ∧ ⟨a, w.id, w.namespaceId⟩ ∈ g.2 := exists_group hplaced
    obtain ⟨winner, hwinner, hmax, e, he, hactive, hns, hof, hcovered⟩ := hdone.served g hg
    rw [hkey] at hns hof
    refine ⟨?_, winner.agent, ?_, fun b hb => ?_, e, he, hactive, hns, hof, ?_⟩
    · rw [hdone.agents]
      exact List.mem_map.mpr ⟨a, ha, if_pos (mem_idsOf_grouped.mpr ⟨_, hplaced, rfl⟩)⟩
    · obtain ⟨hwinner, hwkey⟩ := (mem_group hg).mp hwinner
      exact h.livesIn_iff.mpr ⟨winner, hwinner, rfl, hwkey.trans hkey⟩
    · obtain ⟨p, hp, rfl, hpkey⟩ := h.livesIn_iff.mp hb
      exact hmax p ((mem_group hg).mpr ⟨hp, hpkey.trans hkey.symm⟩)
    · exact hasInstance_iff.mp (hcovered _ hmem)
  case spared =>
    intro a ha hhome
    rw [hdone.agents]
    refine List.mem_map.mpr ⟨a, ha, if_neg fun hid => ?_⟩
    obtain ⟨p, hp, hid⟩ := mem_idsOf_grouped.mp hid
    obtain ⟨b, hb, hlive, w, hw, rfl⟩ := mem_placedOf.mp hp
    obtain rfl := db.agents.eq_of_key_eq hb ha hid
    rw [← h.homeOf_eq hb hlive, hhome hlive] at hw
    cases hw
  case otherEntities =>
    intro f hout
    have hkeys : f.isActiveCerebellum = true →
        f.namespaceId ∉ (grouped Placed.namespaceId (placedOf db)).map Prod.fst := by
      intro hactive hmem
      obtain ⟨p, hp, hns⟩ := mem_grouped_keys.mp hmem
      exact hout hactive p.agent (h.livesIn_iff.mpr ⟨p, hp, rfl, hns⟩)
    refine ⟨fun hf => ?_, fun hf => hdone.kept f hf hkeys⟩
    exact (hdone.back f hf).resolve_right fun ⟨hactive, hmem⟩ => hkeys hactive hmem
  case newInstances =>
    refine ⟨new, hnew, fun i hi => ?_⟩
    obtain ⟨g, hg, p, hp, entityId, rfl, hnone⟩ := hmade i hi
    obtain ⟨a, ha, hlive, w, hw, rfl⟩ := mem_placedOf.mp ((mem_group hg).mp hp).1
    refine ⟨rfl, ⟨w, ?_, rfl, h a ha hlive w hw⟩, fun j hj hactive hplace => ?_⟩
    · unfold workspaceOf at hw
      obtain ⟨hub, _, hw⟩ := Option.bind_eq_some_iff.mp hw
      exact Table.find?_mem hw
    · obtain ⟨hws, hentity⟩ := Prod.mk.inj hplace
      have hhas := hasInstance_iff.mpr ⟨j, hj, hactive, hentity, hws⟩
      exact Bool.false_ne_true (hnone.symm.trans hhas)
  case onePerPlace =>
    intro i hi j hj hactive hactive' hplace
    exact db'.uniqueInstance.eq hi hj hactive hactive' hplace
  case orphaned =>
    rw [horphaned, List.countP_filter]
    refine List.countP_congr fun a ha => ?_
    rw [Bool.and_eq_true, Bool.and_eq_true, and_comm]
    refine and_congr_right fun hlive => ?_
    rw [h.homeOf_eq ha hlive, placeOf_eq, Option.isNone_map]

/-- An agent in a deleted workspace is moved as the others are. -/
theorem noneInDeleted_of_migrated {report : Report}
    (hdone : Done uuids now (grouped Placed.namespaceId (placedOf db)) db db')
    (h : Migrated now db db' report) : NoneInDeleted db := by
  intro a ha hlive w hw
  by_contra hdeleted
  have hhome : homeOf db a = none := by
    refine Option.eq_none_iff_forall_ne_some.mpr fun w' hw' => hdeleted ?_
    obtain ⟨hw', hactive⟩ := homeOf_eq_some.mp hw'
    rw [hw] at hw'
    exact Option.some.inj hw' ▸ hactive
  have hid : a.id ∈ idsOf (grouped Placed.namespaceId (placedOf db)) :=
    mem_idsOf_grouped.mpr ⟨_, mem_placedOf.mpr ⟨a, ha, hlive, w, hw, rfl⟩, rfl⟩
  have hmem : softDelete now a ∈ db'.agents.rows := by
    rw [hdone.agents]
    exact List.mem_map.mpr ⟨a, ha, if_pos hid⟩
  have hsame := db'.agents.eq_of_key_eq (h.spared a ha fun _ => hhome) hmem rfl
  rw [hsame] at hlive
  cases hlive

theorem noneInDeleted_of_migrates (hfresh : Fresh uuids db) (h : Migrates uuids now db) :
    NoneInDeleted db := by
  obtain ⟨db', report, hrun, hdone, -⟩ := migrateCerebellum_done now hfresh
  obtain ⟨db₁, report₁, hrun₁, hmigrated, -⟩ := h
  obtain ⟨rfl, rfl⟩ := Prod.mk.inj (Except.ok.inj (hrun.symm.trans hrun₁))
  exact noneInDeleted_of_migrated hdone hmigrated

/-- The migration does what it is for exactly if no live agent is led to a deleted workspace. -/
theorem migrates_iff (now : Time) (hfresh : Fresh uuids db) :
    Migrates uuids now db ↔ NoneInDeleted db := by
  refine ⟨noneInDeleted_of_migrates hfresh, fun h => ?_⟩
  obtain ⟨db', report, hrun, hdone, horphaned⟩ := migrateCerebellum_done now hfresh
  exact ⟨db', report, hrun, migrated_of_done h hdone horphaned, migrateCerebellum_again hdone⟩

/-- Two agents of one namespace, the workspace of one of them deleted at a time or not. -/
def twoAgents (deletedAt : Option Time) : Db where
  agents := ⟨[⟨"a1", "h1", "base".toList, none, "idle".toList, some 4, "one".toList, 1, none⟩,
    ⟨"a2", "h2", "base".toList, some "hi".toList, "failed".toList, none, "two".toList, 2, none⟩],
    by decide⟩
  hubs := ⟨[⟨"h1", "w1", none⟩, ⟨"h2", "w2", none⟩], by decide⟩
  workspaces := ⟨[⟨"w1", "ns", none⟩, ⟨"w2", "ns", deletedAt⟩],
    (by decide : ["w1", "w2"].Nodup)⟩
  entities := .empty
  instances := .empty
  events := .empty
  uniqueSlug := List.nodup_nil
  uniqueCerebellum := List.nodup_nil
  uniqueInstance := List.nodup_nil
  namespaceIds := by
    intro w hw
    obtain rfl | rfl : w = ⟨"w1", "ns", none⟩ ∨ w = ⟨"w2", "ns", deletedAt⟩ := by simpa using hw
    all_goals exact (by decide : "ns" ≠ "")

def sameIds : Uuids := ⟨id, id, id, Function.injective_id, Function.injective_id,
  Function.injective_id⟩

theorem fresh_twoAgents (deletedAt : Option Time) : Fresh sameIds (twoAgents deletedAt) :=
  ⟨fun _ => List.not_mem_nil, fun _ => List.not_mem_nil, fun _ => List.not_mem_nil⟩

theorem migrates_iff_twoAgents :
    Fresh sameIds (twoAgents none) ∧
      (Migrates sameIds 9 (twoAgents none) ↔ NoneInDeleted (twoAgents none)) :=
  ⟨fresh_twoAgents none, migrates_iff 9 (fresh_twoAgents none)⟩

/-- The agent of the deleted workspace is moved, and has an instance there. -/
theorem not_migrates_deleted : ¬ Migrates sameIds 9 (twoAgents (some 3)) := by
  intro h
  have hnone := noneInDeleted_of_migrates (fresh_twoAgents (some 3)) h
  have hmem : (⟨"a2", "h2", "base".toList, some "hi".toList, "failed".toList, none, "two".toList, 2,
      none⟩ : CerebellumAgent) ∈ (twoAgents (some 3)).agents.rows :=
    List.mem_cons_of_mem _ List.mem_cons_self
  have hdeleted := hnone _ hmem rfl ⟨"w2", "ns", some 3⟩ rfl
  cases hdeleted

end Eyot.Cerebellum
