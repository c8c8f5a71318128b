import Eyot.Brainstem.Isolation
import Eyot.Brainstem.Requests
import Eyot.Library.Keeps
import Eyot.Library.Run

/-! Schedules that outlive what they belong to. A tick reads the row of the schedule alone, so
nothing is queued for an orphan if and only if no request leaves one behind. -/

namespace Eyot.Brainstem

variable {ν : Type} {X : Outside ν} {s r : BrainstemSchedule}

/-- What a tick may come to fire. -/
structure Armed (s : BrainstemSchedule) : Prop where
  enabled : s.enabled = true
  kept : s.deleted = false
  next : s.nextRunAt.isSome = true

/-- The hub of the schedule is in the workspace, and neither of them is deleted. -/
def Under (db : Db) (s : BrainstemSchedule) (workspaceId : Id) : Prop :=
  (∃ hub, db.hubs.find? s.centralHubId = some hub ∧ hub.deleted = false ∧
    hub.workspaceId = workspaceId) ∧
  ∃ w, db.workspaces.find? workspaceId = some w ∧ w.deletedAt = none

theorem payload_congr (h : s.actionPayload = r.actionPayload) : s.payload = r.payload := by
  rw [BrainstemSchedule.payload, BrainstemSchedule.payload, h]

variable [LinearOrder ν]

/-- A payload can be delivered whichever schedule it is of. -/
theorem Deliverable.congr {instances : Table Instance.id} (h : Deliverable X instances s)
    (hpayload : r.payload = s.payload) : Deliverable X instances r := by
  obtain ⟨htarget, hmode, htldr⟩ := h
  rw [← hpayload] at htarget hmode htldr
  exact ⟨htarget, hmode, htldr⟩

/-- All that counts of an instance is that it has a row, deleted or not. -/
theorem Deliverable.of_isSome {instances instances' : Table Instance.id}
    (h : Deliverable X instances' s)
    (hrows : ∀ id, (instances'.find? id).isSome = (instances.find? id).isSome) :
    Deliverable X instances s := by
  obtain ⟨v, hv, hrow⟩ := h.target
  exact ⟨⟨v, hv, hrows _ ▸ hrow⟩, h.mode, h.tldr⟩

def targetOf (X : Outside ν) (s : BrainstemSchedule) : Option Id :=
  (member? X s.payload "instance_id").map (instanceIdOf X)

/-- Nothing that the schedule belongs to is deleted, nor is its target, which is in the workspace of
its hub. -/
def Owned (X : Outside ν) (db : Db) (s : BrainstemSchedule) : Prop :=
  ∃ id i, targetOf X s = some id ∧ db.instances.find? id = some i ∧ i.deletedAt = none ∧
    Under db s i.workspaceId

/-- What a tick queues, it queues for schedules that are owned. -/
def Clean (X : Outside ν) (db : Db) : Move → Prop
  | .tick now locked => ∃ new, (tick X db now locked).queue = db.queue ++ new ∧
    ∀ d ∈ new, ∃ s ∈ db.schedules.rows, s.id = d.scheduleId ∧ Owned X db s
  | _ => True

/-- If a tick is going to queue this row of a schedule of the workspace, its target is at work there. -/
def Fits (X : Outside ν) (db : Db) (workspaceId : Id) (r : BrainstemSchedule) : Prop :=
  Armed r → Deliverable X db.instances r →
    (∃ w, db.workspaces.find? workspaceId = some w ∧ w.deletedAt = none) ∧
    ∃ id i, targetOf X r = some id ∧ db.instances.find? id = some i ∧ i.deletedAt = none ∧
      i.workspaceId = workspaceId

/-- The schedules that a request would leave behind, or those that it writes, are not such as a tick
comes to fire. -/
def Careful (X : Outside ν) (db : Db) : Move → Prop
  | .deleteWorkspace id _ => ∀ s ∈ db.schedules.rows, Armed s → Deliverable X db.instances s →
    ¬ Under db s id
  | .createInstance i => ∀ s ∈ db.schedules.rows, Armed s → Deliverable X (.single i) s →
    i.deletedAt = none ∧ Under db s i.workspaceId
  | .deleteInstance _ id _ | .deleteMembership id _ => ∀ s ∈ db.schedules.rows, Armed s →
    Deliverable X db.instances s → targetOf X s ≠ some id
  | .createSchedule _ workspaceId hubId id body now => ∀ next,
    computeNextRunAt X body.cronExpr now = .ok next →
      Fits X db workspaceId
        ⟨id, hubId, body.cronExpr, body.actionPayload, body.enabled, none, next, false⟩
  | .updateSchedule _ workspaceId _ id body now => ∀ s r, db.schedules.find? id = some s →
    body.apply X now s = some r → Fits X db workspaceId r
  | _ => True

/-- Requests that are refused need no care. -/
def Tidy (X : Outside ν) (db : Db) (m : Move) : Prop := (db.request X m).isSome = true → Careful X db m

/-- The invariant: what a tick may come to queue is owned. -/
def Sound (X : Outside ν) (db : Db) : Prop :=
  ∀ s ∈ db.schedules.rows, Armed s → Deliverable X db.instances s → Owned X db s

/-! A tick over a sound database. -/

/-- Rows that differ in when they ran and run next alone. -/
structure SameTask (s r : BrainstemSchedule) : Prop where
  id : s.id = r.id
  hub : s.centralHubId = r.centralHubId
  payload : s.actionPayload = r.actionPayload
  enabled : s.enabled = r.enabled
  deleted : s.deleted = r.deleted

section Tick

variable {db db' : Db} {now : Time} {locked : List Id} {due : List BrainstemSchedule}

theorem armed_of_isDue (h : s.isDue now = true) : Armed s := by
  rw [BrainstemSchedule.isDue, Bool.and_eq_true, Bool.and_eq_true] at h
  obtain ⟨⟨henabled, hnext⟩, hkept⟩ := h
  refine ⟨henabled, by simpa using hkept, ?_⟩
  cases hsome : s.nextRunAt with
  | none =>
    rw [hsome] at hnext
    cases hnext
  | some t => rfl

/-- A tick writes when a schedule ran and runs next, and only of those that are due. -/
theorem fireAll_rows (h : fireAll X now db due = .ok db') : ∀ r ∈ db'.schedules.rows,
    ∃ s ∈ db.schedules.rows, SameTask s r ∧ (r = s ∨ s.id ∈ due.map BrainstemSchedule.id) := by
  induction due generalizing db with
  | nil =>
    cases h
    exact fun r hr => ⟨r, hr, ⟨rfl, rfl, rfl, rfl, rfl⟩, .inl rfl⟩
  | cons s due ih =>
    obtain ⟨o, next, -, -, hrest⟩ := fireAll_cons.mp h
    intro r hr
    obtain ⟨s', hs', hsame, hlast⟩ := ih hrest r hr
    have hrow : s' ∈ (db.schedules.update s.id (BrainstemSchedule.ran now next) fun _ => rfl).rows := hs'
    obtain ⟨s₀, hs₀, hs'⟩ := Table.mem_updateWhere.mp hrow
    by_cases hid : s₀.id = s.id
    · rw [if_pos (decide_eq_true hid)] at hs'
      subst hs'
      refine ⟨s₀, hs₀, ⟨hsame.id, hsame.hub, hsame.payload, hsame.enabled, hsame.deleted⟩, .inr ?_⟩
      exact hid ▸ List.mem_cons_self
    · rw [if_neg (by simpa using hid)] at hs'
      subst hs'
      exact ⟨s₀, hs₀, hsame, hlast.imp_right fun h => List.mem_cons_of_mem _ h⟩

theorem fireAll_owners (h : fireAll X now db due = .ok db') :
    db'.hubs = db.hubs ∧ db'.workspaces = db.workspaces ∧ db'.instances = db.instances := by
  induction due generalizing db with
  | nil =>
    cases h
    exact ⟨rfl, rfl, rfl⟩
  | cons s due ih =>
    obtain ⟨o, next, -, -, hrest⟩ := fireAll_cons.mp h
    exact @ih (db.fired now s o next) hrest

theorem sound_tick (h : Sound X db) (now : Time) (locked : List Id) :
    Sound X (tick X db now locked) := by
  cases hall : fireAll X now db (dueSchedules db now locked) with
  | error e =>
    rw [tick, tickInSession, hall]
    exact h
  | ok db' =>
    rw [tick_of_ok hall]
    obtain ⟨hhubs, hworkspaces, hinstances⟩ := fireAll_owners hall
    intro r hr harmed hdeliverable
    obtain ⟨s, hs, hsame, hlast⟩ := fireAll_rows hall r hr
    have hpayload : r.payload = s.payload := payload_congr hsame.payload.symm
    have hsarmed : Armed s := by
      obtain rfl | hdue := hlast
      · exact harmed
      · obtain ⟨s', hs', hid⟩ := List.mem_map.mp hdue
        obtain ⟨hrow, htime, -⟩ := mem_dueSchedules.mp hs'
        obtain rfl := db.schedules.eq_of_key_eq hrow hs hid
        exact armed_of_isDue htime
    rw [hinstances] at hdeliverable
    obtain ⟨id, i, htarget, hi, hlive, ⟨hub, hhub, hhlive⟩, w, hw, hwlive⟩ :=
      h s hs hsarmed (hdeliverable.congr hpayload.symm)
    rw [targetOf, ← hpayload] at htarget
    rw [hsame.hub] at hhub
    rw [← hhubs] at hhub
    rw [← hinstances] at hi
    rw [← hworkspaces] at hw
    exact ⟨id, i, htarget, hi, hlive, ⟨hub, hhub, hhlive⟩, w, hw, hwlive⟩

end Tick

/-! The other requests. -/

section Requests

variable {db db' : Db}

/-- The owners of `db` are there as they were, and others may be. -/
structure Extends (db db' : Db) : Prop where
  hub : ∀ id hub, db.hubs.find? id = some hub → db'.hubs.find? id = some hub
  workspace : ∀ id w, db.workspaces.find? id = some w → db'.workspaces.find? id = some w
  instances : db'.instances = db.instances
  schedules : db'.schedules = db.schedules

omit [LinearOrder ν] in
theorem Extends.under (h : Extends db db') {id : Id} (hunder : Under db s id) : Under db' s id := by
  obtain ⟨⟨hub, hhub, hlive⟩, w, hw, hwlive⟩ := hunder
  exact ⟨⟨hub, h.hub _ _ hhub, hlive⟩, w, h.workspace _ _ hw, hwlive⟩

theorem Extends.owned (h : Extends db db') (howned : Owned X db s) : Owned X db' s := by
  obtain ⟨id, i, htarget, hi, hlive, hunder⟩ := howned
  exact ⟨id, i, htarget, h.instances ▸ hi, hlive, h.under hunder⟩

theorem Extends.sound (h : Extends db db') (hsound : Sound X db) : Sound X db' := by
  intro s hs harmed hdeliverable
  rw [h.schedules] at hs
  rw [h.instances] at hdeliverable
  exact h.owned (hsound s hs harmed hdeliverable)

theorem extends_createWorkspace {id namespaceId hubId : Id}
    (h : db.createWorkspace id namespaceId hubId = some db') : Extends db db' := by
  obtain ⟨workspaces, hworkspaces, h⟩ := Option.bind_eq_some_iff.mp h
  obtain ⟨hubs, hhubs, h⟩ := Option.bind_eq_some_iff.mp h
  cases h
  exact ⟨fun _ _ => Table.find?_of_insert? hhubs, fun _ _ => Table.find?_of_insert? hworkspaces,
    rfl, rfl⟩

/-- The hub is a live one of the workspace. -/
theorem getOrCreateCentralHub_eq_some {workspaceId newId : Id} {hub : CentralHub}
    (h : db.getOrCreateCentralHub workspaceId newId = some (hub, db')) : Extends db db' ∧
      db'.hubs.find? hub.id = some hub ∧ hub.deleted = false ∧ hub.workspaceId = workspaceId := by
  rw [Db.getOrCreateCentralHub] at h
  split at h
  · rename_i hub' hfind
    cases h
    have hlive := List.find?_some hfind
    rw [Bool.and_eq_true, decide_eq_true_eq] at hlive
    refine ⟨⟨fun _ _ => id, fun _ _ => id, rfl, rfl⟩, ?_, by simpa using hlive.2, hlive.1⟩
    exact db.hubs.find?_of_mem (List.mem_of_find?_eq_some hfind)
  · split at h
    · obtain ⟨hubs, hhubs, h⟩ := Option.map_eq_some_iff.mp h
      cases h
      refine ⟨⟨fun _ _ => Table.find?_of_insert? hhubs, fun _ _ => id, rfl, rfl⟩, ?_, rfl, rfl⟩
      rw [Table.find?_insert? hhubs, if_pos rfl]
    · cases h

theorem sound_deleteWorkspace {id : Id} {now : Time} (hsound : Sound X db)
    (hcareful : Careful X db (.deleteWorkspace id now)) (h : db.deleteWorkspace id now = some db') :
    Sound X db' := by
  obtain ⟨w, -, h⟩ := Option.bind_eq_some_iff.mp h
  cases h
  intro s hs harmed hdeliverable
  have hbefore : Deliverable X db.instances s :=
    hdeliverable.of_isSome fun _ => by simp [Table.find?_updateWhere]
  obtain ⟨target, i, htarget, hi, hlive, hunder⟩ := hsound s hs harmed hbefore
  have hother : i.workspaceId ≠ id := by
    rintro rfl
    exact hcareful s hs harmed hbefore hunder
  obtain ⟨⟨hub, hhub, hhlive, hin⟩, w', hw', hwlive⟩ := hunder
  refine ⟨target, i, htarget, ?_, hlive, ⟨hub, ?_, hhlive, hin⟩, w', ?_, hwlive⟩
  · simp [Table.find?_updateWhere, hi, hother]
  · simp [Table.find?_updateWhere, hhub, hin, hother]
  · have hid : w'.id ≠ id := Table.find?_key hw' ▸ hother
    simp [Table.update, Table.find?_updateWhere, hw', hid]

theorem sound_removeInstance {id : Id} (now : Time) (hsound : Sound X db)
    (hcareful : ∀ s ∈ db.schedules.rows, Armed s → Deliverable X db.instances s →
      targetOf X s ≠ some id) : Sound X (db.removeInstance id now) := by
  intro s hs harmed hdeliverable
  have hbefore : Deliverable X db.instances s := hdeliverable.of_isSome fun _ => by
    simp [Db.removeInstance, Table.update, Table.find?_updateWhere]
  obtain ⟨target, i, htarget, hi, hlive, hunder⟩ := hsound s hs harmed hbefore
  have hid : i.id ≠ id := by
    rw [Table.find?_key hi]
    rintro rfl
    exact hcareful s hs harmed hbefore htarget
  refine ⟨target, i, htarget, ?_, hlive, hunder⟩
  simp [Db.removeInstance, Table.update, Table.find?_updateWhere, hi, hid]

theorem sound_createInstance {i : Instance} (hsound : Sound X db)
    (hcareful : Careful X db (.createInstance i)) {instances : Table Instance.id}
    (h : db.instances.insert? i = some instances) :
    Sound X { db with instances := instances } := by
  intro s hs harmed hdeliverable
  obtain ⟨v, hv, hrow⟩ := hdeliverable.target
  by_cases hid : i.id = instanceIdOf X v
  · have hsingle : Deliverable X (.single i) s :=
      ⟨⟨v, hv, by simp [Table.single, Table.find?, hid]⟩, hdeliverable.mode, hdeliverable.tldr⟩
    obtain ⟨hlive, hunder⟩ := hcareful s hs harmed hsingle
    refine ⟨i.id, i, by rw [targetOf, hv, hid]; rfl, ?_, hlive, hunder⟩
    rw [Table.find?_insert? h, if_pos rfl]
  · rw [Table.find?_insert? h, if_neg hid] at hrow
    obtain ⟨target, i', htarget, hi', hlive, hunder⟩ :=
      hsound s hs harmed ⟨⟨v, hv, hrow⟩, hdeliverable.mode, hdeliverable.tldr⟩
    exact ⟨target, i', htarget, Table.find?_of_insert? h hi', hlive, hunder⟩

/-- A row that fits the workspace is owned under any hub of the workspace. -/
theorem Fits.owned {workspaceId : Id} (h : Fits X db workspaceId s) (hextends : Extends db db')
    (hpayload : s.payload = r.payload) {hub : CentralHub}
    (hhub : db'.hubs.find? r.centralHubId = some hub) (hlive : hub.deleted = false)
    (hin : hub.workspaceId = workspaceId) (harmed : Armed s)
    (hdeliverable : Deliverable X db'.instances r) : Owned X db' r := by
  rw [hextends.instances] at hdeliverable
  obtain ⟨⟨w, hw, hwlive⟩, id, i, htarget, hi, hilive, hiin⟩ := h harmed (hdeliverable.congr hpayload)
  refine ⟨id, i, ?_, hextends.instances ▸ hi, hilive, ⟨hub, hhub, hlive, hin.trans hiin.symm⟩, w, ?_,
    hwlive⟩
  · rw [targetOf, ← hpayload]
    exact htarget
  · rw [hiin]
    exact hextends.workspace _ _ hw

theorem sound_createSchedule {c : Caller} {workspaceId hubId id : Id}
    {body : BrainstemScheduleCreate} {now : Time} (hsound : Sound X db)
    (hcareful : Careful X db (.createSchedule c workspaceId hubId id body now))
    (h : db.createSchedule X c workspaceId hubId id body now = some db') : Sound X db' := by
  rw [Db.createSchedule] at h
  split at h
  · obtain ⟨⟨hub, db₁⟩, hget, h⟩ := Option.bind_eq_some_iff.mp h
    obtain ⟨next, hnext, h⟩ := Option.bind_eq_some_iff.mp h
    obtain ⟨schedules, hinsert, h⟩ := Option.bind_eq_some_iff.mp h
    cases h
    obtain ⟨hextends, hhub, hlive, hin⟩ := getOrCreateCentralHub_eq_some hget
    intro s hs harmed hdeliverable
    obtain hs | rfl := (Table.mem_insert? hinsert).mp hs
    · exact hextends.sound hsound s hs harmed hdeliverable
    · have hok : computeNextRunAt X body.cronExpr now = .ok next := by
        cases hcompute : computeNextRunAt X body.cronExpr now with
        | error e =>
          rw [hcompute] at hnext
          cases hnext
        | ok next' =>
          rw [hcompute] at hnext
          cases hnext
          rfl
      have howned : Owned X db₁ ⟨id, hub.id, body.cronExpr, body.actionPayload, body.enabled, none,
          next, false⟩ := (hcareful next hok).owned hextends rfl hhub hlive hin
        ⟨harmed.enabled, harmed.kept, harmed.next⟩ hdeliverable
      exact howned
  · cases h

omit [LinearOrder ν] in
theorem mem_putSchedule (h : s ∈ (db.putSchedule r).schedules.rows) :
    s = r ∨ s ∈ db.schedules.rows := by
  simp only [Db.putSchedule, Table.mem_updateWhere] at h
  obtain ⟨s₀, hs₀, rfl⟩ := h
  by_cases hid : s₀.id = r.id
  · left
    simp [hid]
  · right
    simpa [hid] using hs₀

theorem Sound.putSchedule (h : Sound X db)
    (hr : Armed r → Deliverable X db.instances r → Owned X db r) : Sound X (db.putSchedule r) := by
  intro s hs harmed hdeliverable
  obtain rfl | hs := mem_putSchedule hs
  · exact hr harmed hdeliverable
  · exact h s hs harmed hdeliverable

omit [LinearOrder ν] in
theorem activeSchedule?_eq_some {hub : CentralHub} {id : Id} :
    db.activeSchedule? hub id = some s ↔
      db.schedules.find? id = some s ∧ s.centralHubId = hub.id ∧ s.deleted = false := by
  simp [Db.activeSchedule?, Option.filter_eq_some_iff]

omit [LinearOrder ν] in
theorem apply_centralHubId {body : BrainstemScheduleUpdate} {now : Time}
    (h : body.apply X now s = some r) : r.centralHubId = s.centralHubId := by
  obtain ⟨cronExpr, -, h⟩ := Option.bind_eq_some_iff.mp h
  obtain ⟨enabled, -, h⟩ := Option.bind_eq_some_iff.mp h
  dsimp only at h
  split at h
  · obtain ⟨next, -, h⟩ := Option.bind_eq_some_iff.mp h
    cases h
    rfl
  · cases h
    rfl

theorem sound_updateSchedule {c : Caller} {workspaceId hubId id : Id}
    {body : BrainstemScheduleUpdate} {now : Time} (hsound : Sound X db)
    (hcareful : Careful X db (.updateSchedule c workspaceId hubId id body now))
    (h : db.updateSchedule X c workspaceId hubId id body now = some db') : Sound X db' := by
  rw [Db.updateSchedule] at h
  split at h
  · obtain ⟨⟨hub, db₁⟩, hget, h⟩ := Option.bind_eq_some_iff.mp h
    obtain ⟨s, hs, h⟩ := Option.bind_eq_some_iff.mp h
    obtain ⟨r, hr, h⟩ := Option.bind_eq_some_iff.mp h
    cases h
    obtain ⟨hextends, hhub, hlive, hin⟩ := getOrCreateCentralHub_eq_some hget
    obtain ⟨hfind, hof, -⟩ := activeSchedule?_eq_some.mp hs
    have hrow : db₁.hubs.find? r.centralHubId = some hub := by
      rw [apply_centralHubId hr, hof]
      exact hhub
    rw [hextends.schedules] at hfind
    have hfits := hcareful s r hfind hr
    exact (hextends.sound hsound).putSchedule fun harmed hdeliverable =>
      hfits.owned hextends rfl hrow hlive hin harmed hdeliverable
  · cases h

theorem sound_deleteSchedule {c : Caller} {workspaceId hubId id : Id} (hsound : Sound X db)
    (h : db.deleteSchedule c workspaceId hubId id = some db') : Sound X db' := by
  rw [Db.deleteSchedule] at h
  split at h
  · obtain ⟨⟨hub, db₁⟩, hget, h⟩ := Option.bind_eq_some_iff.mp h
    obtain ⟨s, -, h⟩ := Option.bind_eq_some_iff.mp h
    cases h
    obtain ⟨hextends, -⟩ := getOrCreateCentralHub_eq_some hget
    exact (hextends.sound hsound).putSchedule fun harmed => nomatch harmed.kept
  · cases h

/-- What is left behind by no request stays so. -/
theorem sound_request (hsound : Sound X db) {m : Move} (hcareful : Careful X db m)
    (h : db.request X m = some db') : Sound X db' := by
  cases m with
  | createNamespace ns =>
    obtain ⟨namespaces, -, rfl⟩ := Option.map_eq_some_iff.mp h
    exact hsound
  | deleteNamespace id =>
    cases h
    exact hsound
  | createWorkspace id namespaceId hubId => exact (extends_createWorkspace h).sound hsound
  | deleteWorkspace id now => exact sound_deleteWorkspace hsound hcareful h
  | createInstance i =>
    obtain ⟨instances, hinsert, rfl⟩ := Option.map_eq_some_iff.mp h
    exact sound_createInstance hsound hcareful hinsert
  | deleteInstance c id now =>
    obtain ⟨i, -, h⟩ := Option.bind_eq_some_iff.mp h
    split at h
    · cases h
      exact sound_removeInstance now hsound hcareful
    · cases h
  | deleteMembership id now =>
    obtain ⟨i, hi, rfl⟩ := Option.map_eq_some_iff.mp h
    have hid : i.id = id := Table.find?_key (Option.eq_some_of_filter_eq_some hi)
    rw [hid]
    exact sound_removeInstance now hsound hcareful
  | createHub workspaceId hubId =>
    obtain ⟨⟨hub, db₁⟩, hget, rfl⟩ := Option.map_eq_some_iff.mp h
    exact (getOrCreateCentralHub_eq_some hget).1.sound hsound
  | createSchedule c workspaceId hubId id body now => exact sound_createSchedule hsound hcareful h
  | updateSchedule c workspaceId hubId id body now => exact sound_updateSchedule hsound hcareful h
  | deleteSchedule c workspaceId hubId id => exact sound_deleteSchedule hsound h
  | tick now locked =>
    cases h
    exact sound_tick hsound now locked

theorem sound_step (hsound : Sound X db) {m : Move} (htidy : Tidy X db m) :
    Sound X (step X db m) := by
  rw [step]
  cases h : db.request X m with
  | none => exact hsound
  | some db' =>
    refine sound_request hsound (htidy ?_) h
    rw [h]
    rfl

end Requests

/-! Runs. -/

def warden : Caller := ⟨true, true⟩

def patrol : BrainstemScheduleCreate :=
  ⟨"* * * * *".toList, some ⟨[("instance_id".toList, .str "heron".toList)], rfl⟩, true⟩

def settled : List Move :=
  [.createWorkspace "delta" "wetlands" "hub",
    .createInstance ⟨"heron", "heron", "delta", .running, none⟩,
    .createSchedule warden "delta" "hub" "patrol" patrol 30]

end Eyot.Brainstem
