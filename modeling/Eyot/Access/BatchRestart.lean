import Eyot.Access.Permissions
import Eyot.Library.FailingFold
import Eyot.Library.Table

/-! The batch restart: the permission is asked for the first instance alone, and an entity is looked
at once, when it comes into the cache. -/

namespace Eyot.Access.BatchRestart

open FailingFold (bind_eq_ok)

structure Entity where
  id : Id
  migrationHash : Option Str
  deletedAt : Option Time

structure Instance where
  id : Id
  entityId : Id
  workspaceId : Id
  status : InstanceStatus
  activeHash : Option Str
  deletedAt : Option Time

def Instance.isLive (i : Instance) : Bool := i.deletedAt.isNone

def Instance.seat (i : Instance) : Id × Id := (i.workspaceId, i.entityId)

/-- The payload of `instance.batch_restarted`. -/
structure BatchRestarted where
  actorId : Id
  instanceIds : List Id
  reason : Option Str
  restartedCount : Nat

/-- With `uq_instances_workspace_entity`. -/
structure State where
  access : Access.Db
  entities : Table Entity.id
  instances : Table Instance.id
  events : List BatchRestarted
  uniqueWorkspaceEntity : UniqueOn Instance.isLive Instance.seat instances.rows

structure BatchRestartRequest where
  instanceIds : List Id
  reason : Option Str
  nonempty : instanceIds ≠ []

structure BatchRestartResultOut where
  restartedCount : Nat
  restartedAt : Time
  instanceIds : List Id
  skipped : List Id

inductive BatchFailure where
  | refusal (r : Refusal)
  | api (e : EyotError) (details : String × List Id)
  | indexError

/-- `repr` is that of a list of texts. -/
def instancesNotFound (repr : List Id → String) (missing : List Id) : BatchFailure :=
  .api (NotFoundError "instance.not_found" "errors.instance.not_found"
    s!"Instance(s) not found: {repr missing}") ("missing_instance_ids", missing)

def batchHasRunning (running : List Id) : BatchFailure :=
  .api (ConflictError "instance.batch_has_running" "errors.instance.batch_has_running"
    "Batch contains running instances; stop them first") ("running_instance_ids", running)

def Instance.resynced (hash : Option Str) (i : Instance) : Instance :=
  { i with activeHash := hash, status := .restarting }

theorem uniqueOn_update {instances : Table Instance.id} (id : Id) (hash : Option Str)
    (h : UniqueOn Instance.isLive Instance.seat instances.rows) :
    UniqueOn Instance.isLive Instance.seat
      (instances.update id (Instance.resynced hash) fun _ => rfl).rows := by
  have hlive : ∀ i : Instance,
      (if decide (i.id = id) then i.resynced hash else i).isLive = i.isLive := by
    intro i
    split <;> rfl
  have hseat : ∀ i : Instance,
      (if decide (i.id = id) then i.resynced hash else i).seat = i.seat := by
    intro i
    split <;> rfl
  refine h.map (fun i _ hi => hlive i ▸ hi) fun i _ j _ _ _ heq => ?_
  rw [hseat, hseat] at heq
  exact heq

namespace State

variable (s : State)

def update (id : Id) (hash : Option Str) : State :=
  { s with
    instances := s.instances.update id (Instance.resynced hash) fun _ => rfl
    uniqueWorkspaceEntity := uniqueOn_update id hash s.uniqueWorkspaceEntity }

/-- The rows that are asked for, in the order of the scan. -/
def requested (ids : List Id) : List Instance :=
  s.instances.rows.filter fun i => ids.contains i.id && i.deletedAt.isNone

end State

/-- What the loop carries along. -/
structure Loop where
  state : State
  restartedIds : List Id
  skipped : List Id
  entityCache : List (Id × Entity)

namespace Loop

variable (l : Loop)

def skip (i : Instance) : Loop := { l with skipped := l.skipped ++ [i.id] }

def restart (i : Instance) (e : Entity) : Loop :=
  { l with
    state := l.state.update i.id e.migrationHash
    restartedIds := l.restartedIds ++ [i.id] }

def cached (id : Id) (e : Entity) : Loop := { l with entityCache := (id, e) :: l.entityCache }

/-- An entity out of the cache is not asked whether it is deleted. -/
def resync (i : Instance) : Loop :=
  match l.entityCache.lookup i.entityId with
  | some e => l.restart i e
  | none =>
    match l.state.entities.find? i.entityId with
    | none => l.skip i
    | some e =>
      if e.deletedAt.isSome then (l.cached i.entityId e).skip i
      else (l.cached i.entityId e).restart i e

end Loop

def State.resyncAll (s : State) (ids : List Id) : Loop :=
  (s.requested ids).foldl Loop.resync ⟨s, [], [], []⟩

section

variable (repr : List Id → String) (s : State) (userId : Id) (xOrganizationId : Option Id)
  (body : BatchRestartRequest) (now : Time)

def requireOperator (workspaceId : Id) : Except BatchFailure Unit :=
  match requirePermission s.access userId "can_operate_workspace".toList
      ⟨xOrganizationId, none, some workspaceId⟩ with
  | .ok () => .ok ()
  | .error r => .error (.refusal r)

def batchRestartInstances : Except BatchFailure (BatchRestartResultOut × State) := do
  let instances := s.requested body.instanceIds
  let missing := body.instanceIds.filter fun id => !(instances.map Instance.id).contains id
  if missing ≠ [] then .error (instancesNotFound repr missing)
  else
    match instances.head? with
    | none => .error .indexError
    | some first => do
      requireOperator s userId xOrganizationId first.workspaceId
      let running := (instances.filter fun i => i.status = .running).map Instance.id
      if running ≠ [] then .error (batchHasRunning running)
      else
        let l := s.resyncAll body.instanceIds
        let event : BatchRestarted := ⟨userId, body.instanceIds, body.reason, l.restartedIds.length⟩
        return (⟨l.restartedIds.length, now, l.restartedIds, l.skipped⟩,
          { l.state with events := l.state.events ++ [event] })

/-- What is answered, and what is committed. -/
def request : State × Except BatchFailure BatchRestartResultOut :=
  match batchRestartInstances repr s userId xOrganizationId body now with
  | .ok (out, s') => (s', .ok out)
  | .error e => (s, .error e)

end

/-- What the user may operate, whichever organization comes in the header. -/
def MayOperate (s : State) (userId workspaceId : Id) : Prop :=
  MayPass s.access userId "can_operate_workspace".toList ⟨none, none, some workspaceId⟩

/-- The instance is where the user may operate, and is now as its entity is, which is not deleted. -/
structure Restarted (s s' : State) (userId id : Id) (i : Instance) (e : Entity) : Prop where
  row : s.instances.find? id = some i
  kept : i.deletedAt = none
  allowed : MayOperate s userId i.workspaceId
  entity : s.entities.find? i.entityId = some e
  live : e.deletedAt = none
  resynced : s'.instances.find? id = some (i.resynced e.migrationHash)

structure Accounted (s s' : State) (userId : Id) (ids : List Id) (out : BatchRestartResultOut) :
    Prop where
  restarted : ∀ id ∈ out.instanceIds, ∃ i e, Restarted s s' userId id i e
  others : ∀ id ∉ out.instanceIds, s'.instances.find? id = s.instances.find? id
  complete : ∀ id, id ∈ ids ↔ id ∈ out.instanceIds ∨ id ∈ out.skipped
  apart : (out.instanceIds ++ out.skipped).Nodup

/-- The request fails and changes nothing, or restarts what it should and accounts for the rest. -/
def Lawful (repr : List Id → String) (s : State) (userId : Id) (xOrganizationId : Option Id)
    (body : BatchRestartRequest) (now : Time) : Prop :=
  (∃ e, request repr s userId xOrganizationId body now = (s, .error e)) ∨
    ∃ s' out, request repr s userId xOrganizationId body now = (s', .ok out) ∧
      Accounted s s' userId body.instanceIds out

/-! What the loop restarts, told by the entities that came before. -/

section Loop

variable {entities : Table Entity.id} {seen : List Id} {cache : List (Id × Entity)}
  {i j : Instance} {is : List Instance} {e : Entity} {l : Loop}

def picks (entities : Table Entity.id) (seen : List Id) (i : Instance) : Bool :=
  (entities.find? i.entityId).any fun e => e.deletedAt.isNone || seen.contains i.entityId

def restarts (entities : Table Entity.id) : List Id → List Instance → List Instance
  | _, [] => []
  | seen, i :: is =>
    if picks entities seen i then i :: restarts entities (i.entityId :: seen) is
    else restarts entities (i.entityId :: seen) is

def skips (entities : Table Entity.id) : List Id → List Instance → List Instance
  | _, [] => []
  | seen, i :: is =>
    if picks entities seen i then skips entities (i.entityId :: seen) is
    else i :: skips entities (i.entityId :: seen) is

theorem picks_iff : picks entities seen i = true ↔ ∃ e, entities.find? i.entityId = some e ∧
    (e.deletedAt = none ∨ i.entityId ∈ seen) := by
  simp [picks, Option.any_eq_true]

theorem mem_restarts_cons : j ∈ restarts entities seen (i :: is) ↔
    (j = i ∧ picks entities seen i = true) ∨ j ∈ restarts entities (i.entityId :: seen) is := by
  rw [restarts]
  split
  · simp [*]
  · simp [*]

theorem restarts_sublist : (restarts entities seen is).Sublist is := by
  induction is generalizing seen with
  | nil => exact List.Sublist.refl []
  | cons i is ih =>
    rw [restarts]
    split
    · exact ih.cons_cons i
    · exact ih.cons i

/-- Every instance is restarted or skipped, and none of them both. -/
theorem restarts_skips_perm :
    (restarts entities seen is ++ skips entities seen is).Perm is := by
  induction is generalizing seen with
  | nil => exact .refl []
  | cons i is ih =>
    rw [restarts, skips]
    split
    · exact ih.cons i
    · exact List.perm_middle.trans (ih.cons i)

theorem mem_restarts_of_live (hi : i ∈ is) (he : entities.find? i.entityId = some e)
    (hlive : e.deletedAt = none) : i ∈ restarts entities seen is := by
  induction is generalizing seen with
  | nil => cases hi
  | cons j is ih =>
    rw [mem_restarts_cons]
    obtain rfl | hi := List.mem_cons.mp hi
    · exact .inl ⟨rfl, picks_iff.mpr ⟨e, he, .inl hlive⟩⟩
    · exact .inr (ih hi)

theorem mem_restarts_of_seen (hi : i ∈ is) (he : entities.find? i.entityId = some e)
    (hseen : i.entityId ∈ seen) : i ∈ restarts entities seen is := by
  induction is generalizing seen with
  | nil => cases hi
  | cons j is ih =>
    rw [mem_restarts_cons]
    obtain rfl | hi := List.mem_cons.mp hi
    · exact .inl ⟨rfl, picks_iff.mpr ⟨e, he, .inr hseen⟩⟩
    · exact .inr (ih hi (List.mem_cons_of_mem _ hseen))

/-- Of two instances of one entity the later one is restarted, whatever the entity is like. -/
theorem mem_restarts_of_two (hi : i ∈ is) (hj : j ∈ is) (hne : i ≠ j)
    (hentity : i.entityId = j.entityId) (he : entities.find? i.entityId = some e) :
    i ∈ restarts entities seen is ∨ j ∈ restarts entities seen is := by
  induction is generalizing seen with
  | nil => cases hi
  | cons k is ih =>
    rw [mem_restarts_cons, mem_restarts_cons]
    obtain rfl | hi' := List.mem_cons.mp hi
    · have hj' := (List.mem_cons.mp hj).resolve_left hne.symm
      exact .inr (.inr (mem_restarts_of_seen hj' (hentity ▸ he) (hentity ▸ List.mem_cons_self)))
    · obtain rfl | hj' := List.mem_cons.mp hj
      · exact .inl (.inr (mem_restarts_of_seen hi' he (hentity ▸ List.mem_cons_self)))
      · exact (ih hi' hj').imp .inr .inr

/-- An instance of a deleted entity is restarted after another one only. -/
theorem of_mem_restarts (hids : (is.map Instance.id).Nodup) (hi : i ∈ restarts entities seen is) :
    ∃ e, entities.find? i.entityId = some e ∧ (e.deletedAt = none ∨ i.entityId ∈ seen ∨
      ∃ j ∈ is, j ≠ i ∧ j.entityId = i.entityId) := by
  induction is generalizing seen with
  | nil => cases hi
  | cons k is ih =>
    rw [List.map_cons, List.nodup_cons] at hids
    obtain ⟨rfl, hpicks⟩ | hi := mem_restarts_cons.mp hi
    · obtain ⟨e, he, h⟩ := picks_iff.mp hpicks
      exact ⟨e, he, h.imp_right .inl⟩
    · obtain ⟨e, he, hlive | hseen | ⟨j, hj, hother⟩⟩ := ih hids.2 hi
      · exact ⟨e, he, .inl hlive⟩
      · obtain heq | hseen := List.mem_cons.mp hseen
        · refine ⟨e, he, .inr (.inr ⟨k, List.mem_cons_self, ?_, heq.symm⟩)⟩
          rintro rfl
          exact hids.1 (List.mem_map_of_mem (restarts_sublist.subset hi))
        · exact ⟨e, he, .inr (.inl hseen)⟩
      · exact ⟨e, he, .inr (.inr ⟨j, List.mem_cons_of_mem k hj, hother⟩)⟩

/-- The cache holds the entities seen so far that are there, deleted or not. -/
def Caches (entities : Table Entity.id) (seen : List Id) (cache : List (Id × Entity)) : Prop :=
  ∀ id e, cache.lookup id = some e ↔ id ∈ seen ∧ entities.find? id = some e

theorem caches_nil : Caches entities [] [] := by
  intro id e
  exact iff_of_false nofun fun h => nomatch h.1

theorem Caches.cons_found (h : Caches entities seen cache) {id : Id}
    (he : entities.find? id = some e) : Caches entities (id :: seen) ((id, e) :: cache) := by
  intro id' e'
  rw [List.lookup_cons, List.mem_cons]
  by_cases hid : id' = id
  · subst hid
    rw [beq_self_eq_true, he]
    exact ⟨fun h => ⟨.inl rfl, h⟩, fun h => h.2⟩
  · rw [beq_eq_false_iff_ne.mpr hid, h id' e']
    exact and_congr_left' (or_iff_right hid).symm

theorem Caches.cons_of (h : Caches entities seen cache) {id : Id}
    (hid : id ∈ seen ∨ entities.find? id = none) : Caches entities (id :: seen) cache := by
  intro id' e'
  rw [h id' e', List.mem_cons]
  constructor
  · exact fun h => ⟨.inr h.1, h.2⟩
  · rintro ⟨rfl | hseen, he⟩
    · obtain hseen | hnone := hid
      · exact ⟨hseen, he⟩
      · rw [hnone] at he
        cases he
    · exact ⟨hseen, he⟩

/-- What the loop has done by the end of `is`. -/
structure Synced (entities : Table Entity.id) (seen : List Id) (is : List Instance) (l l' : Loop) :
    Prop where
  restartedIds : l'.restartedIds = l.restartedIds ++ (restarts entities seen is).map Instance.id
  skipped : l'.skipped = l.skipped ++ (skips entities seen is).map Instance.id
  others : ∀ id ∉ (restarts entities seen is).map Instance.id,
    l'.state.instances.find? id = l.state.instances.find? id
  resynced : ∀ i ∈ restarts entities seen is, l.state.instances.find? i.id = some i →
    ∃ e, entities.find? i.entityId = some e ∧
      l'.state.instances.find? i.id = some (i.resynced e.migrationHash)

theorem resync_of_picks (hentities : l.state.entities = entities)
    (hcache : Caches entities seen l.entityCache) (h : picks entities seen i = true) :
    ∃ e cache, entities.find? i.entityId = some e ∧
      l.resync i = { l.restart i e with entityCache := cache } ∧
      Caches entities (i.entityId :: seen) cache := by
  obtain ⟨e, he, h⟩ := picks_iff.mp h
  rw [Loop.resync]
  by_cases hseen : i.entityId ∈ seen
  · rw [(hcache _ _).mpr ⟨hseen, he⟩]
    exact ⟨e, _, he, rfl, hcache.cons_of (.inl hseen)⟩
  · have hnone : l.entityCache.lookup i.entityId = none := by
      rw [Option.eq_none_iff_forall_ne_some]
      exact fun e' he' => hseen ((hcache _ _).mp he').1
    have hlive := h.resolve_right hseen
    rw [hnone, hentities, he]
    refine ⟨e, _, rfl, ?_, hcache.cons_found he⟩
    simp only [hlive, Option.isSome_none, Bool.false_eq_true, if_false]
    rfl

theorem resync_of_not_picks (hentities : l.state.entities = entities)
    (hcache : Caches entities seen l.entityCache) (h : ¬ picks entities seen i = true) :
    ∃ cache, l.resync i = { l.skip i with entityCache := cache } ∧
      Caches entities (i.entityId :: seen) cache := by
  rw [picks_iff] at h
  have hnone : l.entityCache.lookup i.entityId = none := by
    rw [Option.eq_none_iff_forall_ne_some]
    intro e' he'
    obtain ⟨hseen, he⟩ := (hcache _ _).mp he'
    exact h ⟨e', he, .inr hseen⟩
  rw [Loop.resync, hnone, hentities]
  cases he : entities.find? i.entityId with
  | none => exact ⟨_, rfl, hcache.cons_of (.inr he)⟩
  | some e =>
    have hdeleted : e.deletedAt.isSome = true := by
      rw [Option.isSome_iff_ne_none]
      exact fun hlive => h ⟨e, he, .inl hlive⟩
    simp only [hdeleted, if_true]
    exact ⟨_, rfl, hcache.cons_found he⟩

theorem find?_update (s : State) (id id' : Id) (hash : Option Str) :
    (s.update id hash).instances.find? id' = if id' = id then
      (s.instances.find? id').map (Instance.resynced hash) else s.instances.find? id' := by
  refine (Table.find?_updateWhere s.instances (fun i => i.id = id) (Instance.resynced hash)
    (fun _ => rfl) id').trans ?_
  cases hfind : s.instances.find? id' with
  | none => split <;> rfl
  | some i =>
    rw [← Table.find?_key hfind]
    by_cases hid : i.id = id
    · simp [hid]
    · simp [hid]

theorem synced_foldl (hentities : l.state.entities = entities)
    (hcache : Caches entities seen l.entityCache) (hids : (is.map Instance.id).Nodup) :
    Synced entities seen is l (is.foldl Loop.resync l) := by
  induction is generalizing seen l with
  | nil =>
    refine ⟨?_, ?_, fun _ _ => rfl, nofun⟩
    · exact (List.append_nil _).symm
    · exact (List.append_nil _).symm
  | cons i is ih =>
    rw [List.map_cons, List.nodup_cons] at hids
    rw [List.foldl_cons]
    by_cases hpicks : picks entities seen i = true
    · obtain ⟨e, cache, he, hstep, hcache'⟩ := resync_of_picks hentities hcache hpicks
      rw [hstep]
      have hrest := @ih _ { l.restart i e with entityCache := cache } hentities hcache' hids.2
      have hnot : i.id ∉ (restarts entities (i.entityId :: seen) is).map Instance.id :=
        fun hmem => hids.1 ((restarts_sublist.map Instance.id).subset hmem)
      refine ⟨?_, ?_, ?_, ?_⟩
      · rw [hrest.restartedIds, restarts, if_pos hpicks, List.map_cons]
        exact List.append_assoc _ _ _
      · rw [hrest.skipped, skips, if_pos hpicks]
        rfl
      · intro id hid
        rw [restarts, if_pos hpicks, List.map_cons, List.mem_cons, not_or] at hid
        rw [hrest.others id hid.2]
        exact (find?_update _ _ _ _).trans (if_neg hid.1)
      · intro j hj hrow
        rw [restarts, if_pos hpicks, List.mem_cons] at hj
        obtain rfl | hj := hj
        · refine ⟨e, he, ?_⟩
          rw [hrest.others _ hnot]
          refine (find?_update _ _ _ _).trans ?_
          rw [if_pos rfl, hrow, Option.map_some]
        · have hne : j.id ≠ i.id := fun heq => hnot (heq ▸ List.mem_map_of_mem hj)
          exact hrest.resynced j hj ((find?_update _ _ _ _).trans ((if_neg hne).trans hrow))
    · obtain ⟨cache, hstep, hcache'⟩ := resync_of_not_picks hentities hcache hpicks
      rw [hstep]
      have hrest := @ih _ { l.skip i with entityCache := cache } hentities hcache' hids.2
      refine ⟨?_, ?_, ?_, ?_⟩
      · rw [hrest.restartedIds, restarts, if_neg hpicks]
        rfl
      · rw [hrest.skipped, skips, if_neg hpicks, List.map_cons]
        exact List.append_assoc _ _ _
      · intro id hid
        rw [restarts, if_neg hpicks] at hid
        exact hrest.others id hid
      · intro j hj hrow
        rw [restarts, if_neg hpicks] at hj
        exact hrest.resynced j hj hrow

end Loop

/-! The request. -/

section Request

variable {repr : List Id → String} {s s' : State} {userId : Id} {xOrganizationId : Option Id}
  {body : BatchRestartRequest} {now : Time} {ids : List Id} {i : Instance}

/-- All rows are there, the user may operate in the workspace of the first, and none is running. -/
structure Admitted (s : State) (userId : Id) (xOrganizationId : Option Id) (ids : List Id) :
    Prop where
  found : ∀ id ∈ ids, id ∈ (s.requested ids).map Instance.id
  operator : ∀ first, (s.requested ids).head? = some first →
    requireOperator s userId xOrganizationId first.workspaceId = .ok ()
  idle : ∀ i ∈ s.requested ids, i.status ≠ .running

theorem mem_requested : i ∈ s.requested ids ↔
    i ∈ s.instances.rows ∧ i.id ∈ ids ∧ i.deletedAt = none := by
  simp [State.requested]

theorem nodup_requested (s : State) (ids : List Id) :
    ((s.requested ids).map Instance.id).Nodup :=
  (List.filter_sublist.map _).nodup s.instances.keys_nodup

theorem find?_requested (hi : i ∈ s.requested ids) : s.instances.find? i.id = some i :=
  s.instances.find?_of_mem (mem_requested.mp hi).1

/-- What the request answers and leaves behind. -/
def outcome (s : State) (userId : Id) (body : BatchRestartRequest) (now : Time) :
    BatchRestartResultOut × State :=
  let l := s.resyncAll body.instanceIds
  (⟨l.restartedIds.length, now, l.restartedIds, l.skipped⟩,
    { l.state with
      events := l.state.events ++
        [⟨userId, body.instanceIds, body.reason, l.restartedIds.length⟩] })

theorem missing_eq_nil : (ids.filter fun id => !((s.requested ids).map Instance.id).contains id) = [] ↔
    ∀ id ∈ ids, id ∈ (s.requested ids).map Instance.id := by
  simp [List.filter_eq_nil_iff]

theorem running_eq_nil :
    ((s.requested ids).filter fun i => i.status = .running).map Instance.id = [] ↔
      ∀ i ∈ s.requested ids, i.status ≠ .running := by
  simp [List.filter_eq_nil_iff]

theorem batchRestartInstances_of_admitted
    (h : Admitted s userId xOrganizationId body.instanceIds) :
    batchRestartInstances repr s userId xOrganizationId body now =
      .ok (outcome s userId body now) := by
  have hmissing := missing_eq_nil.mpr h.found
  have hrunning := running_eq_nil.mpr h.idle
  obtain ⟨id, hid⟩ := List.exists_mem_of_ne_nil _ body.nonempty
  rw [batchRestartInstances, if_neg (not_not.mpr hmissing)]
  cases hhead : (s.requested body.instanceIds).head? with
  | none =>
    rw [List.head?_eq_none_iff] at hhead
    have hmem := h.found id hid
    rw [hhead] at hmem
    cases hmem
  | some first =>
    dsimp only
    rw [h.operator first hhead]
    exact if_neg (not_not.mpr hrunning)

theorem admitted_of_ok {out : BatchRestartResultOut}
    (h : batchRestartInstances repr s userId xOrganizationId body now = .ok (out, s')) :
    Admitted s userId xOrganizationId body.instanceIds := by
  rw [batchRestartInstances, guard_eq_ok, not_not, missing_eq_nil] at h
  obtain ⟨hfound, h⟩ := h
  cases hhead : (s.requested body.instanceIds).head? with
  | none =>
    rw [hhead] at h
    cases h
  | some first =>
    rw [hhead] at h
    obtain ⟨_, hoperator, h⟩ := bind_eq_ok.mp h
    rw [guard_eq_ok, not_not, running_eq_nil] at h
    refine ⟨hfound, fun first' hfirst' => ?_, h.1⟩
    rw [hhead] at hfirst'
    cases hfirst'
    exact hoperator

/-- The request is lawful if and only if what it does where it is let through is. -/
theorem lawful_iff_outcome : Lawful repr s userId xOrganizationId body now ↔
    (Admitted s userId xOrganizationId body.instanceIds →
      Accounted s (outcome s userId body now).2 userId body.instanceIds
        (outcome s userId body now).1) := by
  rw [Lawful, request]
  by_cases hadmitted : Admitted s userId xOrganizationId body.instanceIds
  · rw [batchRestartInstances_of_admitted hadmitted, imp_iff_right hadmitted]
    constructor
    · rintro (⟨e, h⟩ | ⟨s', out, h, haccounted⟩)
      · exact nomatch congrArg Prod.snd h
      · cases h
        exact haccounted
    · exact fun h => .inr ⟨_, _, rfl, h⟩
  · refine iff_of_true (.inl ?_) fun h => absurd h hadmitted
    cases hrun : batchRestartInstances repr s userId xOrganizationId body now with
    | ok result => exact absurd (admitted_of_ok hrun) hadmitted
    | error e => exact ⟨e, rfl⟩

theorem synced_resyncAll (s : State) (ids : List Id) :
    Synced s.entities [] (s.requested ids) ⟨s, [], [], []⟩ (s.resyncAll ids) :=
  synced_foldl rfl caches_nil (nodup_requested s ids)

theorem mem_restartedIds {id : Id} : id ∈ (s.resyncAll ids).restartedIds ↔
    ∃ i ∈ restarts s.entities [] (s.requested ids), i.id = id := by
  rw [(synced_resyncAll s ids).restartedIds, List.nil_append, List.mem_map]

/-- The ids of the rows that are there are shared out among the restarted and the skipped. -/
theorem resyncAll_perm (s : State) (ids : List Id) :
    ((s.resyncAll ids).restartedIds ++ (s.resyncAll ids).skipped).Perm
      ((s.requested ids).map Instance.id) := by
  rw [(synced_resyncAll s ids).restartedIds, (synced_resyncAll s ids).skipped, List.nil_append,
    List.nil_append, ← List.map_append]
  exact restarts_skips_perm.map Instance.id

/-- A row that is restarted for a live entity is restarted as it should be. -/
theorem restarted_of_live {e : Entity} (hi : i ∈ restarts s.entities [] (s.requested ids))
    (hs' : s'.instances = (s.resyncAll ids).state.instances)
    (he : s.entities.find? i.entityId = some e) (hlive : e.deletedAt = none)
    (hallowed : MayOperate s userId i.workspaceId) :
    Restarted s s' userId i.id i e := by
  have hrequested := restarts_sublist.subset hi
  have hrow := find?_requested hrequested
  obtain ⟨e', he', hresynced⟩ := (synced_resyncAll s ids).resynced i hi hrow
  rw [he] at he'
  cases he'
  exact ⟨hrow, (mem_requested.mp hrequested).2.2, hallowed, he, hlive, hs' ▸ hresynced⟩

theorem Restarted.of_requested {id : Id} {e e' : Entity} {j : Instance}
    (h : Restarted s s' userId id j e') (hi : i ∈ s.requested ids) (hid : i.id = id) (he : s.entities.find? i.entityId = some e) :
    MayOperate s userId i.workspaceId ∧ e.deletedAt = none := by
  obtain rfl : i = j := Option.some.inj ((find?_requested hi).symm.trans (hid ▸ h.row))
  obtain rfl : e = e' := Option.some.inj (he.symm.trans h.entity)
  exact ⟨h.allowed, h.live⟩

/-- A batch that is let through is lawful if and only if the user may operate all that is restarted
for a live entity, and no deleted entity has two instances in it. -/
theorem lawful_iff (repr : List Id → String) (s : State) (userId : Id)
    (xOrganizationId : Option Id) (body : BatchRestartRequest) (now : Time) :
    Lawful repr s userId xOrganizationId body now ↔
      (Admitted s userId xOrganizationId body.instanceIds →
        (∀ i ∈ s.requested body.instanceIds, ∀ e, s.entities.find? i.entityId = some e →
          e.deletedAt = none → MayOperate s userId i.workspaceId) ∧
        ∀ i ∈ s.requested body.instanceIds, ∀ j ∈ s.requested body.instanceIds,
          i.entityId = j.entityId → ∀ e, s.entities.find? i.entityId = some e →
            e.deletedAt ≠ none → i = j) := by
  rw [lawful_iff_outcome]
  refine imp_congr_right fun hadmitted => ?_
  constructor
  · intro h
    have hrestarted : ∀ i ∈ restarts s.entities [] (s.requested body.instanceIds), ∀ e,
        s.entities.find? i.entityId = some e →
          MayOperate s userId i.workspaceId ∧ e.deletedAt = none := by
      intro i hi e he
      obtain ⟨j, e', hj⟩ := h.restarted i.id (mem_restartedIds.mpr ⟨i, hi, rfl⟩)
      exact hj.of_requested (restarts_sublist.subset hi) rfl he
    constructor
    · intro i hi e he hlive
      exact (hrestarted i (mem_restarts_of_live hi he hlive) e he).1
    · intro i hi j hj hentity e he hdeleted
      by_contra hne
      obtain hi | hj := mem_restarts_of_two hi hj hne hentity he
      · exact hdeleted (hrestarted i hi e he).2
      · exact hdeleted (hrestarted j hj e (hentity ▸ he)).2
  · rintro ⟨hallowed, hone⟩
    refine ⟨?_, ?_, ?_, ?_⟩
    · intro id hid
      obtain ⟨i, hi, rfl⟩ := mem_restartedIds.mp hid
      have hrequested := restarts_sublist.subset hi
      obtain ⟨e, he, h⟩ := of_mem_restarts (nodup_requested s _) hi
      have hlive : e.deletedAt = none := by
        by_contra hdeleted
        obtain hlive | hseen | ⟨j, hj, hne, hentity⟩ := h
        · exact hdeleted hlive
        · cases hseen
        · exact hne (hone j hj i hrequested hentity e (hentity ▸ he) hdeleted)
      exact ⟨i, e, restarted_of_live hi rfl he hlive (hallowed i hrequested e he hlive)⟩
    · intro id hid
      apply (synced_resyncAll s body.instanceIds).others id
      rw [List.mem_map]
      exact fun h => hid (mem_restartedIds.mpr h)
    · intro id
      change _ ↔ id ∈ (s.resyncAll _).restartedIds ∨ id ∈ (s.resyncAll _).skipped
      rw [← List.mem_append, (resyncAll_perm s body.instanceIds).mem_iff]
      constructor
      · exact hadmitted.found id
      · intro hid
        obtain ⟨i, hi, rfl⟩ := List.mem_map.mp hid
        exact (mem_requested.mp hi).2.1
    · exact (resyncAll_perm s body.instanceIds).nodup_iff.mpr (nodup_requested s _)

end Request

/-! An operator of acme, and an instance each in a workspace of acme and in one of globex. -/

theorem nodup_organizations : (([⟨"acme", "acme".toList, false⟩, ⟨"globex", "globex".toList, false⟩] :
    List Market.Organization).map Market.Organization.id).Nodup := by decide

theorem nodup_namespaces : (([⟨"lab", "acme", false⟩, ⟨"ops", "globex", false⟩] :
    List Market.Namespace).map Market.Namespace.id).Nodup := by decide

theorem nodup_workspaces : (([⟨"reeds", "lab", none⟩, ⟨"den", "ops", none⟩] :
    List Workspace).map Workspace.id).Nodup := by decide

def operators : Access.Db where
  users := .single ⟨"wei", "wei".toList, none, "wei@acme".toList, false, false⟩
  organizations := ⟨_, nodup_organizations⟩
  namespaces := ⟨_, nodup_namespaces⟩
  workspaces := ⟨_, nodup_workspaces⟩
  userGenes := .single ⟨"atom", "can_operate_workspace".toList, "operate".toList, false⟩
  organization :=
    ⟨.single ⟨"seal", "acme", "wei", 0, false⟩, .single ⟨"grant", "seal", "atom", false⟩⟩
  namespaced := ⟨.empty, .empty⟩

def pair : List Instance :=
  [⟨"i1", "heron", "reeds", .pending, none, none⟩, ⟨"i2", "heron", "den", .pending, none, none⟩]

theorem nodup_pair : (pair.map Instance.id).Nodup := by decide

theorem uniqueOn_pair : UniqueOn Instance.isLive Instance.seat pair := by decide

def abroad : State where
  access := operators
  entities := .single ⟨"heron", some "h1".toList, none⟩
  instances := ⟨pair, nodup_pair⟩
  events := []
  uniqueWorkspaceEntity := uniqueOn_pair

def both : BatchRestartRequest := ⟨["i1", "i2"], none, List.cons_ne_nil _ _⟩

/-- Who may operate the first instance restarts them both. -/
theorem not_lawful : ¬ ∀ (repr : List Id → String) (s : State) (userId : Id)
    (xOrganizationId : Option Id) (body : BatchRestartRequest) (now : Time),
    Lawful repr s userId xOrganizationId body now := by
  intro h
  obtain ⟨e, h⟩ | ⟨s', out, h, haccounted⟩ := h (fun _ => "") abroad "wei" none both 0
  · exact nomatch congrArg Prod.snd h
  · have hout : out.instanceIds = ["i1", "i2"] := by
      have hsecond := congrArg Prod.snd h
      cases hsecond
      decide +kernel
    have hden : "i2" ∈ out.instanceIds := hout ▸ List.mem_cons_of_mem _ List.mem_cons_self
    obtain ⟨i, e, hrestarted⟩ := haccounted.restarted "i2" hden
    obtain rfl := Option.some.inj hrestarted.row
    obtain ⟨user, huser, hsuper | ⟨home, hhome, hgranted⟩⟩ := hrestarted.allowed
    · cases huser
      cases hsuper
    · cases hhome
      obtain ⟨-, ⟨c, hc, hscope, -⟩ | ⟨id, -, c, hc, -⟩⟩ := hgranted
      · obtain rfl := List.mem_singleton.mp hc
        exact absurd hscope (of_decide_eq_false rfl)
      · cases hc

end Eyot.Access.BatchRestart
