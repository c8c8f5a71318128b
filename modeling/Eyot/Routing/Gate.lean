import Eyot.Routing.MessageRouter

/-! What passes the gate of the message router, and what it leaves behind for the instances
that it keeps out. -/

namespace Eyot.Routing

open Slash (Directive)
open Traced

/-- An active passage of the workspace links a membership with the seat of an instance. -/
def Linked (db : Db) (workspaceId fromMembershipId : Id) (instance_ : Instance) : Prop :=
  ∃ seat ∈ db.memberships.rows, seat.instanceId = some instance_.id ∧
    seat.workspaceId = workspaceId ∧ seat.deletedAt = none ∧
    ∃ p ∈ db.passages.rows, p.workspaceId = workspaceId ∧ p.isActive = true ∧
      p.deletedAt = none ∧ Topology.joins p fromMembershipId seat.id = true

instance (db : Db) (workspaceId fromMembershipId : Id) (i : Instance) :
    Decidable (Linked db workspaceId fromMembershipId i) :=
  inferInstanceAs (Decidable (∃ seat ∈ db.memberships.rows, seat.instanceId = some i.id ∧
    seat.workspaceId = workspaceId ∧ seat.deletedAt = none ∧
    ∃ p ∈ db.passages.rows, p.workspaceId = workspaceId ∧ p.isActive = true ∧
      p.deletedAt = none ∧ Topology.joins p fromMembershipId seat.id = true))

/-- The effects a delivery consists of: a collaboration inject, or part of a chat turn. -/
def Effect.isDelivery : Effect → Bool
  | .inject row => row.kind = .collabInject
  | .turn _ | .viaTunnel .. | .chatRequest _ | .streamTask .. => true
  | .event _ | .composerMessage _ => false

def Effect.isAbout (instanceId : Id) (w : Effect) : Bool := w.instance? = some instanceId

/-- The transcript row that is written if the workspace is there. -/
def transcriptRow (db : Db) (d : Delivery) (instanceId : Id) (role : String) (content : Str)
    (authorUserId : Option Id) : List Effect :=
  match (db.workspaces.find? d.workspaceId).filter fun w => w.deletedAt.isNone with
  | none => []
  | some w => [.composerMessage
      { namespaceId := w.namespaceId
        workspaceId := d.workspaceId
        role := role
        content := content
        targetEntity := some d.targetEntity
        instanceId := some instanceId
        turnId := none
        status := "completed"
        authorUserId := authorUserId }]

def cerebellumRow (env : Surroundings) (d : Delivery) (instanceId : Id) : InstanceInjectQueue where
  id := env.queueId instanceId
  instanceId := instanceId
  kind := .cerebellumRoute
  deliveryMode := .notify
  payload := [("text", .text d.text), ("target_entity", .text d.targetEntity),
    ("from_membership_id", .id d.fromMembershipId)]
  status := "pending"
  expiresAt := env.now + defaultTtl

def cerebellumRequested (env : Surroundings) (d : Delivery) (instanceId : Id) : Event where
  type := "harness.inject_requested"
  actorType := "system"
  actorId := none
  resourceType := "instance"
  resourceId := instanceId
  payload := [("queue_id", .id (env.queueId instanceId)), ("kind", .word "cerebellum_route"),
    ("delivery_mode", .word "notify"), ("tldr", .text (d.text.take 200))]

/-- All that a blocked delivery leaves behind. -/
def blockedLog (env : Surroundings) (db : Db) (d : Delivery) (instanceId : Id) (blocked : Event) :
    List Effect :=
  if d.senderIsUser then
    .event blocked ::
      (transcriptRow db d instanceId "user" d.text d.authorUserId ++
        (transcriptRow db d instanceId "assistant" (templateReply d.targetEntity) none ++
          [.inject (cerebellumRow env d instanceId), .event (cerebellumRequested env d instanceId)]))
  else [.event blocked]

theorem upto_appendComposerMessage (db : Db) (d : Delivery) (instanceId : Id) (role : String)
    (content : Str) (authorUserId : Option Id) :
    Upto (transcriptRow db d instanceId role content authorUserId)
      (appendComposerMessage db d.workspaceId role content (some d.targetEntity) (some instanceId)
        none "completed" authorUserId) := by
  unfold transcriptRow appendComposerMessage
  cases (db.workspaces.find? d.workspaceId).filter fun w => w.deletedAt.isNone with
  | none => exact upto_pure none
  | some w => exact .tell_bind (upto_pure _)

theorem upto_enqueueCerebellum (env : Surroundings) (d : Delivery) (instanceId : Id) :
    Upto [.inject (cerebellumRow env d instanceId), .event (cerebellumRequested env d instanceId)]
      (enqueueInject env instanceId .cerebellumRoute .notify
        [("text", .text d.text), ("target_entity", .text d.targetEntity),
          ("from_membership_id", .id d.fromMembershipId)] (some (d.text.take 200))) := by
  unfold enqueueInject
  refine .silent_bind (upto_ofExcept _) fun _ _ => ?_
  refine .silent_bind (upto_ofExcept _) fun _ _ => ?_
  refine .tell_bind (.tell_bind ?_)
  exact .silent_bind (upto_pure _) fun _ _ => upto_pure _

def routedToCerebellum (d : Delivery) (instanceId : Id) (toMembershipId : Option Id) : Event :=
  deliveryBlocked d "instance" instanceId
    [("instance_id", .id instanceId), ("to_membership_id", optionalId toMembershipId),
      ("reason_detail", .word "routed_to_cerebellum"), ("text", .text d.text)]

theorem upto_routeToCerebellum (env : Surroundings) (db : Db) (d : Delivery) (instanceId : Id)
    (toMembershipId : Option Id) (huser : d.senderIsUser = true) :
    Upto (blockedLog env db d instanceId (routedToCerebellum d instanceId toMembershipId))
      (routeToCerebellum env db d instanceId toMembershipId) := by
  rw [blockedLog, if_pos huser]
  unfold routeToCerebellum
  refine .tell_bind ?_
  refine (upto_appendComposerMessage ..).bind fun _ _ => ?_
  refine (upto_appendComposerMessage ..).bind fun _ _ => ?_
  have h := (upto_enqueueCerebellum env d instanceId).bind (f := fun _ =>
    (pure ⟨d.targetEntity, false, some "routed_to_cerebellum", some instanceId, none⟩ :
      Routed MessageDeliveryResult)) fun _ _ => upto_pure _
  rwa [List.append_nil] at h

theorem returns_routeToCerebellum (env : Surroundings) (db : Db) (d : Delivery) (instanceId : Id)
    (toMembershipId : Option Id) :
    Returns (fun r => r.delivered = false) (routeToCerebellum env db d instanceId toMembershipId) := by
  unfold routeToCerebellum
  exact .bind fun _ _ => .bind fun _ _ => .bind fun _ _ => .bind fun _ _ => returns_pure rfl

theorem joins_normalizeEndpoints (p : Passage) (a b : Id) :
    Topology.joins p (Topology.normalizeEndpoints a b).1 (Topology.normalizeEndpoints a b).2 =
      Topology.joins p a b := by
  unfold Topology.normalizeEndpoints
  split
  · rfl
  · simp only [Topology.joins]
    rw [Bool.or_comm]

theorem findActivePassageBetween_eq (db : Db) (workspaceId a b : Id) :
    findActivePassageBetween db workspaceId a b = db.passages.rows.find? fun p =>
      p.workspaceId = workspaceId && p.isActive && p.deletedAt.isNone && Topology.joins p a b := by
  simp only [← joins_normalizeEndpoints _ a b]
  rfl

theorem linked_of_passage {db : Db} {d : Delivery} {instance_ : Instance} {seat : Membership}
    {p : Passage}
    (hseat : db.memberships.rows.filter (fun m => m.instanceId = some instance_.id &&
      m.workspaceId = d.workspaceId && m.deletedAt.isNone) = [seat])
    (hp : findActivePassageBetween db d.workspaceId d.fromMembershipId seat.id = some p) :
    Linked db d.workspaceId d.fromMembershipId instance_ := by
  have hmem : seat ∈ [seat] := List.mem_singleton_self seat
  rw [← hseat, List.mem_filter] at hmem
  obtain ⟨hrow, hcond⟩ := hmem
  simp only [Bool.and_eq_true, decide_eq_true_eq, Option.isNone_iff_eq_none] at hcond
  rw [findActivePassageBetween_eq] at hp
  have hfound := List.find?_some hp
  simp only [Bool.and_eq_true, decide_eq_true_eq,
    Option.isNone_iff_eq_none] at hfound
  exact ⟨seat, hrow, hcond.1.1, hcond.1.2, hcond.2, p, List.mem_of_find?_eq_some hp,
    hfound.1.1.1, hfound.1.1.2, hfound.1.2, hfound.2⟩

/-- An instance that is not linked leaves the log of a blocked delivery. -/
theorem routeToInstance_blocked (env : Surroundings) (db : Db) (d : Delivery)
    (instance_ : Instance) (h : ¬Linked db d.workspaceId d.fromMembershipId instance_) :
    ∃ blocked : Event, blocked.type = "messaging.delivery_blocked" ∧
      (Effect.event blocked).isAbout instance_.id = true ∧
      Upto (blockedLog env db d instance_.id blocked) (routeToInstance env db d instance_) ∧
      Returns (fun r => r.delivered = false) (routeToInstance env db d instance_) := by
  have habout : ∀ seatId,
      (Effect.event (routedToCerebellum d instance_.id seatId)).isAbout instance_.id = true :=
    fun seatId => by simp [Effect.isAbout, Effect.instance?, routedToCerebellum, deliveryBlocked]
  unfold routeToInstance
  cases hseat : scalarOneOrNone (db.memberships.rows.filter fun m =>
      m.instanceId = some instance_.id && m.workspaceId = d.workspaceId && m.deletedAt.isNone) with
  | error e =>
    refine ⟨routedToCerebellum d instance_.id none, rfl, habout none, ?_, ?_⟩
    · exact ⟨List.nil_prefix, fun a ha => by cases ha⟩
    · exact fun a ha => by cases ha
  | ok toMembership =>
    have hrows := scalarOneOrNone_eq_ok hseat
    cases toMembership with
    | none =>
      cases huser : d.senderIsUser with
      | true =>
        refine ⟨_, rfl, habout none, ?_, ?_⟩
        · refine .silent_bind (upto_ofExcept _) fun o ho => ?_
          obtain rfl : none = o := Except.ok.inj ho
          exact upto_routeToCerebellum env db d instance_.id none huser
        · refine .bind fun o ho => ?_
          obtain rfl : none = o := Except.ok.inj ho
          exact returns_routeToCerebellum env db d instance_.id none
      | false =>
        refine ⟨deliveryBlocked d "instance" instance_.id [("instance_id", .id instance_.id),
          ("reason_detail", .word "target_membership_missing")], rfl, ?_, ?_, ?_⟩
        · simp [Effect.isAbout, Effect.instance?, deliveryBlocked]
        · refine .silent_bind (upto_ofExcept _) fun o ho => ?_
          obtain rfl : none = o := Except.ok.inj ho
          rw [blockedLog, if_neg (by simp [huser])]
          exact .tell_bind (upto_pure _)
        · refine .bind fun o ho => ?_
          obtain rfl : none = o := Except.ok.inj ho
          exact .bind fun _ _ => returns_pure rfl
    | some seat =>
      cases hp : findActivePassageBetween db d.workspaceId d.fromMembershipId seat.id with
      | some p => exact absurd (linked_of_passage hrows hp) h
      | none =>
        cases huser : d.senderIsUser with
        | true =>
          refine ⟨_, rfl, habout (some seat.id), ?_, ?_⟩
          · refine .silent_bind (upto_ofExcept _) fun o ho => ?_
            obtain rfl : some seat = o := Except.ok.inj ho
            simp only [hp]
            exact upto_routeToCerebellum env db d instance_.id (some seat.id) huser
          · refine .bind fun o ho => ?_
            obtain rfl : some seat = o := Except.ok.inj ho
            simp only [hp]
            exact returns_routeToCerebellum env db d instance_.id (some seat.id)
        | false =>
          refine ⟨deliveryBlocked d "membership" seat.id [("instance_id", .id instance_.id),
            ("to_membership_id", .id seat.id)], rfl, ?_, ?_, ?_⟩
          · simp [Effect.isAbout, Effect.instance?, deliveryBlocked, Payload.get?]
          · refine .silent_bind (upto_ofExcept _) fun o ho => ?_
            obtain rfl : some seat = o := Except.ok.inj ho
            simp only [hp]
            rw [blockedLog, if_neg (by simp [huser])]
            exact .tell_bind (upto_pure _)
          · refine .bind fun o ho => ?_
            obtain rfl : some seat = o := Except.ok.inj ho
            simp only [hp]
            exact .bind fun _ _ => returns_pure rfl

/-! The log of a delivery that goes through. -/

theorem emits_appendComposerMessage (db : Db) (workspaceId : Id) (role : String) (content : Str)
    (targetEntity : Option Str) (instanceId : Id) (turnId : Option Id) (status : String)
    (authorUserId : Option Id) :
    Emits (fun w => w.isAbout instanceId = true) (appendComposerMessage db workspaceId role content
      targetEntity (some instanceId) turnId status authorUserId) := by
  unfold appendComposerMessage
  cases (db.workspaces.find? workspaceId).filter fun w => w.deletedAt.isNone with
  | none => exact emits_pure none
  | some w => exact (emits_tell (by simp [Effect.isAbout, Effect.instance?])).bind fun _ _ => emits_pure _

theorem emits_enqueueInject (env : Surroundings) (instanceId : Id) (kind : InjectKind)
    (deliveryMode : DeliveryMode) (payload : Payload) (tldr : Option Str) :
    Emits (fun w => w.isAbout instanceId = true)
      (enqueueInject env instanceId kind deliveryMode payload tldr) := by
  have hevent : ∀ e : Event, e.resourceType = "instance" → e.resourceId = instanceId →
      Emits (fun w => w.isAbout instanceId = true) (emit e) := by
    intro e htype hid
    exact emits_tell (by simp [Effect.isAbout, Effect.instance?, htype, hid])
  unfold enqueueInject
  refine (emits_ofExcept _).bind fun _ _ => (emits_ofExcept _).bind fun _ _ => ?_
  refine (emits_tell (by simp [Effect.isAbout, Effect.instance?])).bind fun _ _ => ?_
  refine (hevent _ rfl rfl).bind fun _ _ => ?_
  cases kind with
  | collabInject => exact emits_pure _
  | cerebellumRoute => exact emits_pure _
  | geneInject => exact (hevent _ rfl rfl).bind fun _ _ => emits_pure _
  | capabilityInject => exact (hevent _ rfl rfl).bind fun _ _ => emits_pure _

theorem emits_scheduleUserTurn (env : Surroundings) (db : Db) (workspaceId instanceId : Id)
    (targetEntity text : Str) (cmd : Option Str) (fromMembershipId : Id) :
    Emits (fun w => w.isAbout instanceId = true)
      (scheduleUserTurn env db workspaceId instanceId targetEntity text cmd fromMembershipId) := by
  have htell : ∀ w : Effect, w.instance? = some instanceId →
      Emits (fun w => w.isAbout instanceId = true) (Traced.tell w : Routed Unit) :=
    fun w hw => emits_tell (by simp [Effect.isAbout, hw])
  unfold scheduleUserTurn
  refine .bind (emits_appendComposerMessage _ _ _ _ _ _ _ _ _) fun _ _ => ?_
  refine .bind (emits_appendComposerMessage _ _ _ _ _ _ _ _ _) fun _ _ => ?_
  refine (htell _ rfl).bind fun _ _ => (htell _ rfl).bind fun _ _ => ?_
  split
  · refine (htell _ rfl).bind fun _ _ => ?_
    split
    · exact (htell _ rfl).bind fun _ _ => emits_pure _
    · exact (htell _ rfl).bind fun _ _ => (htell _ rfl).bind fun _ _ => emits_pure _
  · exact (htell _ rfl).bind fun _ _ => emits_pure _

theorem mem_blockedLog {env : Surroundings} {db : Db} {d : Delivery} {instanceId : Id}
    {blocked : Event} (habout : (Effect.event blocked).isAbout instanceId = true) :
    ∀ w ∈ blockedLog env db d instanceId blocked,
      w.isAbout instanceId = true ∧ w.isDelivery = false := by
  have hrow : ∀ role content author, ∀ w ∈ transcriptRow db d instanceId role content author,
      w.isAbout instanceId = true ∧ w.isDelivery = false := by
    intro role content author w hw
    unfold transcriptRow at hw
    split at hw
    · cases hw
    · obtain rfl := List.mem_singleton.mp hw
      simp [Effect.isAbout, Effect.instance?, Effect.isDelivery]
  intro w hw
  unfold blockedLog at hw
  split at hw
  · simp only [List.mem_cons, List.mem_append, List.not_mem_nil, or_false] at hw
    rcases hw with rfl | hw | hw | rfl | rfl
    · exact ⟨habout, rfl⟩
    · exact hrow _ _ _ w hw
    · exact hrow _ _ _ w hw
    · simp [Effect.isAbout, Effect.instance?, Effect.isDelivery, cerebellumRow]
    · simp [Effect.isAbout, Effect.instance?, Effect.isDelivery, cerebellumRequested]
  · obtain rfl := List.mem_singleton.mp hw
    exact ⟨habout, rfl⟩

theorem emits_deliver (env : Surroundings) (db : Db) (d : Delivery) (instanceId seatId : Id)
    (passage : Passage) :
    Emits (fun w => w.isAbout instanceId = true) (deliver env db d instanceId seatId passage) := by
  unfold deliver
  refine (emits_tell (by simp [Effect.isAbout, Effect.instance?])).bind fun _ _ => ?_
  refine (emits_ofExcept _).bind fun _ _ => ?_
  refine .bind (emits_enqueueInject _ _ _ _ _ _) fun _ _ => ?_
  exact .bind (emits_scheduleUserTurn _ _ _ _ _ _ _ _) fun _ _ => emits_pure _

/-- An instance that is linked is delivered to, unless a query fails. -/
theorem routeToInstance_linked (env : Surroundings) (db : Db) (d : Delivery) (instance_ : Instance)
    (h : Linked db d.workspaceId d.fromMembershipId instance_) :
    (∃ e, routeToInstance env db d instance_ = .throw e) ∨
      ∃ seatId passage, routeToInstance env db d instance_ =
        deliver env db d instance_.id seatId passage := by
  obtain ⟨seat, hseat, hinstance, hws, hdel, p, hp, hpws, hactive, hpdel, hjoins⟩ := h
  have hmem : seat ∈ db.memberships.rows.filter (fun m => m.instanceId = some instance_.id &&
      m.workspaceId = d.workspaceId && m.deletedAt.isNone) := by
    simp [hseat, hinstance, hws, hdel]
  unfold routeToInstance
  cases hone : scalarOneOrNone (db.memberships.rows.filter fun m =>
      m.instanceId = some instance_.id && m.workspaceId = d.workspaceId && m.deletedAt.isNone) with
  | error e => exact .inl ⟨e, ofExcept_error_bind e _⟩
  | ok o =>
    have hrows := scalarOneOrNone_eq_ok hone
    cases o with
    | none =>
      rw [hrows] at hmem
      cases hmem
    | some m =>
      rw [hrows] at hmem
      obtain rfl : seat = m := List.mem_singleton.mp hmem
      cases hfind : findActivePassageBetween db d.workspaceId d.fromMembershipId seat.id with
      | none =>
        rw [findActivePassageBetween_eq] at hfind
        have := List.find?_eq_none.mp hfind p hp
        simp [hpws, hactive, hpdel, hjoins] at this
      | some passage =>
        refine .inr ⟨seat.id, passage, ?_⟩
        rw [ofExcept_ok_bind]
        simp only [hfind]

theorem emits_routeToInstance (env : Surroundings) (db : Db) (d : Delivery) (instance_ : Instance) :
    Emits (fun w => w.isAbout instance_.id = true) (routeToInstance env db d instance_) := by
  by_cases hlinked : Linked db d.workspaceId d.fromMembershipId instance_
  · rcases routeToInstance_linked env db d instance_ hlinked with ⟨e, h⟩ | ⟨seatId, passage, h⟩
    · rw [h]
      exact emits_throw e
    · rw [h]
      exact emits_deliver env db d instance_.id seatId passage
  · obtain ⟨blocked, -, habout, hupto, -⟩ := routeToInstance_blocked env db d instance_ hlinked
    exact hupto.emits fun w hw => (mem_blockedLog habout w hw).1

theorem returns_deliver (env : Surroundings) (db : Db) (d : Delivery) (instanceId seatId : Id)
    (passage : Passage) :
    Returns (fun r => r.instanceId = some instanceId) (deliver env db d instanceId seatId passage) := by
  unfold deliver
  exact .bind fun _ _ => .bind fun _ _ => .bind fun _ _ => .bind fun _ _ => returns_pure rfl

/-- Whatever is delivered at an instance is delivered because it is linked. -/
theorem routeToInstance_gated (env : Surroundings) (db : Db) (d : Delivery) (instance_ : Instance) :
    Emits (fun w => w.isDelivery = true → Linked db d.workspaceId d.fromMembershipId instance_)
        (routeToInstance env db d instance_) ∧
      Returns (fun r => r.delivered = true → r.instanceId = some instance_.id ∧
        Linked db d.workspaceId d.fromMembershipId instance_) (routeToInstance env db d instance_) := by
  by_cases hlinked : Linked db d.workspaceId d.fromMembershipId instance_
  · refine ⟨fun _ _ _ => hlinked, fun r hr _ => ⟨?_, hlinked⟩⟩
    rcases routeToInstance_linked env db d instance_ hlinked with ⟨e, h⟩ | ⟨seatId, passage, h⟩
    · rw [h] at hr
      cases hr
    · rw [h] at hr
      exact returns_deliver env db d instance_.id seatId passage r hr
  · obtain ⟨blocked, -, habout, hupto, hreturns⟩ :=
      routeToInstance_blocked env db d instance_ hlinked
    constructor
    · refine hupto.emits fun w hw hdelivery => ?_
      rw [(mem_blockedLog habout w hw).2] at hdelivery
      cases hdelivery
    · intro r hr hdelivered
      rw [hreturns r hr] at hdelivered
      cases hdelivered

/-- A routing call logs and returns nothing, or goes through the active instances of the one
entity it finds. -/
theorem routeMessage_cases (env : Surroundings) (db : Db) (fromMembershipId workspaceId : Id)
    (directive : Directive Char) (generalText : Option Str) :
    ((routeMessage env db fromMembershipId workspaceId directive generalText).log = [] ∧
        Returns (fun rs => ∀ r ∈ rs, r.delivered = false)
          (routeMessage env db fromMembershipId workspaceId directive generalText) ∧
        ∀ rs, (routeMessage env db fromMembershipId workspaceId directive generalText).result = .ok rs →
          ∀ target, directive.targetEntity = some target → ∀ entity ∈ db.entities.rows,
            entity.slug = target → entity.deletedAt = none →
              ∀ i ∈ db.instances.rows, isActiveInstance entity.id workspaceId i = false) ∨
      ∃ target entity, directive.targetEntity = some target ∧
        (∀ e ∈ db.entities.rows, e.slug = target → e.deletedAt = none → e = entity) ∧
        routeMessage env db fromMembershipId workspaceId directive generalText =
          Traced.collect (routeToInstance env db
            (deliveryFor db fromMembershipId workspaceId directive target generalText))
            (db.instances.rows.filter (isActiveInstance entity.id workspaceId)) := by
  unfold routeMessage
  cases htarget : directive.targetEntity with
  | none => exact .inl ⟨rfl, returns_pure (by simp), by simp⟩
  | some target =>
    cases hone : scalarOneOrNone (db.entities.rows.filter fun e =>
        e.slug = target && e.deletedAt.isNone) with
    | error e =>
      refine .inl ⟨?_, ?_, ?_⟩
      · simp only [hone, ofExcept_error_bind]
        rfl
      · simp only [hone, ofExcept_error_bind]
        exact fun a ha => by cases ha
      · simp only [hone, ofExcept_error_bind]
        exact fun a ha => by cases ha
    | ok o =>
      have hrows := scalarOneOrNone_eq_ok hone
      have hentity : ∀ e ∈ db.entities.rows, e.slug = target → e.deletedAt = none →
          e ∈ o.toList := by
        intro e he hslug hdel
        rw [← hrows]
        simp [he, hslug, hdel]
      simp only [hone, ofExcept_ok_bind]
      cases o with
      | none =>
        refine .inl ⟨rfl, returns_pure (by simp), fun _ _ t ht e he hslug hdel => ?_⟩
        obtain rfl := Option.some.inj ht
        exact absurd (hentity e he hslug hdel) (by simp)
      | some entity =>
        by_cases hempty : (db.instances.rows.filter
            (isActiveInstance entity.id workspaceId)).isEmpty = true
        · simp only [hempty, if_true]
          refine .inl ⟨rfl, returns_pure (by simp), fun _ _ t ht e he hslug hdel i hi => ?_⟩
          obtain rfl := Option.some.inj ht
          obtain rfl : e = entity := List.mem_singleton.mp (hentity e he hslug hdel)
          rw [List.isEmpty_iff, List.filter_eq_nil_iff] at hempty
          simpa using hempty i hi
        · simp only [hempty]
          refine .inr ⟨target, entity, rfl, fun e he hslug hdel => ?_, rfl⟩
          exact List.mem_singleton.mp (hentity e he hslug hdel)

theorem isAbout_ne {i j : Id} {w : Effect} (h : w.isAbout i = true) (hne : i ≠ j) :
    w.isAbout j = false := by
  unfold Effect.isAbout at *
  rw [decide_eq_true_eq] at h
  simp [h, hne]

/-- What a call leaves behind for one of the instances it goes through. -/
theorem upto_routeToInstances (env : Surroundings) (db : Db) (d : Delivery) (q : Instance → Bool)
    {i : Instance} (hi : i ∈ db.instances.rows) (hq : q i = true) {full : List Effect}
    (h : Upto full (routeToInstance env db d i)) :
    Upto full (Traced.only (Effect.isAbout i.id)
      (Traced.collect (routeToInstance env db d) (db.instances.rows.filter q))) := by
  have hnodup : (db.instances.rows.filter q).Nodup := db.instances.keys_nodup.of_map.filter _
  refine Upto.filter_collect hnodup (List.mem_filter.mpr ⟨hi, hq⟩)
    (emits_routeToInstance env db d i) (fun j hj hji => ?_) h
  refine (emits_routeToInstance env db d j).mono fun w hw => isAbout_ne hw fun hid => ?_
  exact hji (db.instances.eq_of_key_eq (List.mem_filter.mp hj).1 hi hid)

/-- Deliveries follow passages, and an active instance without one is left a blocked delivery. -/
theorem routeMessage_gated (env : Surroundings) (db : Db) (fromMembershipId workspaceId : Id)
    (directive : Directive Char) (generalText : Option Str) :
    (∀ w ∈ (routeMessage env db fromMembershipId workspaceId directive generalText).log,
      ∃ i ∈ db.instances.rows, w.isAbout i.id = true ∧
        (w.isDelivery = true → Linked db workspaceId fromMembershipId i)) ∧
    (∀ rs, (routeMessage env db fromMembershipId workspaceId directive generalText).result = .ok rs →
      ∀ r ∈ rs, r.delivered = true → ∃ i ∈ db.instances.rows, r.instanceId = some i.id ∧
        Linked db workspaceId fromMembershipId i) ∧
    (∀ target, directive.targetEntity = some target → ∀ entity ∈ db.entities.rows,
      entity.slug = target → entity.deletedAt = none → ∀ i ∈ db.instances.rows,
        isActiveInstance entity.id workspaceId i = true →
          ¬Linked db workspaceId fromMembershipId i →
            ∃ blocked : Event, blocked.type = "messaging.delivery_blocked" ∧
              Upto (blockedLog env db (deliveryFor db fromMembershipId workspaceId directive target
                  generalText) i.id blocked)
                (⟨(routeMessage env db fromMembershipId workspaceId directive generalText).log.filter
                    (Effect.isAbout i.id),
                  (routeMessage env db fromMembershipId workspaceId directive generalText).result⟩ :
                  Routed (List MessageDeliveryResult))) := by
  rcases routeMessage_cases env db fromMembershipId workspaceId directive generalText with
    ⟨hlog, hreturns, hnone⟩ | ⟨target, entity, htarget, hentity, hroute⟩
  · refine ⟨?_, ?_, ?_⟩
    · intro w hw
      rw [hlog] at hw
      cases hw
    · intro rs hrs r hr hdelivered
      rw [hreturns rs hrs r hr] at hdelivered
      cases hdelivered
    · intro target htarget entity he hslug hdel i hi hactive _
      refine ⟨⟨"messaging.delivery_blocked", "membership", none, "instance", i.id, []⟩, rfl, ?_, ?_⟩
      · simp only [hlog, List.filter_nil]
        exact List.nil_prefix
      · intro rs hrs
        have hinactive := hnone rs hrs target htarget entity he hslug hdel i hi
        rw [hactive] at hinactive
        cases hinactive
  · rw [hroute]
    have hrow : ∀ i ∈ db.instances.rows.filter (isActiveInstance entity.id workspaceId),
        i ∈ db.instances.rows := fun i hi => (List.mem_filter.mp hi).1
    refine ⟨?_, ?_, ?_⟩
    · refine Emits.collect fun i hi w hw => ⟨i, hrow i hi, ?_, ?_⟩
      · exact emits_routeToInstance env db _ i w hw
      · exact (routeToInstance_gated env db _ i).1 w hw
    · intro rs hrs r hr hdelivered
      obtain ⟨i, hi, hres, -⟩ := mem_of_collect hrs hr
      exact ⟨i, hrow i hi, (routeToInstance_gated env db _ i).2 r hres hdelivered⟩
    · intro target' htarget' entity' he hslug hdel i hi hactive hlinked
      obtain rfl : target = target' := Option.some.inj (htarget.symm.trans htarget')
      obtain rfl : entity' = entity := hentity entity' he hslug hdel
      obtain ⟨blocked, htype, -, hupto, -⟩ := routeToInstance_blocked env db
        (deliveryFor db fromMembershipId workspaceId directive target generalText) i hlinked
      exact ⟨blocked, htype, upto_routeToInstances env db _ _ hi hactive hupto⟩

/-! A user without passages writes to an instance. -/

def unlinkedInstance : Instance := ⟨"i", "e", "w", .running, none⟩

def unlinkedDb : Db where
  workspaces := .single ⟨"w", "n", none⟩
  entities := .single ⟨"e", "n", ['a'], none⟩
  instances := .single unlinkedInstance
  memberships := .single ⟨"m", "w", some "u", none, none⟩
  passages := .empty
  loopStates := .empty
  uniqueActiveEdge := Passage.uniqueActiveEdge_nil

def unlinkedSurroundings : Surroundings where
  now := 0
  turnId := id
  queueId := id
  isConnected := fun _ => false
  sends := fun _ => false

/-- The blocked event, the transcript rows and the inject are not all: the inject is audited. -/
theorem inject_is_audited :
    isActiveInstance "e" "w" unlinkedInstance = true ∧
    ¬Linked unlinkedDb "w" "m" unlinkedInstance ∧
    ∃ w ∈ (routeMessage unlinkedSurroundings unlinkedDb "m" "w"
        ⟨some ['a'], [], [['b']], none, ['@', 'a', ' ', 'b']⟩ none).log,
      w.isAbout unlinkedInstance.id = true ∧ ∃ e, w = .event e ∧ e.type = "harness.inject_requested" := by
  refine ⟨by decide, by decide, .event (cerebellumRequested unlinkedSurroundings
    (deliveryFor unlinkedDb "m" "w" ⟨some ['a'], [], [['b']], none, ['@', 'a', ' ', 'b']⟩ ['a'] none)
    "i"), ?_, by decide, _, rfl, rfl⟩
  decide +kernel

end Eyot.Routing
