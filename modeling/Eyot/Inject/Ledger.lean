import Eyot.Inject.Lifecycle

/-! Which of the rows a loop has polled are still on its hands: the queue, the identifiers its
polls have marked delivered, and those it holds. -/

namespace Eyot.Inject

/-- What calls do to a row that has been handed out before. -/
structure Steady (r r' : InstanceInjectQueue) : Prop where
  handled : isHandled (some r'.status)
  delivered : r'.status = .delivered → r.status = .delivered ∧ r'.deletedAt = r.deletedAt

theorem steady_refl {r : InstanceInjectQueue} (h : isHandled (some r.status)) : Steady r r :=
  ⟨h, fun hd => ⟨hd, rfl⟩⟩

theorem not_pending_of_isHandled {status : InjectStatus} (h : isHandled (some status)) :
    status ≠ .pending := by
  rintro rfl
  exact absurd h (by decide)

theorem perform_steady (q : Queue) (c : Call) {id : Id} {r : InstanceInjectQueue}
    (hf : q.find? id = some r) (h : isHandled (some r.status)) :
    ∃ r', (perform q c).1.find? id = some r' ∧ Steady r r' := by
  have hpending : r.status ≠ .pending := not_pending_of_isHandled h
  have hover : ∀ now, ¬ r.isOverdue now := fun now ho => hpending (isOverdue_status ho)
  cases c with
  | enqueueInject e =>
    obtain hsame | ⟨q', hi, hdone⟩ := perform_enqueueInject q e
    · exact ⟨r, by rw [hsame, hf], steady_refl h⟩
    · have hne : ¬ e.row.id = id := by
        rintro rfl
        rw [Table.find?_eq_none.mpr (Table.key_not_mem_of_insert? hi)] at hf
        cases hf
      exact ⟨r, by rw [hdone, Table.find?_insert? hi, if_neg hne, hf], steady_refl h⟩
  | pollPendingInjects now instanceId limit =>
    refine ⟨r, ?_, steady_refl h⟩
    rw [perform, find?_pollPendingInjects, hf, Option.map_some, if_neg, if_neg]
    · intro hmem
      have hr := mem_map_id_pendingRows (Table.find?_mem hf) hmem
      exact hpending (isSelectable_status (mem_pendingRows hr).2)
    · rw [Bool.and_eq_true]
      rintro ⟨-, ho⟩
      exact hover now ho
  | ackInjects now queueIds =>
    refine ⟨_, by rw [perform, find?_ackInjects, hf, Option.map_some], ?_⟩
    split
    · exact ⟨rfl, fun hd => by cases hd⟩
    · exact steady_refl h
  | markInjectFailed now queueId errorMessage =>
    obtain ⟨hsame, -⟩ | ⟨s, -, -, -, hdone⟩ := perform_markInjectFailed q now queueId errorMessage
    · exact ⟨r, by rw [hsame, hf], steady_refl h⟩
    · refine ⟨_, by rw [hdone, find?_update_eq, hf, Option.map_some], ?_⟩
      split
      · exact ⟨rfl, fun hd => by cases hd⟩
      · exact steady_refl h
  | sweepExpired now =>
    refine ⟨r, ?_, steady_refl h⟩
    rw [perform, sweepExpired, find?_expireOverdue, hf, Option.map_some, Bool.true_and,
      if_neg (hover now)]
  | sweepOldCompleted now =>
    refine ⟨_, by rw [perform, sweepOldCompleted, Table.find?_updateWhere, hf, Option.map_some], ?_⟩
    split
    · next hold =>
      refine ⟨h, fun hd => ?_⟩
      have hd : r.status = .delivered := hd
      simp [InstanceInjectQueue.isOldCompleted, hd, completedStatuses] at hold
    · exact steady_refl h

/-- How many rows a poll takes. -/
def pollLimit : Nat := 20

structure Ledger where
  queue : Queue
  marked : List Id
  held : List Id

/-- What a step of the system does to the queue and to the hands of the loop. -/
inductive Effect where
  | nothing
  | call (c : Call)
  | take (now : Time) (kept : Bool)
  | ack (now : Time) (id : Id) (reaches : Bool)
  | drop

namespace Ledger

def polled (l : Ledger) (instanceId : Id) (now : Time) : List Id :=
  (pendingRows l.queue instanceId now pollLimit).map InstanceInjectQueue.id

def apply (instanceId : Id) (l : Ledger) : Effect → Ledger
  | .nothing => l
  | .call c => { l with queue := (perform l.queue c).1 }
  | .take now kept =>
    ⟨(perform l.queue (.pollPendingInjects now instanceId pollLimit)).1,
      l.marked ++ l.polled instanceId now,
      if kept then l.held ++ l.polled instanceId now else l.held⟩
  | .ack now id reaches =>
    ⟨if reaches then (perform l.queue (.ackInjects now [id])).1 else l.queue, l.marked,
      l.held.erase id⟩
  | .drop => { l with held := [] }

/-- A marked row is settled, or the loop holds it. -/
def Kept (l : Ledger) : Prop :=
  ∀ id ∈ l.marked,
    statusOf l.queue id = some .acked ∨ statusOf l.queue id = some .failed ∨ id ∈ l.held

/-- The rows a poll takes reach the loop, the acknowledgement of a row that is still out reaches
the backend, and what is dropped is settled. -/
def Safe (instanceId : Id) (l : Ledger) : Effect → Prop
  | .take now kept => kept = true ∨ l.polled instanceId now = []
  | .ack _ id reaches => statusOf l.queue id = some .delivered → reaches = true
  | .drop => ∀ id ∈ l.held, statusOf l.queue id ≠ some .delivered
  | _ => True

/-- A row that has been handed out, and that no clean-up has touched while it is out. -/
def Out (q : Queue) (id : Id) : Prop :=
  ∃ r, q.find? id = some r ∧ isHandled (some r.status) ∧
    (r.status = .delivered → r.deletedAt = none)

structure Ok (l : Ledger) : Prop where
  held_marked : ∀ id ∈ l.held, id ∈ l.marked
  held_nodup : l.held.Nodup
  out : ∀ id ∈ l.marked, Out l.queue id

theorem Out.perform {q : Queue} {id : Id} (h : Out q id) (c : Call) :
    Out (perform q c).1 id := by
  obtain ⟨r, hf, hh, hd⟩ := h
  obtain ⟨r', hf', hr'⟩ := perform_steady q c hf hh
  refine ⟨r', hf', hr'.handled, fun hst => ?_⟩
  rw [(hr'.delivered hst).2]
  exact hd (hr'.delivered hst).1

theorem Out.settled_or {q : Queue} {id : Id} (h : Out q id) :
    statusOf q id = some .acked ∨ statusOf q id = some .failed ∨
      statusOf q id = some .delivered := by
  obtain ⟨r, hf, hh, -⟩ := h
  rw [statusOf, hf, Option.map_some]
  cases hs : r.status with
  | pending => rw [hs] at hh; exact absurd hh (by decide)
  | delivered => exact .inr (.inr rfl)
  | acked => exact .inl rfl
  | failed => exact .inr (.inl rfl)
  | expired => rw [hs] at hh; exact absurd hh (by decide)

/-- A row that is out stays so, or is settled. -/
theorem Out.delivered_of_perform {q : Queue} {id : Id} (h : Out q id) (c : Call)
    (hd : statusOf (Inject.perform q c).1 id = some .delivered) :
    statusOf q id = some .delivered := by
  obtain ⟨r, hf, hh, -⟩ := h
  obtain ⟨r', hf', hr'⟩ := perform_steady q c hf hh
  rw [statusOf, hf', Option.map_some, Option.some_inj] at hd
  rw [statusOf, hf, Option.map_some, (hr'.delivered hd).1]

theorem kept_iff {l : Ledger} (h : l.Ok) :
    l.Kept ↔ ∀ id ∈ l.marked, statusOf l.queue id = some .delivered → id ∈ l.held := by
  constructor
  · intro hk id hid hd
    rcases hk id hid with hs | hs | hs
    · rw [hd] at hs
      cases hs
    · rw [hd] at hs
      cases hs
    · exact hs
  · intro hk id hid
    rcases (h.out id hid).settled_or with hs | hs | hs
    · exact .inl hs
    · exact .inr (.inl hs)
    · exact .inr (.inr (hk id hid hs))

theorem find?_of_mem_polled {l : Ledger} {instanceId : Id} {now : Time} {id : Id}
    (h : id ∈ l.polled instanceId now) :
    ∃ r ∈ pendingRows l.queue instanceId now pollLimit, l.queue.find? id = some r := by
  obtain ⟨r, hr, rfl⟩ := List.mem_map.mp h
  exact ⟨r, hr, l.queue.find?_of_mem (mem_pendingRows hr).1⟩

/-- A row that has been handed out is in no later poll. -/
theorem not_mem_polled {l : Ledger} (h : l.Ok) (instanceId : Id) (now : Time) {id : Id}
    (hid : id ∈ l.marked) : id ∉ l.polled instanceId now := by
  intro hmem
  obtain ⟨r, hr, hf⟩ := find?_of_mem_polled hmem
  obtain ⟨s, hs, hh, -⟩ := h.out id hid
  obtain rfl : r = s := Option.some.inj (hf.symm.trans hs)
  exact not_pending_of_isHandled hh (isSelectable_status (mem_pendingRows hr).2)

theorem find?_take {l : Ledger} {instanceId : Id} {now : Time} {id : Id}
    (h : id ∈ l.polled instanceId now) :
    ∃ r, (perform l.queue (.pollPendingInjects now instanceId pollLimit)).1.find? id = some r ∧
      r.status = .delivered ∧ r.deletedAt = none := by
  obtain ⟨r, hr, hf⟩ := find?_of_mem_polled h
  have hsel := (mem_pendingRows hr).2
  refine ⟨r.setStatus .delivered now, ?_, rfl, ?_⟩
  · rw [perform, find?_pollPendingInjects, hf, Option.map_some, if_neg,
      if_pos (List.mem_map_of_mem hr)]
    rw [Bool.and_eq_true]
    rintro ⟨-, ho⟩
    exact not_isSelectable_of_isOverdue ho instanceId hsel
  · simp only [InstanceInjectQueue.isSelectable, InstanceInjectQueue.isPending, Bool.and_eq_true,
      Option.isNone_iff_eq_none] at hsel
    exact hsel.1.2.2

theorem nodup_polled (l : Ledger) (instanceId : Id) (now : Time) :
    (l.polled instanceId now).Nodup :=
  Window.nodup_map_first (l.queue.keys_nodup.sublist (List.filter_sublist.map _))

theorem Ok.apply {l : Ledger} (h : l.Ok) (instanceId : Id) (e : Effect) :
    (l.apply instanceId e).Ok := by
  cases e with
  | nothing => exact h
  | call c => exact ⟨h.held_marked, h.held_nodup, fun id hid => (h.out id hid).perform c⟩
  | take now kept =>
    refine ⟨?_, ?_, ?_⟩
    · intro id hid
      change id ∈ if kept then l.held ++ l.polled instanceId now else l.held at hid
      rw [Ledger.apply, List.mem_append]
      split at hid
      · exact (List.mem_append.mp hid).imp_left (h.held_marked id)
      · exact .inl (h.held_marked id hid)
    · change (if kept then l.held ++ l.polled instanceId now else l.held).Nodup
      split
      · rw [List.nodup_append]
        refine ⟨h.held_nodup, l.nodup_polled instanceId now, ?_⟩
        rintro id hid _ hp rfl
        exact not_mem_polled h instanceId now (h.held_marked id hid) hp
      · exact h.held_nodup
    · intro id hid
      rcases List.mem_append.mp hid with hid | hid
      · exact (h.out id hid).perform _
      · obtain ⟨r, hf, hst, hdel⟩ := find?_take hid
        exact ⟨r, hf, by rw [hst]; rfl, fun _ => hdel⟩
  | ack now id reaches =>
    refine ⟨fun i hi => h.held_marked i (List.mem_of_mem_erase hi), h.held_nodup.erase id, ?_⟩
    intro i hi
    change Out (if reaches then (Inject.perform l.queue (.ackInjects now [id])).1 else l.queue) i
    split
    · exact (h.out i hi).perform _
    · exact h.out i hi
  | drop => exact ⟨List.forall_mem_nil _, List.nodup_nil, h.out⟩

theorem statusOf_ack {l : Ledger} (h : l.Ok) (now : Time) {id : Id} (hid : id ∈ l.marked)
    (hd : statusOf l.queue id = some .delivered) :
    statusOf (perform l.queue (.ackInjects now [id])).1 id = some .acked := by
  obtain ⟨r, hf, -, hdel⟩ := h.out id hid
  rw [statusOf, hf, Option.map_some, Option.some_inj] at hd
  have hack : r.isAckable [id] := by
    simp [InstanceInjectQueue.isAckable, Table.find?_key hf, hdel hd, hd]
  rw [statusOf, perform, find?_ackInjects, hf, Option.map_some, if_pos hack]
  rfl

theorem kept_take_iff (instanceId : Id) {l : Ledger} (h : l.Ok) (hk : l.Kept) (now : Time)
    (kept : Bool) :
    (l.apply instanceId (.take now kept)).Kept ↔ l.Safe instanceId (.take now kept) := by
  have hold : ∀ id ∈ l.marked,
      statusOf (l.apply instanceId (.take now kept)).queue id = some .delivered → id ∈ l.held :=
    fun id hid hd => (kept_iff h).mp hk id hid ((h.out id hid).delivered_of_perform _ hd)
  rw [kept_iff (h.apply instanceId _)]
  cases kept with
  | true =>
    refine iff_of_true (fun id hid hd => ?_) (.inl rfl)
    rcases List.mem_append.mp hid with hid | hid
    · exact List.mem_append_left _ (hold id hid hd)
    · exact List.mem_append_right _ hid
  | false =>
    constructor
    · intro hall
      right
      rw [List.eq_nil_iff_forall_not_mem]
      intro id hid
      obtain ⟨r, hf, hst, -⟩ := find?_take hid
      have hd : statusOf (l.apply instanceId (.take now false)).queue id = some .delivered := by
        rw [statusOf, Ledger.apply, hf, Option.map_some, hst]
      have hheld : id ∈ l.held := hall id (List.mem_append_right _ hid) hd
      exact not_mem_polled h instanceId now (h.held_marked id hheld) hid
    · rintro (hkept | hnil) id hid hd
      · cases hkept
      · rw [Ledger.apply, hnil, List.append_nil] at hid
        exact hold id hid hd

theorem kept_ack_iff (instanceId : Id) {l : Ledger} (h : l.Ok) (hk : l.Kept) (now : Time) {id : Id}
    (hid : id ∈ l.held) (reaches : Bool) :
    (l.apply instanceId (.ack now id reaches)).Kept ↔ l.Safe instanceId (.ack now id reaches) := by
  have hmarked := h.held_marked id hid
  rw [kept_iff (h.apply instanceId _)]
  cases reaches with
  | true =>
    refine iff_of_true (fun i hi hd => ?_) fun _ => rfl
    have hd' := (h.out i hi).delivered_of_perform _ hd
    have hne : i ≠ id := by
      rintro rfl
      rw [Ledger.apply, if_pos rfl, statusOf_ack h now hmarked hd'] at hd
      cases hd
    exact (List.mem_erase_of_ne hne).mpr ((kept_iff h).mp hk i hi hd')
  | false =>
    constructor
    · intro hall hd
      exact absurd (hall id hmarked hd) h.held_nodup.not_mem_erase
    · intro hsafe i hi hd
      have hne : i ≠ id := by
        rintro rfl
        cases hsafe hd
      exact (List.mem_erase_of_ne hne).mpr ((kept_iff h).mp hk i hi hd)

/-- A ledger stays in balance in exactly the safe steps. -/
theorem kept_apply_iff (instanceId : Id) {l : Ledger} (h : l.Ok) (hk : l.Kept) (e : Effect)
    (hack : ∀ now id reaches, e = .ack now id reaches → id ∈ l.held) :
    (l.apply instanceId e).Kept ↔ l.Safe instanceId e := by
  cases e with
  | nothing => exact iff_of_true hk trivial
  | call c =>
    rw [kept_iff (h.apply instanceId _)]
    refine iff_of_true (fun id hid hd => ?_) trivial
    exact (kept_iff h).mp hk id hid ((h.out id hid).delivered_of_perform c hd)
  | take now kept => exact kept_take_iff instanceId h hk now kept
  | ack now id reaches => exact kept_ack_iff instanceId h hk now (hack now id reaches rfl) reaches
  | drop =>
    rw [kept_iff (h.apply instanceId _)]
    constructor
    · intro hall id hid hd
      cases hall id (h.held_marked id hid) hd
    · intro hsafe id hid hd
      exact absurd hd (hsafe id ((kept_iff h).mp hk id hid hd))

end Ledger

end Eyot.Inject
