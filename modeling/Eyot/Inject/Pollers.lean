import Eyot.Inject.Lifecycle

/-! Polls of one instance as transactions under READ COMMITTED: the expiry update, the select,
the flip to delivered and the commit are steps of their own, between those of other polls, of
enqueues and of acknowledgements. -/

namespace Eyot.Inject.Pollers

inductive Phase where
  | expired | selected | flushed
  deriving DecidableEq

/-- An open transaction of a poll. What it has written is in none of the committed rows. -/
structure Poll where
  tx : Id
  poller : Id
  now : Time
  limit : Nat
  phase : Phase
  expired : List Id
  rows : List InstanceInjectQueue

namespace Poll

def ids (p : Poll) : List Id := p.rows.map InstanceInjectQueue.id

/-- The rows the transaction has updated. -/
def locks (p : Poll) : List Id := p.expired ++ if p.phase = .flushed then p.ids else []

def select (rows : List InstanceInjectQueue) (p : Poll) : Poll :=
  { p with phase := .selected, rows := rows }

theorem select_tx (rows : List InstanceInjectQueue) (p : Poll) : (p.select rows).tx = p.tx := rfl

def flush (p : Poll) : Poll := { p with phase := .flushed }

theorem flush_tx (p : Poll) : p.flush.tx = p.tx := rfl

end Poll

/-- An open transaction of an acknowledgement, with the delivered rows it has read. -/
structure Ack where
  tx : Id
  now : Time
  ids : List Id

structure State where
  queue : Queue
  polls : Table Poll.tx
  acks : Table Ack.tx
  results : List (Id × List InstanceInjectQueue)

inductive Step where
  | enqueue (e : Enqueue)
  | expire (tx poller : Id) (now : Time) (limit : Nat)
  | select (tx : Id)
  | flush (tx : Id)
  | commit (tx : Id)
  | abort (tx : Id)
  | selectAcks (tx : Id) (now : Time) (queueIds : List Id)
  | commitAcks (tx : Id)

namespace State

def start (q : Queue) : State := ⟨q, .empty, .empty, []⟩

/-- Another transaction has updated one of the rows: the statement waits. -/
def isLocked (s : State) (tx : Id) (ids : List Id) : Bool :=
  s.polls.rows.any fun p => p.tx ≠ tx && p.locks.any fun id => id ∈ ids

def onPoll (s : State) (tx : Id) (phase : Phase) (f : Poll → State) : State :=
  match s.polls.find? tx with
  | some p => if p.phase = phase then f p else s
  | none => s

def enqueue (s : State) (e : Enqueue) : State :=
  match enqueueInject s.queue e with
  | .ok (q, _) => { s with queue := q }
  | .error _ => s

def overdueIds (q : Queue) (instanceId : Id) (now : Time) : List Id :=
  (q.rows.filter fun r => r.instanceId = instanceId && r.isOverdue now).map
    InstanceInjectQueue.id

def expire (s : State) (instanceId tx poller : Id) (now : Time) (limit : Nat) : State :=
  let ids := overdueIds s.queue instanceId now
  if s.isLocked tx ids then s
  else
    match s.polls.insert? ⟨tx, poller, now, limit, .expired, ids, []⟩ with
    | some polls => { s with polls := polls }
    | none => s

def setExpired (q : Queue) (now : Time) (ids : List Id) : Queue :=
  q.updateWhere (fun r => r.id ∈ ids) (·.setStatus .expired now)
    (InstanceInjectQueue.setStatus_id .expired now)

/-- A select reads the committed rows and what its own transaction has written. -/
def select (s : State) (instanceId tx : Id) : State :=
  s.onPoll tx .expired fun p =>
    let rows := pendingRows (setExpired s.queue p.now p.expired) instanceId p.now p.limit
    { s with polls := s.polls.update tx (·.select rows) (Poll.select_tx rows) }

/-- The update of a row names its primary key only. -/
def flush (s : State) (tx : Id) : State :=
  s.onPoll tx .selected fun p =>
    if s.isLocked tx p.ids then s
    else { s with polls := s.polls.update tx Poll.flush Poll.flush_tx }

def close (s : State) (tx : Id) : State :=
  { s with polls := s.polls.deleteWhere fun p => p.tx = tx }

def commit (s : State) (tx : Id) : State :=
  s.onPoll tx .flushed fun p =>
    { s.close tx with
      queue := setDelivered (setExpired s.queue p.now p.expired) p.now p.rows
      results := s.results ++ [(p.poller, p.rows.map (·.setStatus .delivered p.now))] }

def ackableIds (q : Queue) (queueIds : List Id) : List Id :=
  (q.rows.filter (·.isAckable queueIds)).map InstanceInjectQueue.id

def selectAcks (s : State) (tx : Id) (now : Time) (queueIds : List Id) : State :=
  match s.acks.insert? ⟨tx, now, ackableIds s.queue queueIds⟩ with
  | some acks => { s with acks := acks }
  | none => s

def setAcked (q : Queue) (now : Time) (ids : List Id) : Queue :=
  q.updateWhere (fun r => r.id ∈ ids) (·.ack now) (InstanceInjectQueue.ack_id now)

def commitAcks (s : State) (tx : Id) : State :=
  match s.acks.find? tx with
  | some a =>
    if s.isLocked tx a.ids then s
    else
      { s with
        queue := setAcked s.queue a.now a.ids
        acks := s.acks.deleteWhere fun a => a.tx = tx }
  | none => s

def step (instanceId : Id) (s : State) : Step → State
  | .enqueue e => s.enqueue e
  | .expire tx poller now limit => s.expire instanceId tx poller now limit
  | .select tx => s.select instanceId tx
  | .flush tx => s.flush tx
  | .commit tx => s.commit tx
  | .abort tx => s.close tx
  | .selectAcks tx now queueIds => s.selectAcks tx now queueIds
  | .commitAcks tx => s.commitAcks tx

def returnedIds (s : State) : List Id :=
  s.results.flatMap fun result => result.2.map InstanceInjectQueue.id

def returnedTo (s : State) (poller : Id) : List InstanceInjectQueue :=
  (s.results.filter fun result => result.1 = poller).flatMap Prod.snd

/-- No row is in the results of two polls. -/
def AtMostOnce (s : State) : Prop := s.returnedIds.Nodup

/-- What a poller gets, one poll after the other, comes in the order of creation. -/
def InOrder (s : State) : Prop :=
  ∀ poller, (s.returnedTo poller).Pairwise fun a b => a.sortKey ≤ b.sortKey

/-- The rows a transaction is about to return. -/
def returning (s : State) (tx : Id) : List InstanceInjectQueue :=
  match s.polls.find? tx with
  | some p => if p.phase = .flushed then p.rows else []
  | none => []

def returningTo (s : State) (tx : Id) : Option Id := (s.polls.find? tx).map Poll.poller

def isOpen (status : Option InjectStatus) : Bool :=
  status = some .pending || status = some .expired

/-- A poll commits while every row it has selected is still pending, or has expired since. -/
def Unclaimed (s : State) : Step → Prop
  | .commit tx => ∀ r ∈ s.returning tx, isOpen (statusOf s.queue r.id)
  | _ => True

/-- A poll commits rows that come after all its poller has got. -/
def Later (s : State) : Step → Prop
  | .commit tx =>
    ∀ poller, s.returningTo tx = some poller →
      ∀ a ∈ s.returnedTo poller, ∀ r ∈ s.returning tx, a.sortKey ≤ r.sortKey
  | _ => True

theorem not_isHandled_of_isOpen {status : Option InjectStatus} (h : isOpen status) :
    ¬ isHandled status := by
  rw [isOpen, Bool.or_eq_true, decide_eq_true_eq, decide_eq_true_eq] at h
  rcases h with rfl | rfl
  · decide
  · decide

theorem isSome_of_isOpen {status : Option InjectStatus} (h : isOpen status) : status.isSome := by
  cases status with
  | none => exact absurd h (by decide)
  | some st => rfl

/-! How the writes of a transaction change the statuses. -/

theorem statusOf_setExpired (q : Queue) (now : Time) (ids : List Id) (id : Id) :
    statusOf (setExpired q now ids) id =
      if id ∈ ids then (statusOf q id).map fun _ => .expired else statusOf q id :=
  statusOf_updateWhere q ids _ _ .expired (fun _ => rfl) id

theorem statusOf_setDelivered (q : Queue) (now : Time) (rows : List InstanceInjectQueue) (id : Id) :
    statusOf (setDelivered q now rows) id =
      if id ∈ rows.map InstanceInjectQueue.id then (statusOf q id).map fun _ => .delivered
      else statusOf q id :=
  statusOf_updateWhere q _ _ _ .delivered (fun _ => rfl) id

theorem statusOf_setAcked (q : Queue) (now : Time) (ids : List Id) (id : Id) :
    statusOf (setAcked q now ids) id =
      if id ∈ ids then (statusOf q id).map fun _ => .acked else statusOf q id :=
  statusOf_updateWhere q ids _ _ .acked (fun _ => rfl) id

/-- The identifiers that are in use keep their status when a row is added. -/
theorem statusOf_enqueue (s : State) (e : Enqueue) {id : Id} (h : (statusOf s.queue id).isSome) :
    statusOf (s.enqueue e).queue id = statusOf s.queue id := by
  rw [enqueue]
  cases he : enqueueInject s.queue e with
  | error err => rfl
  | ok done =>
    have hp : perform s.queue (.enqueueInject e) = done := by rw [perform, he]
    obtain hsame | ⟨q', hi, hdone⟩ := perform_enqueueInject s.queue e
    · rw [← hp, hsame]
    · rw [← hp, hdone]
      change statusOf q' id = _
      rw [statusOf, Table.find?_insert? hi, if_neg]
      · rfl
      · rintro rfl
        rw [statusOf, Table.find?_eq_none.mpr (Table.key_not_mem_of_insert? hi)] at h
        cases h

/-! What holds in every state of a run. -/

structure PollOk (q : Queue) (returned : List Id) (p : Poll) : Prop where
  selected : ∀ id ∈ p.ids, isOpen (statusOf q id) ∨ id ∈ returned
  nodup : p.ids.Nodup
  sorted : p.rows.Pairwise fun a b => a.sortKey ≤ b.sortKey
  pending : ∀ id ∈ p.expired, statusOf q id = some .pending

structure Inv (s : State) : Prop where
  returned : ∀ id ∈ s.returnedIds, isHandled (statusOf s.queue id)
  acks : ∀ a ∈ s.acks.rows, ∀ id ∈ a.ids, isHandled (statusOf s.queue id)
  polls : ∀ p ∈ s.polls.rows, PollOk s.queue s.returnedIds p
  apart : ∀ p ∈ s.polls.rows, ∀ p' ∈ s.polls.rows, p.tx ≠ p'.tx → ∀ id ∈ p.locks, id ∉ p'.locks

theorem inv_start (q : Queue) : Inv (start q) where
  returned := List.forall_mem_nil _
  acks := List.forall_mem_nil _
  polls := List.forall_mem_nil _
  apart := List.forall_mem_nil _

theorem PollOk.mono {q q' : Queue} {returned returned' : List Id} {p : Poll}
    (h : PollOk q returned p) (hsub : returned ⊆ returned')
    (hopen : ∀ id ∈ p.ids, isOpen (statusOf q id) → isOpen (statusOf q' id) ∨ id ∈ returned')
    (hpending : ∀ id ∈ p.expired, statusOf q' id = statusOf q id) : PollOk q' returned' p where
  selected id hid := (h.selected id hid).elim (hopen id hid) fun hr => .inr (hsub hr)
  nodup := h.nodup
  sorted := h.sorted
  pending id hid := (hpending id hid).trans (h.pending id hid)

theorem onPoll_cases (s : State) (tx : Id) (phase : Phase) (f : Poll → State) :
    s.onPoll tx phase f = s ∨
      ∃ p ∈ s.polls.rows, p.tx = tx ∧ p.phase = phase ∧ s.onPoll tx phase f = f p := by
  rw [onPoll]
  cases hf : s.polls.find? tx with
  | none => exact .inl rfl
  | some p =>
    by_cases hp : p.phase = phase
    · exact .inr ⟨p, Table.find?_mem hf, Table.find?_key hf, hp, if_pos hp⟩
    · exact .inl (if_neg hp)

theorem isLocked_eq_false {s : State} {tx : Id} {ids : List Id} (h : ¬ s.isLocked tx ids)
    {p : Poll} (hp : p ∈ s.polls.rows) (hne : p.tx ≠ tx) : ∀ id ∈ p.locks, id ∉ ids := by
  intro id hid hmem
  apply h
  rw [isLocked, List.any_eq_true]
  refine ⟨p, hp, ?_⟩
  rw [Bool.and_eq_true, List.any_eq_true]
  exact ⟨decide_eq_true hne, id, hid, decide_eq_true hmem⟩

theorem Inv.enqueue {s : State} (h : Inv s) (e : Enqueue) : Inv (s.enqueue e) := by
  have hres : (s.enqueue e).returnedIds = s.returnedIds ∧ (s.enqueue e).polls = s.polls ∧
      (s.enqueue e).acks = s.acks := by
    rw [State.enqueue]
    cases enqueueInject s.queue e with
    | error err => exact ⟨rfl, rfl, rfl⟩
    | ok done => exact ⟨rfl, rfl, rfl⟩
  obtain ⟨hret, hpolls, hacks⟩ := hres
  constructor
  · rw [hret]
    intro id hid
    rw [statusOf_enqueue s e (isSome_of_isHandled (h.returned id hid))]
    exact h.returned id hid
  · rw [hacks]
    intro a ha id hid
    rw [statusOf_enqueue s e (isSome_of_isHandled (h.acks a ha id hid))]
    exact h.acks a ha id hid
  · rw [hpolls, hret]
    intro p hp
    refine (h.polls p hp).mono (List.Subset.refl _) ?_ ?_
    · intro id _ ho
      rw [statusOf_enqueue s e (isSome_of_isOpen ho)]
      exact .inl ho
    · intro id hid
      exact statusOf_enqueue s e (by rw [(h.polls p hp).pending id hid]; rfl)
  · rw [hpolls]
    exact h.apart

theorem Inv.withPolls {s : State} (h : Inv s) (polls : Table Poll.tx)
    (hok : ∀ p ∈ polls.rows, PollOk s.queue s.returnedIds p)
    (hapart : ∀ p ∈ polls.rows, ∀ p' ∈ polls.rows, p.tx ≠ p'.tx → ∀ id ∈ p.locks, id ∉ p'.locks) :
    Inv { s with polls := polls } :=
  ⟨h.returned, h.acks, hok, hapart⟩

theorem mem_overdueIds {q : Queue} {instanceId : Id} {now : Time} {id : Id}
    (h : id ∈ overdueIds q instanceId now) : statusOf q id = some .pending := by
  obtain ⟨r, hr, rfl⟩ := List.mem_map.mp h
  obtain ⟨hmem, hover⟩ := List.mem_filter.mp hr
  rw [Bool.and_eq_true] at hover
  rw [statusOf_of_mem hmem, isOverdue_status hover.2]

theorem Inv.expire {s : State} (h : Inv s) (instanceId tx poller : Id) (now : Time) (limit : Nat) :
    Inv (s.expire instanceId tx poller now limit) := by
  rw [State.expire]
  split
  · exact h
  · next hlock =>
    split
    · next polls hins =>
      have hrows := Table.insert?_rows hins
      have hfresh : ∀ p ∈ s.polls.rows, p.tx ≠ tx := by
        intro p hp htx
        exact Table.key_not_mem_of_insert? hins (List.mem_map.mpr ⟨p, hp, htx⟩)
      apply h.withPolls
      · rw [hrows, List.forall_mem_append]
        refine ⟨h.polls, List.forall_mem_singleton.mpr ?_⟩
        exact ⟨List.forall_mem_nil _, List.nodup_nil, List.Pairwise.nil, fun id => mem_overdueIds⟩
      · rw [hrows]
        intro p hp p' hp' hne id hid hid'
        rw [List.mem_append, List.mem_singleton] at hp hp'
        rcases hp with hp | rfl
        · rcases hp' with hp' | rfl
          · exact h.apart p hp p' hp' hne id hid hid'
          · simp only [Poll.locks, reduceCtorEq, if_false, List.append_nil] at hid'
            exact isLocked_eq_false hlock hp (hfresh p hp) id hid hid'
        · rcases hp' with hp' | rfl
          · simp only [Poll.locks, reduceCtorEq, if_false, List.append_nil] at hid
            exact isLocked_eq_false hlock hp' (hfresh p' hp') id hid' hid
          · exact hne rfl
    · exact h

theorem pollOk_select {q : Queue} {returned : List Id} {p : Poll} (h : PollOk q returned p)
    (instanceId : Id) :
    PollOk q returned
      (p.select (pendingRows (setExpired q p.now p.expired) instanceId p.now p.limit)) where
  selected := by
    intro id hid
    obtain ⟨r, hr, rfl⟩ := List.mem_map.mp hid
    obtain ⟨hmem, hsel⟩ := mem_pendingRows hr
    have hst := statusOf_of_mem hmem
    rw [isSelectable_status hsel, statusOf_setExpired] at hst
    split at hst
    · next hexp =>
      rw [h.pending _ hexp] at hst
      cases hst
    · left
      rw [hst]
      rfl
  nodup :=
    Window.nodup_map_first ((setExpired q p.now p.expired).keys_nodup.sublist
      (List.filter_sublist.map _))
  sorted := Window.pairwise_first _ _ _
  pending := h.pending

/-- A poll whose rows and locks are replaced stays apart from the others. -/
theorem Inv.update {s : State} (h : Inv s) {p : Poll} (hp : p ∈ s.polls.rows) (f : Poll → Poll)
    (hf : ∀ p, (f p).tx = p.tx) (hok : PollOk s.queue s.returnedIds (f p))
    (hlocks : ∀ p' ∈ s.polls.rows, p'.tx ≠ p.tx → ∀ id ∈ p'.locks, id ∉ (f p).locks) :
    Inv { s with polls := s.polls.update p.tx f hf } := by
  have hmem : ∀ p' ∈ (s.polls.update p.tx f hf).rows,
      p' = f p ∨ p' ∈ s.polls.rows ∧ p'.tx ≠ p.tx := by
    intro p' hp'
    obtain ⟨p₀, hp₀, rfl⟩ := Table.mem_updateWhere.mp hp'
    by_cases htx : p₀.tx = p.tx
    · left
      rw [if_pos (decide_eq_true htx), s.polls.eq_of_key_eq hp₀ hp htx]
    · right
      rw [if_neg (by simpa using htx)]
      exact ⟨hp₀, htx⟩
  apply h.withPolls
  · intro p' hp'
    obtain rfl | ⟨hp', -⟩ := hmem p' hp'
    · exact hok
    · exact h.polls p' hp'
  · intro p₁ hp₁ p₂ hp₂ hne id hid₁ hid₂
    obtain rfl | ⟨hp₁, hne₁⟩ := hmem p₁ hp₁
    · obtain rfl | ⟨hp₂, hne₂⟩ := hmem p₂ hp₂
      · exact hne rfl
      · exact hlocks p₂ hp₂ hne₂ id hid₂ hid₁
    · obtain rfl | ⟨hp₂, -⟩ := hmem p₂ hp₂
      · exact hlocks p₁ hp₁ hne₁ id hid₁ hid₂
      · exact h.apart p₁ hp₁ p₂ hp₂ hne id hid₁ hid₂

theorem Inv.select {s : State} (h : Inv s) (instanceId tx : Id) : Inv (s.select instanceId tx) := by
  rw [State.select]
  obtain hsame | ⟨p, hp, rfl, hphase, hdone⟩ := onPoll_cases s tx .expired _
  · rw [hsame]
    exact h
  · rw [hdone]
    refine h.update hp _ _ (pollOk_select (h.polls p hp) instanceId) ?_
    intro p' hp' hne id hid
    have hlocks : (p.select (pendingRows (setExpired s.queue p.now p.expired) instanceId p.now
        p.limit)).locks = p.locks := by
      simp [Poll.locks, Poll.select, hphase]
    rw [hlocks]
    exact h.apart p' hp' p hp hne id hid

theorem Inv.flush {s : State} (h : Inv s) (tx : Id) : Inv (s.flush tx) := by
  rw [State.flush]
  obtain hsame | ⟨p, hp, rfl, hphase, hdone⟩ := onPoll_cases s tx .selected _
  · rw [hsame]
    exact h
  · rw [hdone]
    split
    · exact h
    · next hlock =>
      have hok := h.polls p hp
      refine h.update hp Poll.flush Poll.flush_tx
        ⟨hok.selected, hok.nodup, hok.sorted, hok.pending⟩ ?_
      intro p' hp' hne id hid hmem
      rw [Poll.locks, List.mem_append] at hmem
      rcases hmem with hmem | hmem
      · exact h.apart p' hp' p hp hne id hid (List.mem_append_left _ hmem)
      · exact isLocked_eq_false hlock hp' hne id hid hmem

theorem Inv.close {s : State} (h : Inv s) (tx : Id) : Inv (s.close tx) := by
  apply h.withPolls
  · intro p hp
    exact h.polls p (Table.mem_deleteWhere.mp hp).1
  · intro p hp p' hp'
    exact h.apart p (Table.mem_deleteWhere.mp hp).1 p' (Table.mem_deleteWhere.mp hp').1

/-- A commit changes nothing, or writes down and returns what its transaction has selected. -/
theorem commit_cases (s : State) (tx : Id) :
    (s.commit tx = s ∧ s.returning tx = []) ∨
    ∃ p ∈ s.polls.rows, p.phase = .flushed ∧ s.returning tx = p.rows ∧
      s.returningTo tx = some p.poller ∧
      s.commit tx =
        { s.close p.tx with
          queue := setDelivered (setExpired s.queue p.now p.expired) p.now p.rows
          results := s.results ++ [(p.poller, p.rows.map (·.setStatus .delivered p.now))] } := by
  rw [commit, onPoll, returning, returningTo]
  cases hf : s.polls.find? tx with
  | none => exact .inl ⟨rfl, rfl⟩
  | some p =>
    by_cases hp : p.phase = .flushed
    · obtain rfl : p.tx = tx := Table.find?_key hf
      exact .inr ⟨p, Table.find?_mem hf, hp, if_pos hp, rfl, if_pos hp⟩
    · exact .inl ⟨if_neg hp, if_neg hp⟩

theorem map_id_setStatus (rows : List InstanceInjectQueue) (status : InjectStatus) (now : Time) :
    (rows.map (·.setStatus status now)).map InstanceInjectQueue.id =
      rows.map InstanceInjectQueue.id := by
  rw [List.map_map]
  rfl

theorem returnedIds_append (results : List (Id × List InstanceInjectQueue)) (p : Poll) :
    ((results ++ [(p.poller, p.rows.map (·.setStatus .delivered p.now))]).flatMap
      fun result => result.2.map InstanceInjectQueue.id) =
      (results.flatMap fun result => result.2.map InstanceInjectQueue.id) ++ p.ids := by
  rw [List.flatMap_append, List.flatMap_singleton, map_id_setStatus, Poll.ids]

theorem statusOf_commit (q : Queue) (p : Poll) (id : Id) :
    statusOf (setDelivered (setExpired q p.now p.expired) p.now p.rows) id =
      if id ∈ p.ids then (statusOf q id).map fun _ => .delivered
      else if id ∈ p.expired then (statusOf q id).map fun _ => .expired
      else statusOf q id := by
  rw [statusOf_setDelivered, statusOf_setExpired, Poll.ids]
  split
  · split
    · rw [Option.map_map]
      rfl
    · rfl
  · rfl

theorem isHandled_commit {q : Queue} {returned : List Id} {p : Poll} (hp : PollOk q returned p)
    {id : Id} (h : isHandled (statusOf q id)) :
    isHandled (statusOf (setDelivered (setExpired q p.now p.expired) p.now p.rows) id) := by
  rw [statusOf_commit]
  split
  · obtain ⟨st, hst⟩ := Option.isSome_iff_exists.mp (isSome_of_isHandled h)
    rw [hst]
    rfl
  · split
    · next hexp =>
      rw [hp.pending id hexp] at h
      exact absurd h (by decide)
    · exact h

theorem Inv.commit {s : State} (h : Inv s) (tx : Id) : Inv (s.commit tx) := by
  obtain ⟨hsame, -⟩ | ⟨p, hp, hphase, -, -, hdone⟩ := commit_cases s tx
  · rw [hsame]
    exact h
  · rw [hdone]
    have hok := h.polls p hp
    have hlocks : p.locks = p.expired ++ p.ids := by rw [Poll.locks, if_pos hphase]
    constructor
    · rw [returnedIds, returnedIds_append]
      intro id hid
      rw [List.mem_append] at hid
      rcases hid with hid | hid
      · exact isHandled_commit hok (h.returned id hid)
      · change isHandled (statusOf (setDelivered (setExpired s.queue p.now p.expired) p.now p.rows) id)
        have hsome : (statusOf s.queue id).isSome :=
          (hok.selected id hid).elim isSome_of_isOpen fun hr => isSome_of_isHandled (h.returned id hr)
        obtain ⟨st, hst⟩ := Option.isSome_iff_exists.mp hsome
        rw [statusOf_commit, if_pos hid, hst]
        rfl
    · intro a ha id hid
      exact isHandled_commit hok (h.acks a ha id hid)
    · intro p' hp'
      obtain ⟨hp', htx⟩ := Table.mem_deleteWhere.mp hp'
      have hne : p'.tx ≠ p.tx := of_decide_eq_false htx
      rw [returnedIds, returnedIds_append]
      refine (h.polls p' hp').mono (List.subset_append_left _ _) ?_ ?_
      · intro id _ ho
        by_cases hid : id ∈ p.ids
        · exact .inr (List.mem_append_right _ hid)
        · left
          rw [statusOf_commit, if_neg hid]
          split
          · next hexp =>
            rw [hok.pending id hexp]
            rfl
          · exact ho
      · intro id hid
        have hout : id ∉ p.locks := h.apart p' hp' p hp hne id (List.mem_append_left _ hid)
        rw [hlocks, List.mem_append, not_or] at hout
        rw [statusOf_commit, if_neg hout.2, if_neg hout.1]
    · intro p₁ hp₁ p₂ hp₂
      exact h.apart p₁ (Table.mem_deleteWhere.mp hp₁).1 p₂ (Table.mem_deleteWhere.mp hp₂).1

theorem mem_ackableIds {q : Queue} {queueIds : List Id} {id : Id}
    (h : id ∈ ackableIds q queueIds) : isHandled (statusOf q id) := by
  obtain ⟨r, hr, rfl⟩ := List.mem_map.mp h
  obtain ⟨hmem, hack⟩ := List.mem_filter.mp hr
  rw [statusOf_of_mem hmem, isAckable_status hack]
  rfl

theorem Inv.selectAcks {s : State} (h : Inv s) (tx : Id) (now : Time) (queueIds : List Id) :
    Inv (s.selectAcks tx now queueIds) := by
  rw [State.selectAcks]
  split
  · next acks hins =>
    refine ⟨h.returned, ?_, h.polls, h.apart⟩
    change ∀ a ∈ acks.rows, _
    rw [Table.insert?_rows hins, List.forall_mem_append]
    exact ⟨h.acks, List.forall_mem_singleton.mpr fun id => mem_ackableIds⟩
  · exact h

theorem isHandled_setAcked {q : Queue} (now : Time) (ids : List Id) {id : Id}
    (h : isHandled (statusOf q id)) : isHandled (statusOf (setAcked q now ids) id) := by
  rw [statusOf_setAcked]
  split
  · obtain ⟨st, hst⟩ := Option.isSome_iff_exists.mp (isSome_of_isHandled h)
    rw [hst]
    rfl
  · exact h

theorem Inv.commitAcks {s : State} (h : Inv s) (tx : Id) : Inv (s.commitAcks tx) := by
  rw [State.commitAcks]
  split
  · next a hf =>
    split
    · exact h
    · have hopen : ∀ id, isOpen (statusOf s.queue id) → id ∉ a.ids := by
        intro id ho hid
        exact not_isHandled_of_isOpen ho (h.acks a (Table.find?_mem hf) id hid)
      constructor
      · intro id hid
        exact isHandled_setAcked a.now a.ids (h.returned id hid)
      · intro a' ha' id hid
        exact isHandled_setAcked a.now a.ids (h.acks a' (Table.mem_deleteWhere.mp ha').1 id hid)
      · intro p hp
        refine (h.polls p hp).mono (List.Subset.refl _) ?_ ?_
        · intro id _ ho
          rw [statusOf_setAcked, if_neg (hopen id ho)]
          exact .inl ho
        · intro id hid
          rw [statusOf_setAcked, if_neg (hopen id _)]
          rw [(h.polls p hp).pending id hid]
          rfl
      · exact h.apart
  · exact h

theorem Inv.step {s : State} (h : Inv s) (instanceId : Id) (c : Step) :
    Inv (s.step instanceId c) := by
  cases c with
  | enqueue e => exact h.enqueue e
  | expire tx poller now limit => exact h.expire instanceId tx poller now limit
  | select tx => exact h.select instanceId tx
  | flush tx => exact h.flush tx
  | commit tx => exact h.commit tx
  | abort tx => exact h.close tx
  | selectAcks tx now queueIds => exact h.selectAcks tx now queueIds
  | commitAcks tx => exact h.commitAcks tx

/-! What a step adds to the results. -/

theorem step_results (instanceId : Id) (s : State) {c : Step} (hc : ∀ tx, c ≠ .commit tx) :
    (s.step instanceId c).results = s.results := by
  cases c with
  | enqueue e =>
    rw [step, enqueue]
    cases enqueueInject s.queue e with
    | error err => rfl
    | ok done => rfl
  | expire tx poller now limit =>
    rw [step, expire]
    split
    · rfl
    · split
      · rfl
      · rfl
  | select tx =>
    rw [step, select]
    obtain h | ⟨p, -, -, -, h⟩ := onPoll_cases s tx .expired _
    · rw [h]
    · rw [h]
  | flush tx =>
    rw [step, flush]
    obtain h | ⟨p, -, -, -, h⟩ := onPoll_cases s tx .selected _
    · rw [h]
    · rw [h]
      split
      · rfl
      · rfl
  | commit tx => exact absurd rfl (hc tx)
  | abort tx => rfl
  | selectAcks tx now queueIds =>
    rw [step, selectAcks]
    split
    · rfl
    · rfl
  | commitAcks tx =>
    rw [step, commitAcks]
    split
    · split
      · rfl
      · rfl
    · rfl

theorem atMostOnce_commit_iff {s : State} (h : Inv s) (hs : s.AtMostOnce) (tx : Id) :
    (s.commit tx).AtMostOnce ↔ ∀ r ∈ s.returning tx, isOpen (statusOf s.queue r.id) := by
  obtain ⟨hsame, hnil⟩ | ⟨p, hp, -, hrows, -, hdone⟩ := commit_cases s tx
  · rw [hsame, hnil]
    exact iff_of_true hs (List.forall_mem_nil _)
  · have hok := h.polls p hp
    rw [hdone, hrows, AtMostOnce, returnedIds, returnedIds_append, List.nodup_append]
    constructor
    · rintro ⟨-, -, hout⟩ r hr
      have hid : r.id ∈ p.ids := List.mem_map_of_mem hr
      refine (hok.selected r.id hid).resolve_right fun hret => ?_
      exact hout r.id hret r.id hid rfl
    · intro hopen
      refine ⟨hs, hok.nodup, ?_⟩
      rintro id hret _ hid rfl
      obtain ⟨r, hr, rfl⟩ := List.mem_map.mp hid
      exact not_isHandled_of_isOpen (hopen r hr) (h.returned r.id hret)

theorem step_atMostOnce_iff (instanceId : Id) {s : State} (h : Inv s) (hs : s.AtMostOnce)
    (c : Step) : (s.step instanceId c).AtMostOnce ↔ s.Unclaimed c := by
  by_cases hc : ∃ tx, c = .commit tx
  · obtain ⟨tx, rfl⟩ := hc
    exact atMostOnce_commit_iff h hs tx
  · rw [not_exists] at hc
    have hsame : (s.step instanceId c).AtMostOnce := by
      rw [AtMostOnce, returnedIds, step_results instanceId s hc]
      exact hs
    cases c with
    | commit tx => exact absurd rfl (hc tx)
    | _ => exact iff_of_true hsame trivial

theorem returnedTo_append (results : List (Id × List InstanceInjectQueue)) (p : Poll)
    (poller : Id) :
    (((results ++ [(p.poller, p.rows.map (·.setStatus .delivered p.now))]).filter
      fun result => result.1 = poller).flatMap Prod.snd) =
      ((results.filter fun result => result.1 = poller).flatMap Prod.snd) ++
        if p.poller = poller then p.rows.map (·.setStatus .delivered p.now) else [] := by
  rw [List.filter_append, List.flatMap_append]
  by_cases hp : p.poller = poller
  · simp [hp]
  · simp [hp]

theorem inOrder_commit_iff {s : State} (h : Inv s) (hs : s.InOrder) (tx : Id) :
    (s.commit tx).InOrder ↔ s.Later (.commit tx) := by
  obtain ⟨hsame, hnil⟩ | ⟨p, hp, -, hrows, hto, hdone⟩ := commit_cases s tx
  · rw [hsame, Later, hnil]
    exact iff_of_true hs fun _ _ _ _ => List.forall_mem_nil _
  · have hok := h.polls p hp
    have hsorted : (p.rows.map (·.setStatus .delivered p.now)).Pairwise
        fun a b => a.sortKey ≤ b.sortKey := List.pairwise_map.mpr hok.sorted
    rw [hdone, Later, hrows, hto]
    simp only [InOrder, returnedTo, returnedTo_append]
    constructor
    · intro hall poller hpoller a ha r hr
      obtain rfl : p.poller = poller := Option.some.inj hpoller
      have hpw := hall p.poller
      rw [if_pos rfl, List.pairwise_append] at hpw
      exact hpw.2.2 a ha (r.setStatus .delivered p.now) (List.mem_map_of_mem hr)
    · intro hlater poller
      by_cases hpoller : p.poller = poller
      · subst hpoller
        rw [if_pos rfl, List.pairwise_append]
        refine ⟨hs p.poller, hsorted, ?_⟩
        intro a ha b hb
        obtain ⟨r, hr, rfl⟩ := List.mem_map.mp hb
        exact hlater p.poller rfl a ha r hr
      · rw [if_neg hpoller, List.append_nil]
        exact hs poller

theorem step_inOrder_iff (instanceId : Id) {s : State} (h : Inv s) (hs : s.InOrder) (c : Step) :
    (s.step instanceId c).InOrder ↔ s.Later c := by
  by_cases hc : ∃ tx, c = .commit tx
  · obtain ⟨tx, rfl⟩ := hc
    exact inOrder_commit_iff h hs tx
  · rw [not_exists] at hc
    have hsame : (s.step instanceId c).InOrder := by
      intro poller
      rw [returnedTo, step_results instanceId s hc]
      exact hs poller
    cases c with
    | commit tx => exact absurd rfl (hc tx)
    | _ => exact iff_of_true hsame trivial

/-- No row is returned by two polls in exactly the runs where each poll commits while the rows
it has selected are unclaimed; a poller gets its rows in order in exactly the runs where each
of its polls commits rows that come after those it has got. -/
theorem delivery_iff (instanceId : Id) (q : Queue) (steps : List Step) :
    (Run.Always (step instanceId) AtMostOnce (start q) steps ↔
      Run.Meets (step instanceId) Unclaimed (start q) steps) ∧
    (Run.Always (step instanceId) (fun s => s.AtMostOnce ∧ s.InOrder) (start q) steps ↔
      Run.Meets (step instanceId) (fun s c => s.Unclaimed c ∧ s.Later c) (start q) steps) := by
  have hinv : ∀ s c, Inv s → Inv (step instanceId s c) := fun s c h => h.step instanceId c
  constructor
  · apply Run.always_iff_meets hinv
    · intro s c h hs
      exact step_atMostOnce_iff instanceId h hs c
    · exact inv_start q
    · exact List.nodup_nil
  · apply Run.always_iff_meets hinv
    · intro s c h hs
      rw [step_atMostOnce_iff instanceId h hs.1, step_inOrder_iff instanceId h hs.2]
    · exact inv_start q
    · exact ⟨List.nodup_nil, fun _ => List.Pairwise.nil⟩

/-- Two pollers select the one pending row before either has committed. -/
def overlap : List Step :=
  [.enqueue ⟨0, "q", true, "i", .collabInject, .softInject, .obj [], none⟩,
    .expire "t" "a" 1 20, .select "t", .expire "u" "b" 1 20, .select "u",
    .flush "t", .commit "t", .flush "u", .commit "u"]

theorem overlap_delivers_twice :
    ¬ Run.Always (step "i") (fun s => s.AtMostOnce ∧ s.InOrder) (start .empty) overlap := by
  intro h
  have hids : (Run.exec (step "i") (start .empty) overlap).returnedIds = ["q", "q"] := by decide
  have hnodup : (Run.exec (step "i") (start .empty) overlap).returnedIds.Nodup := h.exec.1
  rw [hids] at hnodup
  exact absurd hnodup (by decide)

end State

end Eyot.Inject.Pollers
