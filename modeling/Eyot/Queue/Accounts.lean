import Eyot.Library.Run
import Eyot.Queue.Worker
import Mathlib.Algebra.Order.Group.Multiset

/-! Every task runs once, not before its time and in order, or is still to run. -/

namespace Eyot.Queue

open MinQueue (popMin popMin_spec forall_popMin_cons mem_of_popMin)

def Phase.held : Phase → Option Task
  | .sleeping t _ | .expired t _ => some t
  | _ => none

def Shared.ran (s : Shared) : List Task := s.executed.map Execution.task

/-- A worker that has not been woken knows the queue. -/
def Shared.Allows (s : Shared) : Phase → Prop
  | .idle false => s.stopping = false ∧ s.queue = []
  | .sleeping t false => s.stopping = false ∧ ∀ x ∈ s.queue, t.order ≤ x.order
  | .expired t waiting => t.runAt ≤ s.now ∧ ∀ x ∈ waiting, t.order ≤ x.order
  | _ => True

/-- In time, and before all that waited. -/
structure Execution.Lawful (e : Execution) : Prop where
  timely : e.task.runAt ≤ e.time
  ordered : ∀ x ∈ e.waiting, e.task.order ≤ x.order

namespace State

variable (s : State)

def held : List Task := s.workers.filterMap Phase.held

/-- Where all tasks are: queued, in the hands of a worker, or run. -/
def stock : List Task := s.queue ++ s.held ++ s.ran

structure Inv : Prop where
  stock : s.stock.Perm s.enqueued
  nodup : (s.enqueued.map Task.seq).Nodup
  seq : ∀ t ∈ s.enqueued, t.seq ≤ s.seq
  registered : ∀ t ∈ s.enqueued, s.handlers.contains t.taskName = true
  lawful : ∀ e ∈ s.executed, e.Lawful
  workers : ∀ phase ∈ s.workers, s.Allows phase

end State

/-! What a worker does. -/

namespace Shared

variable (s : Shared) (phase : Phase)

/-- The part of a worker in the stock, with the shared part. -/
def stockWith : List Task := s.queue ++ phase.held.toList ++ s.ran

def putBack : Shared := { s with queue := phase.held.toList ++ s.queue }

end Shared

/-- What a worker leaves behind when it comes to its next suspension point. -/
structure Proceeds (s : Shared) (phase : Phase) (s' : Shared) (phase' : Phase) : Prop where
  same : s' = { s with queue := s'.queue, executed := s'.executed }
  stock : (s'.stockWith phase').Perm (s.stockWith phase)
  lawful : ∀ e ∈ s'.executed, e ∈ s.executed ∨ e.Lawful
  queue : ∀ U : Int ×ₗ Nat → Prop, (∀ a b, a ≤ b → U a → U b) → s.stopping = false →
    (∀ x ∈ s.queue, U x.order) → ∀ x ∈ s'.queue, U x.order
  allows : s'.Allows phase'

namespace Shared

variable {s s' : Shared} {phase phase' : Phase} {t : Task} {waiting : List Task}

theorem execute_eq (h : s.handlers.contains t.taskName = true) (waiting : List Task) :
    s.execute t waiting =
      ({ s with executed := s.executed ++ [⟨t, s.now, waiting⟩] }, .executing t) :=
  if_pos h

theorem ran_execute (s : Shared) (t : Task) (waiting : List Task) :
    ({ s with executed := s.executed ++ [⟨t, s.now, waiting⟩] } : Shared).ran = s.ran ++ [t] := by
  rw [ran, ran, List.map_append]
  rfl

theorem forall_executed {e : Execution} (h : e.Lawful) :
    ∀ e' ∈ s.executed ++ [e], e' ∈ s.executed ∨ e'.Lawful := by
  intro e' he
  obtain he | he := List.mem_append.mp he
  · exact .inl he
  · exact .inr (List.mem_singleton.mp he ▸ h)

/-- At the head of the loop: the worker stops, waits for a task, runs the least or sleeps for it. -/
theorem loopHead_cases (hreg : ∀ t ∈ s.queue, s.handlers.contains t.taskName = true) :
    (s.stopping = true ∧ s.loopHead = (s, .finished)) ∨
    (s.stopping = false ∧ s.queue = [] ∧ s.loopHead = (s, .idle false)) ∨
    ∃ t rest, s.stopping = false ∧ popMin Task.order s.queue = some (t, rest) ∧
      (t.runAt ≤ s.now ∧ s.loopHead =
          ({ s with queue := rest, executed := s.executed ++ [⟨t, s.now, rest⟩] }, .executing t) ∨
        s.loopHead = ({ s with queue := rest }, .sleeping t false)) := by
  unfold loopHead
  cases hstop : s.stopping with
  | true => exact .inl ⟨rfl, rfl⟩
  | false =>
    cases hpop : popMin Task.order s.queue with
    | none => exact .inr (.inl ⟨rfl, MinQueue.popMin_eq_none.mp hpop, rfl⟩)
    | some out =>
      obtain ⟨t, rest⟩ := out
      have ht : s.handlers.contains t.taskName = true :=
        hreg t ((popMin_spec hpop).1.mem_iff.mpr List.mem_cons_self)
      refine .inr (.inr ⟨t, rest, rfl, rfl, ?_⟩)
      by_cases hdue : t.runAt ≤ s.now
      · refine .inl ⟨hdue, ?_⟩
        simp only [Bool.false_eq_true, if_false, if_pos hdue]
        exact if_pos ht
      · refine .inr ?_
        simp only [Bool.false_eq_true, if_false, if_neg hdue]

theorem putBack_perm (s : Shared) (phase : Phase) :
    (s.putBack phase).queue.Perm (s.queue ++ phase.held.toList) :=
  List.perm_append_comm

theorem forall_popMin_putBack {U : Int ×ₗ Nat → Prop} (hup : ∀ a b, a ≤ b → U a → U b)
    (hU : ∀ x ∈ s.queue, U x.order) {rest : List Task}
    (hpop : popMin Task.order (s.putBack phase).queue = some (t, rest)) :
    ∀ x ∈ rest, U x.order := by
  rw [putBack] at hpop
  cases hheld : phase.held with
  | none =>
    rw [hheld] at hpop
    exact fun x hx => hU x (mem_of_popMin hpop hx)
  | some t =>
    rw [hheld] at hpop
    exact forall_popMin_cons hup hU hpop

/-- A worker puts back what it holds, and goes round. -/
theorem proceeds_loopHead
    (hreg : ∀ t ∈ (s.putBack phase).queue, s.handlers.contains t.taskName = true) :
    Proceeds s phase (s.putBack phase).loopHead.1 (s.putBack phase).loopHead.2 := by
  have hrest : ∀ {t rest}, popMin Task.order (s.putBack phase).queue = some (t, rest) →
      (rest ++ [t]).Perm (s.queue ++ phase.held.toList) := fun hpop =>
    (List.perm_append_singleton _ _).trans ((popMin_spec hpop).1.symm.trans (putBack_perm s phase))
  have hstay : ((s.putBack phase).queue ++ [] ++ s.ran).Perm (s.stockWith phase) := by
    rw [List.append_nil]
    exact (putBack_perm s phase).append_right s.ran
  obtain ⟨hstop, heq⟩ | ⟨hstop, hnil, heq⟩ | ⟨t, rest, hstop, hpop, ⟨hdue, heq⟩ | heq⟩ :=
    loopHead_cases hreg
  · rw [heq]
    exact ⟨rfl, hstay, fun e he => .inl he,
      fun U _ hrunning => absurd (hstop.symm.trans hrunning) Bool.noConfusion, trivial⟩
  · rw [heq]
    exact ⟨rfl, hstay, fun e he => .inl he, fun U _ _ _ => hnil ▸ nofun, hstop, hnil⟩
  · rw [heq]
    refine ⟨rfl, ?_, forall_executed ⟨hdue, (popMin_spec hpop).2⟩,
      fun U hup _ hU => forall_popMin_putBack hup hU hpop, trivial⟩
    calc rest ++ [] ++ ran _
        = rest ++ (s.ran ++ [t]) := by rw [List.append_nil]; exact congrArg _ (ran_execute s t rest)
      List.Perm _ (rest ++ ([t] ++ s.ran)) := List.perm_append_comm.append_left rest
      List.Perm _ (s.stockWith phase) := by
        rw [← List.append_assoc]
        exact (hrest hpop).append_right s.ran
  · rw [heq]
    exact ⟨rfl, (hrest hpop).append_right s.ran, fun e he => .inl he,
      fun U hup _ hU => forall_popMin_putBack hup hU hpop, hstop, (popMin_spec hpop).2⟩

theorem proceeds_expired (hreg : s.handlers.contains t.taskName = true)
    (hallows : s.Allows (.expired t waiting)) :
    Proceeds s (.expired t waiting) (s.execute t waiting).1 (s.execute t waiting).2 := by
  rw [execute_eq hreg]
  refine ⟨rfl, ?_, forall_executed ⟨hallows.1, hallows.2⟩, fun _ _ _ hU => hU, trivial⟩
  change (s.queue ++ [] ++ ran _).Perm (s.queue ++ [t] ++ s.ran)
  rw [ran_execute, List.append_nil, List.append_assoc]
  exact List.perm_append_comm.append_left s.queue

theorem proceeds_advance {move : Move}
    (hreg : ∀ t ∈ s.queue ++ phase.held.toList, s.handlers.contains t.taskName = true)
    (hallows : s.Allows phase) (h : s.advance phase move = some (s', phase')) :
    Proceeds s phase s' phase' := by
  have hround : (s.putBack phase).loopHead = (s', phase') → Proceeds s phase s' phase' := by
    intro heq
    have hproceeds := proceeds_loopHead fun t ht => hreg t ((putBack_perm s phase).mem_iff.mp ht)
    rwa [heq] at hproceeds
  unfold advance at h
  split at h
  · exact hround (Option.some.inj h)
  · exact hround (Option.some.inj h)
  · exact hround (Option.some.inj h)
  · split at h
    · rename_i hdue
      cases h
      exact ⟨rfl, .refl _, fun e he => .inl he, fun _ _ _ hU => hU, hdue, hallows.2⟩
    · cases h
  · have hproceeds := proceeds_expired
      (hreg _ (List.mem_append_right _ (List.mem_singleton_self _))) hallows
    rwa [Option.some.inj h] at hproceeds
  · cases h
    exact ⟨rfl, .refl _, fun e he => .inl he, fun _ _ _ hU => hU, trivial⟩
  · exact hround (Option.some.inj h)
  · cases h

/-- What a worker does leaves the others with what they know. -/
theorem allows_other (h : Proceeds s phase s' phase') {other : Phase}
    (hother : s.Allows other) : s'.Allows other := by
  have hstopping : s'.stopping = s.stopping := by rw [h.same]
  have hnow : s'.now = s.now := by rw [h.same]
  cases other with
  | idle woken =>
    cases woken with
    | true => trivial
    | false =>
      refine ⟨hstopping.trans hother.1, List.eq_nil_iff_forall_not_mem.mpr fun x hx => ?_⟩
      refine h.queue (fun _ => False) (fun _ _ _ hf => hf) hother.1 (fun y hy => ?_) x hx
      rw [hother.2] at hy
      cases hy
  | sleeping t woken =>
    cases woken with
    | true => trivial
    | false =>
      exact ⟨hstopping.trans hother.1,
        h.queue (t.order ≤ ·) (fun _ _ hab ha => ha.trans hab) hother.1 hother.2⟩
  | expired t waiting => exact ⟨hother.1.trans_eq hnow.symm, hother.2⟩
  | ready => trivial
  | executing => trivial
  | finished => trivial
  | crashed => trivial

theorem allows_wake (hallows : s.Allows phase) (queue : List Task) (seq : Nat)
    (enqueued : List Task) (stopping : Bool) :
    Allows { s with queue := queue, seq := seq, enqueued := enqueued, stopping := stopping }
      phase.wake := by
  cases phase with
  | expired t waiting => exact hallows
  | _ => trivial

end Shared

theorem held_wake (phase : Phase) : phase.wake.held = phase.held := by
  cases phase <;> rfl

/-! All workers together. -/

theorem filterMap_cons_eq {α β : Type} (f : α → Option β) (a : α) (l : List α) :
    (a :: l).filterMap f = (f a).toList ++ l.filterMap f := by
  rw [List.filterMap_cons]
  cases f a <;> rfl

/-- What one place of a list gives up, and what it takes. -/
theorem filterMap_set_perm {α β : Type} {f : α → Option β} {l : List α} {i : Nat} {a : α} (b : α)
    (h : l[i]? = some a) :
    ((l.set i b).filterMap f ++ (f a).toList).Perm (l.filterMap f ++ (f b).toList) := by
  induction l generalizing i with
  | nil => cases h
  | cons c l ih =>
    cases i with
    | zero =>
      obtain rfl : c = a := by simpa using h
      rw [List.set_cons_zero, filterMap_cons_eq, filterMap_cons_eq]
      exact List.perm_append_comm.trans (List.perm_append_comm.append_left _ |>.trans
        (by rw [List.append_assoc]))
    | succ i =>
      rw [List.set_cons_succ, filterMap_cons_eq, filterMap_cons_eq, List.append_assoc,
        List.append_assoc]
      exact (ih (by simpa using h)).append_left _

theorem perm_exchange {α : Type} {q q' h h' r r' a b : List α}
    (hone : (q' ++ b ++ r').Perm (q ++ a ++ r)) (hall : (h' ++ a).Perm (h ++ b)) :
    (q' ++ h' ++ r').Perm (q ++ h ++ r) := by
  simp only [← Multiset.coe_eq_coe, ← Multiset.coe_add] at hone hall ⊢
  refine Multiset.add_left_inj.mp (?_ : _ + (a : Multiset α) = _ + (a : Multiset α))
  calc (q' + h' + r' + a : Multiset α) = q' + r' + (h' + a) := by ac_rfl
    _ = q' + b + r' + h := by rw [hall]; ac_rfl
    _ = q + h + r + a := by rw [hone]; ac_rfl

namespace State

variable {s : State}

theorem held_map_wake (workers : List Phase) :
    (workers.map Phase.wake).filterMap Phase.held = workers.filterMap Phase.held := by
  rw [List.filterMap_map]
  exact List.filterMap_congr fun phase _ => held_wake phase

namespace Inv

theorem empty : State.empty.Inv :=
  ⟨.refl _, List.nodup_nil, nofun, nofun, nofun, nofun⟩

theorem mem_stock (h : s.Inv) {t : Task} : t ∈ s.stock ↔ t ∈ s.enqueued := h.stock.mem_iff

theorem tick (h : s.Inv) (elapsed : Nat) : (s.step (.tick elapsed)).Inv where
  stock := h.stock
  nodup := h.nodup
  seq := h.seq
  registered := h.registered
  lawful := h.lawful
  workers phase hphase := by
    have hallows := h.workers phase hphase
    cases phase with
    | expired t waiting =>
      exact ⟨hallows.1.trans (Int.le_add_of_nonneg_right (Int.natCast_nonneg elapsed)), hallows.2⟩
    | idle woken => cases woken <;> exact hallows
    | sleeping t woken => cases woken <;> exact hallows
    | _ => trivial

theorem registerTask (h : s.Inv) (taskName : Str) : (s.step (.registerTask taskName)).Inv := by
  rw [step]
  split
  · exact h
  · refine ⟨h.stock, h.nodup, h.seq, fun t ht => ?_, h.lawful, h.workers⟩
    rw [List.contains_append, h.registered t ht, Bool.true_or]

theorem enqueue (h : s.Inv) (taskName : Str) (delay : Int) (payload : Option (Json Str))
    (taskId : Id) : (s.step (.enqueue taskName delay payload taskId)).Inv := by
  rw [step]
  split
  · rename_i hname
    have hnew : ∀ t ∈ s.enqueued, t.seq ≠ s.seq + 1 := fun t ht =>
      Nat.ne_of_lt (Nat.lt_succ_of_le (h.seq t ht))
    refine ⟨?_, ?_, ?_, ?_, h.lawful, ?_⟩
    · have hstock : (s.enqueue (s.newTask taskName delay payload taskId)).stock =
          s.newTask taskName delay payload taskId :: s.stock := by
        rw [State.stock, held, State.enqueue, held_map_wake]
        rfl
      rw [hstock]
      exact (h.stock.cons _).trans (List.perm_append_singleton _ _).symm
    · rw [State.enqueue, List.map_append]
      refine List.Nodup.append h.nodup (List.nodup_singleton _) fun seq hseq hseq' => ?_
      obtain ⟨t, ht, rfl⟩ := List.mem_map.mp hseq
      exact hnew t ht (List.mem_singleton.mp hseq')
    · intro t ht
      obtain ht | ht := List.mem_append.mp ht
      · exact (h.seq t ht).trans (Nat.le_succ _)
      · rw [List.mem_singleton.mp ht]
        exact Nat.le_refl _
    · intro t ht
      obtain ht | ht := List.mem_append.mp ht
      · exact h.registered t ht
      · rw [List.mem_singleton.mp ht]
        exact hname
    · intro phase hphase
      obtain ⟨old, hold, rfl⟩ := List.mem_map.mp hphase
      exact Shared.allows_wake (h.workers old hold) _ _ _ _
  · exact h

theorem start (h : s.Inv) : (s.step .start).Inv := by
  rw [step]
  split
  · exact h
  · refine ⟨?_, h.nodup, h.seq, h.registered, h.lawful, fun phase hphase => ?_⟩
    · rw [State.stock, held, List.filterMap_append]
      exact (List.append_nil (s.workers.filterMap Phase.held)).symm ▸ h.stock
    · obtain hphase | hphase := List.mem_append.mp hphase
      · have hallows := h.workers phase hphase
        cases phase with
        | idle woken => cases woken <;> first | trivial | exact ⟨rfl, hallows.2⟩
        | sleeping t woken => cases woken <;> first | trivial | exact ⟨rfl, hallows.2⟩
        | expired t waiting => exact hallows
        | _ => trivial
      · rw [List.mem_singleton.mp hphase]
        trivial

theorem stop (h : s.Inv) : (s.step .stop).Inv := by
  refine ⟨?_, h.nodup, h.seq, h.registered, h.lawful, fun phase hphase => ?_⟩
  · rw [State.step, State.stock, held, held_map_wake]
    exact h.stock
  · obtain ⟨old, hold, rfl⟩ := List.mem_map.mp hphase
    exact Shared.allows_wake (h.workers old hold) _ _ _ _

theorem stopReturns (h : s.Inv) (k : Nat) : (s.step (.stopReturns k)).Inv := by
  rw [step, State.stopReturns]
  split
  · exact ⟨h.stock, h.nodup, h.seq, h.registered, h.lawful, h.workers⟩
  · exact ⟨h.stock, h.nodup, h.seq, h.registered, h.lawful, h.workers⟩
  · exact h

theorem mem_held {w : Nat} {phase : Phase} (hphase : s.workers[w]? = some phase) {t : Task}
    (ht : t ∈ phase.held.toList) : t ∈ s.held :=
  List.mem_filterMap.mpr ⟨phase, List.mem_of_getElem? hphase, Option.mem_toList.mp ht⟩

theorem worker (h : s.Inv) (w : Nat) (move : Move) : (s.step (.worker w move)).Inv := by
  rw [step, State.worker]
  cases hmoved : s.workers[w]?.bind fun phase => s.toShared.advance phase move with
  | none => exact h
  | some out =>
    obtain ⟨shared, phase'⟩ := out
    obtain ⟨phase, hphase, hadvance⟩ := Option.bind_eq_some_iff.mp hmoved
    have hreg : ∀ t ∈ s.queue ++ phase.held.toList, s.handlers.contains t.taskName = true := by
      intro t ht
      refine h.registered t (h.mem_stock.mp (List.mem_append_left _ ?_))
      obtain ht | ht := List.mem_append.mp ht
      · exact List.mem_append_left _ ht
      · exact List.mem_append_right _ (mem_held hphase ht)
    have hproceeds := Shared.proceeds_advance hreg
      (h.workers phase (List.mem_of_getElem? hphase)) hadvance
    obtain ⟨henqueued, hseq, hhandlers⟩ : shared.enqueued = s.enqueued ∧ shared.seq = s.seq ∧
        shared.handlers = s.handlers := by
      rw [hproceeds.same]
      exact ⟨rfl, rfl, rfl⟩
    refine ⟨?_, ?_, ?_, ?_, ?_, ?_⟩
    · rw [henqueued]
      exact (perm_exchange hproceeds.stock (filterMap_set_perm phase' hphase)).trans h.stock
    · rw [henqueued]
      exact h.nodup
    · rw [henqueued, hseq]
      exact h.seq
    · rw [henqueued, hhandlers]
      exact h.registered
    · intro e he
      exact (hproceeds.lawful e he).elim (h.lawful e) id
    · intro other hother
      obtain hother | rfl := List.mem_or_eq_of_mem_set hother
      · exact Shared.allows_other hproceeds (h.workers other hother)
      · exact hproceeds.allows

theorem step (h : s.Inv) (i : Input) : (s.step i).Inv := by
  cases i with
  | tick elapsed => exact h.tick elapsed
  | registerTask taskName => exact h.registerTask taskName
  | enqueue taskName delay payload taskId => exact h.enqueue taskName delay payload taskId
  | start => exact h.start
  | stop => exact h.stop
  | stopReturns k => exact h.stopReturns k
  | worker w move => exact h.worker w move

end Inv

end State

/-! What is said of the queue. -/

/-- The accounts of the queue: `kept` and `putBack` say where a task is that has not run, and that
a worker which is stopped in its sleep gives back what it holds; by `awake` no wake-up is lost. -/
structure Accounts (s : State) : Prop where
  once : (s.ran.map Task.seq).Nodup
  enqueued : ∀ t ∈ s.ran, t ∈ s.enqueued
  timely : ∀ e ∈ s.executed, e.task.runAt ≤ e.time
  ordered : ∀ e ∈ s.executed, ∀ x ∈ e.waiting, ¬ x.order < e.task.order
  kept : ∀ t ∈ s.enqueued, t ∈ s.queue ∨ t ∈ s.ran ∨
    ∃ (w : Nat) (phase : Phase), s.workers[w]? = some phase ∧ phase.held = some t
  putBack : s.stopping = true → ∀ (w : Nat) (t : Task) (woken : Bool),
    s.workers[w]? = some (.sleeping t woken) → t ∈ (s.step (.worker w .run)).queue ∧
      (s.step (.worker w .run)).workers[w]? = some .finished
  awake : ∀ w : Nat, s.workers[w]? = some (.idle false) → s.queue = []

namespace State.Inv

variable {s : State}

theorem nodup_stock (h : s.Inv) : (s.stock.map Task.seq).Nodup :=
  (h.stock.map Task.seq).nodup_iff.mpr h.nodup

theorem putBack (h : s.Inv) (hstop : s.stopping = true) {w : Nat} {t : Task} {woken : Bool}
    (hphase : s.workers[w]? = some (.sleeping t woken)) :
    t ∈ (s.step (.worker w .run)).queue ∧
      (s.step (.worker w .run)).workers[w]? = some .finished := by
  have hw : w < s.workers.length := (List.getElem?_eq_some_iff.mp hphase).1
  cases woken with
  | false =>
    have hallows := h.workers _ (List.mem_of_getElem? hphase)
    exact absurd (hstop.symm.trans hallows.1) Bool.noConfusion
  | true =>
    have hadvance : s.toShared.advance (.sleeping t true) .run =
        some ({ s.toShared with queue := t :: s.queue }, .finished) :=
      congrArg some (if_pos hstop)
    have hstep : s.step (.worker w .run) = { s with
        queue := t :: s.queue, workers := s.workers.set w .finished } := by
      rw [State.step, State.worker, hphase, Option.bind_some, hadvance]
    rw [hstep]
    exact ⟨List.mem_cons_self, by simp [hw]⟩

theorem accounts (h : s.Inv) : Accounts s where
  once := (List.nodup_append.mp (List.map_append ▸ h.nodup_stock)).2.1
  enqueued t ht := h.mem_stock.mp (List.mem_append_right _ ht)
  timely e he := (h.lawful e he).timely
  ordered e he x hx := not_lt.mpr ((h.lawful e he).ordered x hx)
  kept t ht := by
    obtain ht | ht := List.mem_append.mp (h.mem_stock.mpr ht)
    · obtain ht | ht := List.mem_append.mp ht
      · exact .inl ht
      · obtain ⟨phase, hphase, hheld⟩ := List.mem_filterMap.mp ht
        obtain ⟨w, hw⟩ := List.mem_iff_getElem?.mp hphase
        exact .inr (.inr ⟨w, phase, hw, hheld⟩)
    · exact .inr (.inl ht)
  putBack hstop w t woken := h.putBack hstop
  awake w hw := (h.workers _ (List.mem_of_getElem? hw)).2

end State.Inv

/-- Whatever is enqueued, started, stopped and run, in whatever order, the accounts are right all
the way. -/
theorem always_accounts (is : List Input) : Run.Always State.step Accounts State.empty is := by
  have hinv : Run.Always State.step State.Inv State.empty is :=
    Run.always_of_step (fun _ i h => h.step i) State.Inv.empty is
  exact hinv.imp fun _ h => h.accounts

end Eyot.Queue
