import Eyot.Composer.Frames
import Eyot.Library.Run
import Mathlib.Data.List.Nodup

/-! The event bus of the backend: the subscriptions under each event type, and their bounded
queues. -/

namespace Eyot.Deploy

open Run (exec Always Meets)
open Composer (Value)

structure SSEEvent where
  event : Str
  data : List (PyStr × Value)
  id : Option Str

/-- `taken` is what has been read from the queue. -/
structure Subscription where
  registeredEventTypes : List Str
  cleaned : Bool
  queue : List SSEEvent
  taken : List SSEEvent

def QUEUE_MAXSIZE : Nat := 100

namespace Subscription

def fresh (eventTypes : List Str) : Subscription := ⟨eventTypes.eraseDups, false, [], []⟩

variable (sub : Subscription)

/-- An event that finds the queue full is dropped. -/
def putNowait (e : SSEEvent) : Subscription :=
  if sub.queue.length < QUEUE_MAXSIZE then { sub with queue := sub.queue ++ [e] } else sub

def get : Subscription :=
  match sub.queue with
  | [] => sub
  | e :: queue => { sub with queue := queue, taken := sub.taken ++ [e] }

def listens (eventType : Str) : Bool :=
  sub.registeredEventTypes.contains eventType && !sub.cleaned

end Subscription

/-- A queue goes by the number of its subscription. -/
structure EventBus where
  channels : Str → List Nat
  subscriptions : List Subscription

/-- Each runs without an await; `get` is when the wait for a queue ends. -/
inductive BusInput where
  | publish (e : SSEEvent)
  | createSubscription (eventTypes : List Str)
  | cleanup (q : Nat)
  | get (q : Nat)

namespace EventBus

def initial : EventBus := ⟨fun _ => [], []⟩

variable (s : EventBus)

def publish (e : SSEEvent) : EventBus :=
  { s with
    subscriptions := (s.channels e.event).foldl
      (fun subs q => subs.modify q fun sub => sub.putNowait e) s.subscriptions }

def createSubscription (eventTypes : List Str) : EventBus :=
  let sub := Subscription.fresh eventTypes
  { channels := fun et =>
      if sub.registeredEventTypes.contains et then s.channels et ++ [s.subscriptions.length]
      else s.channels et
    subscriptions := s.subscriptions ++ [sub] }

def cleanup (q : Nat) : EventBus :=
  match s.subscriptions[q]? with
  | none => s
  | some sub =>
    if sub.cleaned then s
    else
      { channels := fun et =>
          if sub.registeredEventTypes.contains et then (s.channels et).erase q else s.channels et
        subscriptions := s.subscriptions.modify q fun sub => { sub with cleaned := true } }

def step (s : EventBus) : BusInput → EventBus
  | .publish e => s.publish e
  | .createSubscription eventTypes => s.createSubscription eventTypes
  | .cleanup q => s.cleanup q
  | .get q => { s with subscriptions := s.subscriptions.modify q Subscription.get }

def subscriberCount (eventType : Str) : Nat := (s.channels eventType).length

/-- A queue is in the channels of its event types, once in each, until it is cleaned up. -/
structure Registered (s : EventBus) : Prop where
  mem : ∀ et q, q ∈ s.channels et ↔ ∃ sub, s.subscriptions[q]? = some sub ∧ sub.listens et = true
  nodup : ∀ et, (s.channels et).Nodup

end EventBus

/-! One subscription by itself. -/

namespace Subscription

/-- What an input of the bus does to the subscription with number `q`. -/
def react (q : Nat) (sub : Subscription) : BusInput → Subscription
  | .publish e => if sub.listens e.event then sub.putNowait e else sub
  | .createSubscription _ => sub
  | .cleanup q' => if q' = q then { sub with cleaned := true } else sub
  | .get q' => if q' = q then sub.get else sub

variable (sub : Subscription)

@[simp] theorem listens_putNowait (e : SSEEvent) (et : Str) :
    (sub.putNowait e).listens et = sub.listens et := by
  rw [putNowait]
  split <;> rfl

@[simp] theorem listens_get (et : Str) : sub.get.listens et = sub.listens et := by
  rw [get]
  split <;> rfl

end Subscription

namespace EventBus

variable {s : EventBus}

theorem getElem?_foldl_modify {α : Type} (f : α → α) {is : List Nat} (h : is.Nodup) (l : List α)
    (j : Nat) :
    (is.foldl (fun l i => l.modify i f) l)[j]? = if j ∈ is then (l[j]?).map f else l[j]? := by
  induction is generalizing l with
  | nil => simp
  | cons i is ih =>
    rw [List.nodup_cons] at h
    rw [List.foldl_cons, ih h.2, List.getElem?_modify]
    by_cases hij : i = j
    · subst hij
      simp [h.1]
    · simp [hij, Ne.symm hij]

theorem getElem?_cleanup (s : EventBus) (q q' : Nat) :
    (s.cleanup q').subscriptions[q]? =
      (s.subscriptions[q]?).map fun sub => if q' = q then { sub with cleaned := true } else sub := by
  rw [cleanup]
  by_cases hq : q' = q
  · subst hq
    cases hsub : s.subscriptions[q']? with
    | none => simp [hsub]
    | some sub =>
      dsimp only
      split
      · next hcleaned =>
        obtain ⟨types, cleaned, queue, taken⟩ := sub
        obtain rfl : cleaned = true := hcleaned
        simp [hsub]
      · simp [hsub]
  · cases s.subscriptions[q']? with
    | none => simp [hq]
    | some sub =>
      dsimp only
      split
      · simp
      · simp [hq]

/-- The bus is its subscriptions side by side. -/
theorem getElem?_step (h : s.Registered) (i : BusInput) {q : Nat}
    (hq : q < s.subscriptions.length) :
    (s.step i).subscriptions[q]? = (s.subscriptions[q]?).map fun sub => sub.react q i := by
  cases i with
  | publish e =>
    rw [step, publish, getElem?_foldl_modify _ (h.nodup e.event)]
    have hmem := h.mem e.event q
    obtain ⟨sub, hsub⟩ : ∃ sub, s.subscriptions[q]? = some sub :=
      ⟨_, List.getElem?_eq_getElem hq⟩
    rw [hsub] at hmem
    simp only [Option.some.injEq, exists_eq_left'] at hmem
    rw [hsub]
    simp only [Option.map_some, Subscription.react, hmem]
    split <;> rfl
  | createSubscription eventTypes =>
    rw [step, createSubscription, List.getElem?_append_left hq]
    cases s.subscriptions[q]? <;> rfl
  | cleanup q' => exact getElem?_cleanup s q q'
  | get q' =>
    rw [step]
    by_cases hqq : q' = q
    · subst hqq
      simp [Subscription.react]
    · simp [Subscription.react, hqq]

theorem registered_initial : initial.Registered := by
  constructor
  · intro et q
    exact iff_of_false List.not_mem_nil fun ⟨sub, hsub, _⟩ => by cases hsub
  · exact fun et => List.nodup_nil

theorem listens_fresh (eventTypes : List Str) (et : Str) :
    (Subscription.fresh eventTypes).listens et =
      (Subscription.fresh eventTypes).registeredEventTypes.contains et := Bool.and_true _

theorem registered_create (h : s.Registered) (eventTypes : List Str) :
    (s.createSubscription eventTypes).Registered := by
  have hold : ∀ et, s.subscriptions.length ∉ s.channels et := by
    intro et hmem
    obtain ⟨sub, hsub, -⟩ := (h.mem et _).mp hmem
    exact absurd (List.getElem?_eq_some_iff.mp hsub).1 (Nat.lt_irrefl _)
  constructor
  · intro et q
    rw [createSubscription]
    dsimp only
    rw [← listens_fresh, List.getElem?_append]
    by_cases hq : q < s.subscriptions.length
    · rw [if_pos hq, ← h.mem et q]
      split
      · rw [List.mem_append, List.mem_singleton]
        exact or_iff_left (Nat.ne_of_lt hq)
      · rfl
    · rw [if_neg hq]
      have hnot : q ∉ s.channels et := by
        intro hmem
        obtain ⟨sub, hsub, -⟩ := (h.mem et q).mp hmem
        exact hq (List.getElem?_eq_some_iff.mp hsub).1
      obtain heq | hne := Nat.eq_or_lt_of_le (Nat.le_of_not_lt hq)
      · subst heq
        simp only [Nat.sub_self, List.getElem?_cons_zero, Option.some.injEq, exists_eq_left']
        split
        · next hl => simp [hl]
        · next hl => exact iff_of_false (hold et) hl
      · have hsub : [Subscription.fresh eventTypes][q - s.subscriptions.length]? = none :=
          List.getElem?_eq_none (by rw [List.length_singleton]; omega)
        rw [hsub]
        refine iff_of_false (fun hmem => ?_) fun ⟨_, hnone, _⟩ => by cases hnone
        split at hmem
        · obtain hmem | hmem := List.mem_append.mp hmem
          · exact hnot hmem
          · have := List.mem_singleton.mp hmem
            omega
        · exact hnot hmem
  · intro et
    rw [createSubscription]
    dsimp only
    split
    · refine List.Nodup.append (h.nodup et) (List.nodup_singleton _) ?_
      rw [List.disjoint_singleton]
      exact hold et
    · exact h.nodup et

theorem registered_cleanup (h : s.Registered) (q : Nat) : (s.cleanup q).Registered := by
  cases hsub : s.subscriptions[q]? with
  | none =>
    rw [cleanup, hsub]
    exact h
  | some sub =>
    cases hcleaned : sub.cleaned with
    | true =>
      rw [cleanup, hsub]
      dsimp only
      rw [if_pos hcleaned]
      exact h
    | false =>
      have hchannels : ∀ et, (s.cleanup q).channels et =
          if sub.registeredEventTypes.contains et then (s.channels et).erase q
          else s.channels et := by
        intro et
        rw [cleanup, hsub]
        dsimp only
        rw [if_neg (by simp [hcleaned])]
      constructor
      · intro et q'
        rw [hchannels, getElem?_cleanup]
        by_cases hqq : q = q'
        · subst hqq
          rw [hsub]
          refine iff_of_false (fun hmem => ?_) ?_
          · split at hmem
            · exact List.Nodup.not_mem_erase (h.nodup et) hmem
            · next hnot =>
              obtain ⟨sub', hsub', hl⟩ := (h.mem et q).mp hmem
              obtain rfl := Option.some.inj (hsub.symm.trans hsub')
              rw [Subscription.listens, Bool.and_eq_true] at hl
              exact hnot hl.1
          · rintro ⟨sub', hsub', hl⟩
            simp only [Option.map_some, if_true, Option.some.injEq] at hsub'
            subst hsub'
            simp [Subscription.listens] at hl
        · simp only [hqq, if_false, Option.map_id']
          rw [← h.mem et q']
          split
          · exact List.mem_erase_of_ne (Ne.symm hqq)
          · rfl
      · intro et
        rw [hchannels]
        split
        · exact (h.nodup et).erase q
        · exact h.nodup et

theorem length_publish (s : EventBus) (e : SSEEvent) :
    (s.publish e).subscriptions.length = s.subscriptions.length := by
  rw [publish]
  generalize s.channels e.event = qs
  dsimp only
  generalize s.subscriptions = subs
  induction qs generalizing subs with
  | nil => rfl
  | cons q qs ih => rw [List.foldl_cons, ih, List.length_modify]

theorem length_cleanup (s : EventBus) (q : Nat) :
    (s.cleanup q).subscriptions.length = s.subscriptions.length := by
  rw [cleanup]
  split
  · rfl
  · split
    · rfl
    · exact List.length_modify ..

/-- A step that adds no subscription and moves each so that it listens to the same. -/
theorem registered_of_react (h : s.Registered) (i : BusInput)
    (hchannels : (s.step i).channels = s.channels)
    (hlen : (s.step i).subscriptions.length = s.subscriptions.length)
    (hreact : ∀ q (sub : Subscription) et, (sub.react q i).listens et = sub.listens et) :
    (s.step i).Registered := by
  constructor
  · intro et q
    rw [hchannels, h.mem]
    by_cases hq : q < s.subscriptions.length
    · rw [getElem?_step h i hq]
      cases s.subscriptions[q]? with
      | none => rfl
      | some sub => simp [hreact]
    · rw [List.getElem?_eq_none (Nat.le_of_not_lt hq),
        List.getElem?_eq_none (hlen ▸ Nat.le_of_not_lt hq)]
  · rw [hchannels]
    exact h.nodup

theorem registered_step (h : s.Registered) (i : BusInput) : (s.step i).Registered := by
  cases i with
  | publish e =>
    apply registered_of_react h (.publish e) rfl (length_publish s e)
    intro q sub et
    rw [Subscription.react]
    split
    · exact sub.listens_putNowait e et
    · rfl
  | createSubscription eventTypes => exact registered_create h eventTypes
  | cleanup q => exact registered_cleanup h q
  | get q =>
    apply registered_of_react h (.get q) rfl (List.length_modify ..)
    intro q' sub et
    rw [Subscription.react]
    split
    · exact sub.listens_get et
    · rfl

theorem registered_exec (h : s.Registered) (is : List BusInput) : (exec step s is).Registered := by
  have hrun : Always step Registered s is := by
    apply Run.always_of_step
    · exact fun s i hs => registered_step hs i
    · exact h
  exact hrun.exec

theorem getElem?_exec (h : s.Registered) {q : Nat} {sub : Subscription}
    (hsub : s.subscriptions[q]? = some sub) (is : List BusInput) :
    (exec step s is).subscriptions[q]? = some (exec (Subscription.react q) sub is) := by
  induction is generalizing s sub with
  | nil => exact hsub
  | cons i is ih =>
    apply ih (registered_step h i)
    rw [getElem?_step h i (List.getElem?_eq_some_iff.mp hsub).1, hsub]
    rfl

theorem getElem?_create (s : EventBus) (eventTypes : List Str) :
    (s.step (.createSubscription eventTypes)).subscriptions[s.subscriptions.length]? =
      some (.fresh eventTypes) :=
  List.getElem?_concat_length ..

theorem subscriberCount_eq (h : s.Registered) (et : Str) :
    s.subscriberCount et = s.subscriptions.countP fun sub => sub.listens et := by
  have hperm : (s.channels et).Perm ((List.range s.subscriptions.length).filter fun q =>
      (s.subscriptions[q]?).any fun sub => sub.listens et) := by
    rw [List.perm_ext_iff_of_nodup (h.nodup et) (List.nodup_range.filter _)]
    intro q
    rw [h.mem, List.mem_filter, List.mem_range, Option.any_eq_true]
    exact ⟨fun hq => ⟨(List.getElem?_eq_some_iff.mp hq.choose_spec.1).1, hq⟩, fun hq => hq.2⟩
  rw [subscriberCount, hperm.length_eq, ← List.countP_eq_length_filter]
  generalize s.subscriptions = subs
  induction subs using List.reverseRecOn with
  | nil => rfl
  | append_singleton subs sub ih =>
    rw [List.length_append, List.length_singleton, List.range_succ, List.countP_append,
      List.countP_append, List.countP_singleton, List.countP_singleton, ← ih]
    congr 1
    · apply List.countP_congr
      intro q hq
      rw [List.getElem?_append_left (List.mem_range.mp hq)]
    · simp

end EventBus

/-! What a subscription gets. -/

namespace Subscription

def received (sub : Subscription) : List SSEEvent := sub.taken ++ sub.queue

/-- The events that are published under the types of subscription `q` before it is cleaned up. -/
def offered (q : Nat) (eventTypes : List Str) : List BusInput → List SSEEvent
  | [] => []
  | .publish e :: is =>
    if eventTypes.contains e.event then e :: offered q eventTypes is else offered q eventTypes is
  | .cleanup q' :: is => if q' = q then [] else offered q eventTypes is
  | .createSubscription _ :: is | .get _ :: is => offered q eventTypes is

/-- What is published for it does not find its queue full. -/
def Room (sub : Subscription) (i : BusInput) : Prop :=
  ∀ e, i = .publish e → sub.listens e.event = true → sub.queue.length < QUEUE_MAXSIZE

variable {sub : Subscription}

theorem received_get (sub : Subscription) : sub.get.received = sub.received := by
  rw [get]
  split
  · rfl
  · next e queue hqueue =>
    rw [received, received, hqueue, List.append_assoc]
    rfl

theorem registered_get (sub : Subscription) :
    sub.get.registeredEventTypes = sub.registeredEventTypes ∧ sub.get.cleaned = sub.cleaned := by
  rw [get]
  split <;> exact ⟨rfl, rfl⟩

theorem registered_putNowait (sub : Subscription) (e : SSEEvent) :
    (sub.putNowait e).registeredEventTypes = sub.registeredEventTypes ∧
      (sub.putNowait e).cleaned = sub.cleaned := by
  rw [putNowait]
  split <;> exact ⟨rfl, rfl⟩

theorem not_listens (h : sub.cleaned = true) (et : Str) : sub.listens et = false := by
  rw [listens, h]
  exact Bool.and_false _

theorem listens_of_open (h : sub.cleaned = false) (et : Str) :
    sub.listens et = sub.registeredEventTypes.contains et := by
  rw [listens, h]
  exact Bool.and_true _

/-- After the cleanup nothing more comes in. -/
theorem received_of_cleaned (q : Nat) (h : sub.cleaned = true) (is : List BusInput) :
    (exec (react q) sub is).received = sub.received ∧ Meets (react q) Room sub is := by
  induction is generalizing sub with
  | nil => exact ⟨rfl, trivial⟩
  | cons i is ih =>
    have hroom : Room sub i := by
      intro e _ hl
      rw [not_listens h] at hl
      cases hl
    have hstep : (sub.react q i).cleaned = true ∧ (sub.react q i).received = sub.received := by
      cases i with
      | publish e =>
        rw [react, not_listens h]
        exact ⟨h, rfl⟩
      | createSubscription eventTypes => exact ⟨h, rfl⟩
      | cleanup q' =>
        rw [react]
        split
        · exact ⟨rfl, rfl⟩
        · exact ⟨h, rfl⟩
      | get q' =>
        rw [react]
        split
        · exact ⟨(registered_get sub).2.trans h, received_get sub⟩
        · exact ⟨h, rfl⟩
    obtain ⟨hrest, hmeets⟩ := ih hstep.1
    exact ⟨hrest.trans hstep.2, hroom, hmeets⟩

theorem open_fresh (eventTypes : List Str) : (fresh eventTypes).cleaned = false := rfl

/-- What comes in is what is offered, in order, less what finds the queue full. -/
theorem received_exec (q : Nat) (h : sub.cleaned = false) (is : List BusInput) :
    ∃ kept, (exec (react q) sub is).received = sub.received ++ kept ∧
      kept.Sublist (offered q sub.registeredEventTypes is) ∧
      (kept = offered q sub.registeredEventTypes is ↔ Meets (react q) Room sub is) := by
  induction is generalizing sub with
  | nil => exact ⟨[], (List.append_nil _).symm, .slnil, iff_of_true rfl trivial⟩
  | cons i is ih =>
    -- A step that takes nothing in, of a subscription that stays open.
    have hsame (hcleaned : (sub.react q i).cleaned = false)
        (htypes : (sub.react q i).registeredEventTypes = sub.registeredEventTypes)
        (hreceived : (sub.react q i).received = sub.received)
        (hoffered : offered q sub.registeredEventTypes (i :: is) =
          offered q sub.registeredEventTypes is) (hroom : Room sub i) :
        ∃ kept, (exec (react q) sub (i :: is)).received = sub.received ++ kept ∧
          kept.Sublist (offered q sub.registeredEventTypes (i :: is)) ∧
          (kept = offered q sub.registeredEventTypes (i :: is) ↔
            Meets (react q) Room sub (i :: is)) := by
      obtain ⟨kept, hkept, hsub, hiff⟩ := ih hcleaned
      rw [htypes] at hsub hiff
      rw [hreceived] at hkept
      refine ⟨kept, hkept, hoffered ▸ hsub, ?_⟩
      rw [hoffered, hiff]
      exact ⟨fun hm => ⟨hroom, hm⟩, fun hm => hm.2⟩
    cases i with
    | createSubscription eventTypes =>
      exact hsame h rfl rfl rfl fun e he => by cases he
    | get q' =>
      have hroom : Room sub (.get q') := fun e he => by cases he
      by_cases hq : q' = q
      · have hreact : sub.react q (.get q') = sub.get := if_pos hq
        apply hsame
        · rw [hreact, (registered_get sub).2, h]
        · rw [hreact, (registered_get sub).1]
        · rw [hreact, received_get]
        · rfl
        · exact hroom
      · have hreact : sub.react q (.get q') = sub := if_neg hq
        exact hsame (by rw [hreact, h]) (by rw [hreact]) (by rw [hreact]) rfl hroom
    | cleanup q' =>
      have hroom : Room sub (.cleanup q') := fun e he => by cases he
      by_cases hq : q' = q
      · have hreact : sub.react q (.cleanup q') = { sub with cleaned := true } := if_pos hq
        have hoffered : offered q sub.registeredEventTypes (.cleanup q' :: is) = [] := if_pos hq
        obtain ⟨hrest, hmeets⟩ :=
          received_of_cleaned q (show ({ sub with cleaned := true } : Subscription).cleaned = true
            from rfl) is
        refine ⟨[], ?_, List.nil_sublist _, iff_of_true hoffered.symm ⟨hroom, ?_⟩⟩
        · rw [exec, hreact, hrest, List.append_nil]
          rfl
        · rw [hreact]
          exact hmeets
      · have hreact : sub.react q (.cleanup q') = sub := if_neg hq
        exact hsame (by rw [hreact, h]) (by rw [hreact]) (by rw [hreact]) (if_neg hq) hroom
    | publish e =>
      cases hl : sub.registeredEventTypes.contains e.event with
      | false =>
        have hlistens : sub.listens e.event = false := (listens_of_open h _).trans hl
        have hreact : sub.react q (.publish e) = sub := by
          rw [react, hlistens]
          rfl
        refine hsame (by rw [hreact, h]) (by rw [hreact]) (by rw [hreact]) ?_ ?_
        · rw [offered, hl]
          rfl
        · intro e' he hl'
          obtain rfl := BusInput.publish.inj he
          rw [hlistens] at hl'
          cases hl'
      | true =>
        have hlistens : sub.listens e.event = true := (listens_of_open h _).trans hl
        have hreact : sub.react q (.publish e) = sub.putNowait e := if_pos hlistens
        have hoffered : offered q sub.registeredEventTypes (.publish e :: is) =
            e :: offered q sub.registeredEventTypes is := if_pos hl
        obtain ⟨htypes, hcleaned⟩ := registered_putNowait sub e
        obtain ⟨kept, hkept, hsub, hiff⟩ := ih (hcleaned.trans h)
        rw [htypes] at hsub hiff
        rw [hoffered, exec, Meets, hreact, ← hiff]
        by_cases hroom : sub.queue.length < QUEUE_MAXSIZE
        · have hput : (sub.putNowait e).received = sub.received ++ [e] := by
            rw [putNowait, if_pos hroom, received, received, List.append_assoc]
          refine ⟨e :: kept, ?_, hsub.cons_cons e, ?_⟩
          · rw [hkept, hput, List.append_assoc]
            rfl
          · rw [List.cons.injEq]
            exact and_congr_left fun _ => iff_of_true rfl fun _ _ _ => hroom
        · have hput : sub.putNowait e = sub := if_neg hroom
          rw [hput] at hkept ⊢
          refine ⟨kept, hkept, hsub.cons e, iff_of_false ?_ ?_⟩
          · rintro rfl
            exact absurd hsub.length_le (Nat.not_succ_le_self _)
          · rintro ⟨hr, -⟩
            exact hroom (hr e rfl hlistens)

theorem offered_congr {types types' : List Str} (h : ∀ et, types.contains et = types'.contains et)
    (q : Nat) (is : List BusInput) : offered q types is = offered q types' is := by
  induction is with
  | nil => rfl
  | cons i is ih =>
    cases i with
    | publish e => rw [offered, offered, h, ih]
    | createSubscription eventTypes => exact ih
    | cleanup q' => rw [offered, offered, ih]
    | get q' => exact ih

theorem contains_eraseDups (types : List Str) (et : Str) :
    types.eraseDups.contains et = types.contains et := by
  rw [Bool.eq_iff_iff, List.contains_iff_mem, List.contains_iff_mem, List.mem_eraseDups]

end Subscription

open Subscription (fresh react received offered Room)

/-- Whatever the other subscriptions, readers and publishers do: a subscription goes through the
inputs as it would if it were alone, and an event type counts the subscriptions to it that have
not been cleaned up. -/
theorem EventBus.subscription_alone (before : List BusInput) (eventTypes : List Str)
    (is : List BusInput) :
    let q := (exec step initial before).subscriptions.length
    let s := exec step initial (before ++ .createSubscription eventTypes :: is)
    s.subscriptions[q]? = some (exec (react q) (fresh eventTypes) is) ∧
      ∀ et, s.subscriberCount et = s.subscriptions.countP fun sub => sub.listens et := by
  have hbefore := registered_exec registered_initial before
  constructor
  · rw [Run.exec_append, exec]
    exact getElem?_exec (registered_step hbefore _) (getElem?_create _ eventTypes) is
  · exact subscriberCount_eq (registered_exec registered_initial _)

/-- A subscription gets what is published under its types from its creation to its cleanup, each
event once and in order, and all of it exactly if none finds a hundred others in the queue. -/
theorem EventBus.received_iff (before : List BusInput) (eventTypes : List Str)
    (is : List BusInput) :
    let q := (exec step initial before).subscriptions.length
    let s := exec step initial (before ++ .createSubscription eventTypes :: is)
    ∃ sub, s.subscriptions[q]? = some sub ∧ sub.received.Sublist (offered q eventTypes is) ∧
      (sub.received = offered q eventTypes is ↔ Meets (react q) Room (fresh eventTypes) is) := by
  have hbefore := registered_exec registered_initial before
  have hget := getElem?_exec (registered_step hbefore (.createSubscription eventTypes))
    (getElem?_create _ eventTypes) is
  obtain ⟨kept, hkept, hsub, hiff⟩ := Subscription.received_exec
    (exec step initial before).subscriptions.length (Subscription.open_fresh eventTypes) is
  have hkept : (exec (react (exec step initial before).subscriptions.length) (fresh eventTypes)
      is).received = kept := hkept
  have htypes := Subscription.offered_congr (Subscription.contains_eraseDups eventTypes)
    (exec step initial before).subscriptions.length is
  have hsub : kept.Sublist (offered _ eventTypes is) := htypes ▸ hsub
  refine ⟨_, ?_, hkept ▸ hsub, ?_⟩
  · rw [Run.exec_append, exec]
    exact hget
  · rw [hkept, ← hiff, ← htypes]
    rfl

end Eyot.Deploy
