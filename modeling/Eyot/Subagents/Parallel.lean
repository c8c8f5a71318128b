import Eyot.Library.Run
import Eyot.Subagents.Chain
import Mathlib.Data.List.Perm.Basic
import Mathlib.Data.List.Range

/-! The tasks of a subagent call that run side by side: a few workers draw them from one counter,
and their calls come back in whatever order. -/

universe u v w

namespace Eyot.Subagents

open Run (exec Always)

variable {α : Type u} {β : Type v} {ε : Type w}

inductive Worker (ε : Type w) where
  | calling (current : Nat)
  | returned
  | rejected (current : Nat) (err : ε)

namespace Worker

def isCalling : Worker ε → Bool
  | calling _ => true
  | _ => false

def isRejected : Worker ε → Bool
  | rejected .. => true
  | _ => false

def isReturned : Worker ε → Bool
  | returned => true
  | _ => false

/-- The item it has drawn last, unless that was none. -/
def held : Worker ε → Option Nat
  | calling current | rejected current _ => some current
  | returned => none

end Worker

/-- `calls` has the items in the order they are handed to `fn`, and `resolved` in the order the
calls are resolved. -/
structure Mapping (β : Type v) (ε : Type w) where
  nextIndex : Nat
  workers : List (Worker ε)
  results : List (Option β)
  rejection : Option ε
  calls : List Nat
  resolved : List Nat

/-- What `Promise.all` is at. -/
inductive Outcome (β : Type v) (ε : Type w) where
  | pending
  | fulfilled (results : List (Option β))
  | rejected (err : ε)

namespace Mapping

section

variable (items : List α) (concurrency : Nat)

def limit : Nat := max 1 (min concurrency items.length)

/-- One round of the loop up to the `await`. -/
def draw (s : Mapping β ε) : Mapping β ε × Worker ε :=
  let current := s.nextIndex
  let s := { s with nextIndex := current + 1 }
  if current < items.length then ({ s with calls := s.calls ++ [current] }, .calling current)
  else (s, .returned)

def spawn (s : Mapping β ε) : Mapping β ε :=
  let drawn := s.draw items
  { drawn.1 with workers := drawn.1.workers ++ [drawn.2] }

def empty : Mapping β ε where
  nextIndex := 0
  workers := []
  results := List.replicate items.length none
  rejection := none
  calls := []
  resolved := []

def start : Mapping β ε :=
  if items.length = 0 then empty items
  else (List.range (limit items concurrency)).foldl (fun s _ => s.spawn items) (empty items)

/-- A call that worker `w` has waited for is resolved. -/
def resolve (s : Mapping β ε) (w current : Nat) (value : β) : Mapping β ε :=
  let s := { s with
    results := s.results.set current (some value)
    resolved := s.resolved ++ [current] }
  let drawn := s.draw items
  { drawn.1 with workers := drawn.1.workers.set w drawn.2 }

def reject (s : Mapping β ε) (w current : Nat) (err : ε) : Mapping β ε :=
  { s with
    workers := s.workers.set w (.rejected current err)
    rejection := s.rejection <|> some err }

/-- The call that a worker waits for comes back. -/
def settle (fn : α → Nat → Except ε β) (s : Mapping β ε) (w : Nat) : Mapping β ε :=
  match s.workers[w]? with
  | some (.calling current) =>
    match (items[current]?).map fun item => fn item current with
    | some (.ok value) => s.resolve items w current value
    | some (.error err) => s.reject w current err
    | none => s
  | _ => s

end

variable (s : Mapping β ε)

def outcome : Outcome β ε :=
  match s.rejection with
  | some err => .rejected err
  | none => if s.workers.all Worker.isReturned then .fulfilled s.results else .pending

def inFlight : Nat := s.workers.countP Worker.isCalling

def failed : Nat := s.workers.countP Worker.isRejected

def held : List Nat := s.workers.filterMap Worker.held

theorem length_held : s.held.length = s.inFlight + s.failed := by
  rw [held, inFlight, failed]
  induction s.workers with
  | nil => rfl
  | cons worker workers ih =>
    rw [List.countP_cons, List.countP_cons]
    cases worker with
    | returned => exact ih
    | calling current | rejected current err =>
      simp only [List.filterMap_cons, Worker.held, List.length_cons, ih, Worker.isCalling,
        Worker.isRejected, if_true, if_false, Bool.false_eq_true]
      omega

/-! The invariant. -/

variable (items : List α) (concurrency : Nat) (fn : α → Nat → Except ε β)

def answer? (i : Nat) : Option (Except ε β) := (items[i]?).map fun item => fn item i

def value? (i : Nat) : Option β := (answer? items fn i).bind Except.toOption

/-- The items that have been drawn are the first ones, in order; each is with a worker or has
its result. -/
structure Sound (n : Nat) (s : Mapping β ε) : Prop where
  workers : s.workers.length = n
  nextIndex : s.nextIndex = n + s.resolved.length
  calls : s.calls = List.range (min s.nextIndex items.length)
  drawn : (s.held ++ s.resolved).Perm s.calls
  results : s.results =
    (List.range items.length).map fun i => if i ∈ s.resolved then value? items fn i else none
  values : ∀ i ∈ s.resolved, ∃ v, answer? items fn i = some (.ok v)
  rejected : ∀ i err, .rejected i err ∈ s.workers → answer? items fn i = some (.error err)
  rejection : ∀ err, s.rejection = some err → ∃ i, .rejected i err ∈ s.workers
  noticed : ∀ i err, .rejected i err ∈ s.workers → s.rejection.isSome

variable {items fn s}

theorem perm_filterMap_set {γ δ : Type _} (f : γ → Option δ) {l : List γ} {i : Nat} {a : γ}
    (b : γ) (h : l[i]? = some a) :
    ((l.set i b).filterMap f ++ (f a).toList).Perm (l.filterMap f ++ (f b).toList) := by
  induction l generalizing i with
  | nil => cases h
  | cons c l ih =>
    cases i with
    | zero =>
      obtain rfl := Option.some.inj h
      have hcons (x : γ) : (x :: l).filterMap f = (f x).toList ++ l.filterMap f := by
        rw [List.filterMap_cons]
        cases f x <;> rfl
      rw [List.set_cons_zero, hcons, hcons]
      refine List.perm_append_comm.trans ?_
      rw [List.append_assoc]
      exact List.perm_append_comm.append_left _
    | succ i =>
      have hperm := ih h
      rw [List.set_cons_succ, List.filterMap_cons, List.filterMap_cons]
      cases f c with
      | none => exact hperm
      | some d => exact hperm.cons d

/-- What a draw makes of the counter, the calls and the worker. -/
theorem draw_spec (s : Mapping β ε) (items : List α)
    (h : s.calls = List.range (min s.nextIndex items.length)) :
    (s.draw items).1.nextIndex = s.nextIndex + 1 ∧
    (s.draw items).1.calls = s.calls ++ (s.draw items).2.held.toList ∧
    (s.draw items).1.calls = List.range (min (s.nextIndex + 1) items.length) ∧
    ∀ i err, (s.draw items).2 ≠ .rejected i err := by
  rw [draw]
  dsimp only
  split
  · next hlt =>
    refine ⟨rfl, rfl, ?_, fun i err h => by cases h⟩
    rw [h, Nat.min_eq_left (Nat.le_of_lt hlt), Nat.min_eq_left hlt, List.range_succ]
  · next hge =>
    have hge := Nat.le_of_not_lt hge
    refine ⟨rfl, (List.append_nil _).symm, ?_, fun i err h => by cases h⟩
    rw [h, Nat.min_eq_right hge, Nat.min_eq_right (Nat.le_succ_of_le hge)]

theorem draw_rest (s : Mapping β ε) (items : List α) :
    (s.draw items).1.workers = s.workers ∧ (s.draw items).1.results = s.results ∧
    (s.draw items).1.resolved = s.resolved ∧ (s.draw items).1.rejection = s.rejection := by
  rw [draw]
  dsimp only
  split <;> exact ⟨rfl, rfl, rfl, rfl⟩

theorem sound_empty : (empty items : Mapping β ε).Sound items fn 0 := by
  constructor
  · rfl
  · rfl
  · rw [empty, Nat.zero_min]
    rfl
  · exact .refl []
  · rw [empty]
    simp
  · exact fun i hi => absurd hi List.not_mem_nil
  · exact fun i err h => absurd h List.not_mem_nil
  · exact fun err h => by cases h
  · exact fun i err h => absurd h List.not_mem_nil

theorem sound_spawn {n : Nat} (h : s.Sound items fn n) (hnone : s.resolved = []) :
    (s.spawn items).Sound items fn (n + 1) ∧ (s.spawn items).resolved = [] := by
  obtain ⟨hnext, hcalls, hrange, hworker⟩ := draw_spec s items h.calls
  obtain ⟨hworkers, hresults, hresolved, hrejection⟩ := draw_rest s items
  have hworkers' : (s.spawn items).workers = s.workers ++ [(s.draw items).2] := by
    rw [spawn, hworkers]
  have hcalls' : (s.spawn items).calls = s.calls ++ (s.draw items).2.held.toList := hcalls
  have hresolved' : (s.spawn items).resolved = s.resolved := hresolved
  have hdrawn := h.drawn
  refine ⟨⟨?_, ?_, ?_, ?_, ?_, ?_, ?_, ?_, ?_⟩, hresolved.trans hnone⟩
  · rw [hworkers', List.length_append, h.workers, List.length_singleton]
  · have hnext : (s.spawn items).nextIndex = s.nextIndex + 1 := hnext
    rw [hnext, hresolved', h.nextIndex]
    omega
  · rw [spawn, hrange, hnext]
  · rw [hnone, List.append_nil] at hdrawn
    rw [held, hworkers', hcalls', hresolved', hnone, List.append_nil, List.filterMap_append]
    refine hdrawn.append ?_
    rw [List.filterMap_cons]
    cases (s.draw items).2.held <;> exact .refl _
  · rw [hresolved']
    exact hresults.trans h.results
  · rw [hresolved']
    exact h.values
  · intro i err hmem
    rw [hworkers'] at hmem
    obtain hmem | hmem := List.mem_append.mp hmem
    · exact h.rejected i err hmem
    · exact absurd (List.mem_singleton.mp hmem).symm (hworker i err)
  · intro err herr
    obtain ⟨i, hi⟩ := h.rejection err (hrejection.symm.trans herr)
    rw [hworkers']
    exact ⟨i, List.mem_append_left _ hi⟩
  · intro i err hmem
    rw [hworkers'] at hmem
    have hrejection' : (s.spawn items).rejection = s.rejection := hrejection
    rw [hrejection']
    obtain hmem | hmem := List.mem_append.mp hmem
    · exact h.noticed i err hmem
    · exact absurd (List.mem_singleton.mp hmem).symm (hworker i err)

theorem sound_spawns (items : List α) (fn : α → Nat → Except ε β) (n : Nat) :
    let s := (List.range n).foldl (fun s _ => s.spawn items) (empty items : Mapping β ε)
    s.Sound items fn n ∧ s.resolved = [] := by
  induction n with
  | zero => exact ⟨sound_empty, rfl⟩
  | succ n ih =>
    rw [List.range_succ, List.foldl_append]
    exact sound_spawn ih.1 ih.2

theorem sound_start (items : List α) (concurrency : Nat) (fn : α → Nat → Except ε β) :
    (start items concurrency : Mapping β ε).Sound items fn
      (if items.length = 0 then 0 else limit items concurrency) := by
  rw [start]
  split
  · exact sound_empty
  · exact (sound_spawns items fn _).1

theorem resolved_start (items : List α) (concurrency : Nat) (fn : α → Nat → Except ε β) :
    (start items concurrency : Mapping β ε).resolved = [] := by
  rw [start]
  split
  · rfl
  · exact (sound_spawns items fn _).2

theorem mem_held_of_calling {w current : Nat} (hw : s.workers[w]? = some (.calling current)) :
    current ∈ s.held :=
  List.mem_filterMap.mpr ⟨_, List.mem_of_getElem? hw, rfl⟩

theorem mem_set_of_ne {γ : Type _} {l : List γ} {i : Nat} {a b c : γ} (h : l[i]? = some a)
    (hc : c ∈ l) (hne : c ≠ a) : c ∈ l.set i b := by
  obtain ⟨j, hj⟩ := List.getElem?_of_mem hc
  have hij : i ≠ j := by
    rintro rfl
    exact hne (Option.some.inj (hj.symm.trans h))
  refine List.mem_of_getElem? (i := j) ?_
  rw [List.getElem?_set_ne hij, hj]

theorem resolved_resolve (items : List α) (s : Mapping β ε) (w current : Nat) (value : β) :
    (s.resolve items w current value).resolved = s.resolved ++ [current] :=
  (draw_rest { s with
    results := s.results.set current (some value)
    resolved := s.resolved ++ [current] } items).2.2.1

theorem sound_resolve {n w current : Nat} {value : β} (h : s.Sound items fn n)
    (hw : s.workers[w]? = some (.calling current))
    (hvalue : answer? items fn current = some (.ok value)) :
    (s.resolve items w current value).Sound items fn n := by
  let s₁ := { s with
    results := s.results.set current (some value)
    resolved := s.resolved ++ [current] }
  obtain ⟨hnext, hcalls, hrange, hworker⟩ := draw_spec s₁ items h.calls
  obtain ⟨hworkers, hresults, hresolved, hrejection⟩ := draw_rest s₁ items
  have hworkers' : (s.resolve items w current value).workers =
      s.workers.set w (s₁.draw items).2 := by
    rw [resolve, hworkers]
  have hresolved' := resolved_resolve items s w current value
  have hset := perm_filterMap_set Worker.held (s₁.draw items).2 hw
  constructor
  · rw [hworkers', List.length_set, h.workers]
  · rw [hresolved', List.length_append, List.length_singleton, ← Nat.add_assoc, ← h.nextIndex]
    exact hnext
  · have hnext' : (s.resolve items w current value).nextIndex = s.nextIndex + 1 := hnext
    rw [hnext']
    exact hrange
  · have hcalls' : (s.resolve items w current value).calls =
        s.calls ++ (s₁.draw items).2.held.toList := hcalls
    rw [held, hworkers', hresolved', hcalls']
    calc (s.workers.set w (s₁.draw items).2).filterMap Worker.held ++ (s.resolved ++ [current])
        |>.Perm ((s.workers.set w (s₁.draw items).2).filterMap Worker.held ++
          ([current] ++ s.resolved)) := List.perm_append_comm.append_left _
      _ = ((s.workers.set w (s₁.draw items).2).filterMap Worker.held ++ [current]) ++
          s.resolved := (List.append_assoc _ _ _).symm
      List.Perm _ ((s.held ++ (s₁.draw items).2.held.toList) ++ s.resolved) :=
        hset.append_right _
      _ = s.held ++ ((s₁.draw items).2.held.toList ++ s.resolved) := List.append_assoc _ _ _
      List.Perm _ (s.held ++ (s.resolved ++ (s₁.draw items).2.held.toList)) :=
        List.perm_append_comm.append_left _
      _ = (s.held ++ s.resolved) ++ (s₁.draw items).2.held.toList :=
        (List.append_assoc _ _ _).symm
      List.Perm _ (s.calls ++ (s₁.draw items).2.held.toList) := h.drawn.append_right _
  · rw [hresolved']
    refine hresults.trans ?_
    change s.results.set current (some value) = _
    rw [h.results]
    apply List.ext_getElem?
    intro i
    rw [List.getElem?_set, List.getElem?_map, List.getElem?_map]
    have hv : value? items fn current = some value := by rw [value?, hvalue]; rfl
    by_cases hi : i < items.length
    · rw [List.getElem?_range hi, Option.map_some, Option.map_some, List.length_map,
        List.length_range]
      by_cases hci : current = i
      · subst hci
        simp [hi, hv]
      · rw [if_neg hci]
        simp [Ne.symm hci]
    · rw [List.getElem?_eq_none (by rw [List.length_range]; exact Nat.le_of_not_lt hi)]
      simp
      omega
  · rw [hresolved']
    intro i hi
    obtain hi | hi := List.mem_append.mp hi
    · exact h.values i hi
    · obtain rfl := List.mem_singleton.mp hi
      exact ⟨value, hvalue⟩
  · intro i err hmem
    rw [hworkers'] at hmem
    obtain hmem | heq := List.mem_or_eq_of_mem_set hmem
    · exact h.rejected i err hmem
    · exact absurd heq.symm (hworker i err)
  · intro err herr
    obtain ⟨i, hi⟩ := h.rejection err (hrejection.symm.trans herr)
    rw [hworkers']
    exact ⟨i, mem_set_of_ne hw hi (by intro h; cases h)⟩
  · intro i err hmem
    rw [hworkers'] at hmem
    have hrejection' : (s.resolve items w current value).rejection = s.rejection := hrejection
    rw [hrejection']
    obtain hmem | heq := List.mem_or_eq_of_mem_set hmem
    · exact h.noticed i err hmem
    · exact absurd heq.symm (hworker i err)

theorem sound_reject {n w current : Nat} {err : ε} (h : s.Sound items fn n)
    (hw : s.workers[w]? = some (.calling current))
    (herr : answer? items fn current = some (.error err)) :
    (s.reject w current err).Sound items fn n := by
  have hdrawn := h.drawn
  have hset := perm_filterMap_set Worker.held (.rejected current err) hw
  constructor
  · rw [reject, List.length_set, h.workers]
  · exact h.nextIndex
  · exact h.calls
  · have hheld : (s.reject w current err).held.Perm s.held :=
      (List.perm_append_right_iff _).mp hset
    exact (hheld.append_right _).trans hdrawn
  · exact h.results
  · exact h.values
  · intro i e hmem
    obtain hmem | heq := List.mem_or_eq_of_mem_set hmem
    · exact h.rejected i e hmem
    · obtain ⟨rfl, rfl⟩ := Worker.rejected.inj heq
      exact herr
  · intro e he
    rw [reject] at he ⊢
    cases hrej : s.rejection with
    | none =>
      rw [hrej] at he
      obtain rfl := Option.some.inj he
      exact ⟨current, List.mem_set (List.getElem?_eq_some_iff.mp hw).1 _⟩
    | some e' =>
      rw [hrej] at he
      obtain rfl := Option.some.inj he
      obtain ⟨i, hi⟩ := h.rejection e' hrej
      exact ⟨i, mem_set_of_ne hw hi (by intro h; cases h)⟩
  · intro i e _
    rw [reject]
    cases s.rejection <;> rfl

theorem sound_settle {n : Nat} (h : s.Sound items fn n) (w : Nat) :
    (settle items fn s w).Sound items fn n := by
  rw [settle]
  split
  · next current hw =>
    split
    · next value hvalue => exact sound_resolve h hw hvalue
    · next err herr => exact sound_reject h hw herr
    · exact h
  · exact h

theorem nodup_resolved {n : Nat} (h : s.Sound items fn n) : s.resolved.Nodup := by
  have hcalls := h.drawn.nodup_iff.mpr (h.calls ▸ List.nodup_range)
  exact (List.nodup_append.mp hcalls).2.1

/-- Workers are idle only when there is nothing left to draw. -/
theorem inFlight_eq {n : Nat} (h : s.Sound items fn n) :
    s.inFlight + s.failed = min n (items.length - s.resolved.length) := by
  have hlen := h.drawn.length_eq
  rw [List.length_append, length_held, h.calls, List.length_range, h.nextIndex] at hlen
  omega

theorem resolved_lt {n : Nat} (h : s.Sound items fn n) {i : Nat} (hi : i ∈ s.resolved) :
    i < items.length := by
  have hmem := h.drawn.subset (List.mem_append_right _ hi)
  rw [h.calls, List.mem_range] at hmem
  omega

theorem returned_of_outcome {rs : List (Option β)} (h : s.outcome = .fulfilled rs) :
    rs = s.results ∧ s.inFlight = 0 ∧ s.failed = 0 := by
  rw [outcome] at h
  split at h
  · cases h
  · split at h
    · next hall =>
      obtain rfl := Outcome.fulfilled.inj h
      rw [List.all_eq_true] at hall
      refine ⟨rfl, ?_, ?_⟩
      · rw [inFlight, List.countP_eq_zero]
        intro worker hw hcalling
        have := hall worker hw
        cases worker <;> simp_all [Worker.isCalling, Worker.isReturned]
      · rw [failed, List.countP_eq_zero]
        intro worker hw hrejected
        have := hall worker hw
        cases worker <;> simp_all [Worker.isRejected, Worker.isReturned]
    · cases h

/-- All items are through when all workers have returned. -/
theorem resolved_of_idle {n : Nat} (h : s.Sound items fn n) (hn : items.length = 0 ∨ 0 < n)
    (hflight : s.inFlight = 0) (hfailed : s.failed = 0) {i : Nat} (hi : i < items.length) :
    i ∈ s.resolved := by
  have hcount := inFlight_eq h
  have hnone : s.held = [] := by
    rw [← List.length_eq_zero_iff, length_held]
    omega
  have hdrawn := h.drawn
  rw [hnone, List.nil_append, h.calls, h.nextIndex] at hdrawn
  refine hdrawn.symm.subset (List.mem_range.mpr ?_)
  have := hdrawn.length_eq
  rw [List.length_range] at this
  omega

theorem inFlight_pos_of_pending {n : Nat} (h : s.Sound items fn n) (hp : s.outcome = .pending) :
    0 < s.inFlight := by
  rw [outcome] at hp
  split at hp
  · cases hp
  · next hnone =>
    split at hp
    · cases hp
    · next hnot =>
      rw [Bool.not_eq_true, List.all_eq_false] at hnot
      obtain ⟨worker, hmem, hworker⟩ := hnot
      rw [inFlight, List.countP_pos_iff]
      cases worker with
      | calling current => exact ⟨_, hmem, rfl⟩
      | returned => exact absurd rfl hworker
      | rejected i err =>
        have := h.noticed i err hmem
        rw [hnone] at this
        cases this

/-- What the caller gets, once it gets anything. -/
def Delivers (items : List α) (fn : α → Nat → Except ε β) (inFlight : Nat) : Outcome β ε → Prop
  | .pending => 0 < inFlight
  | .fulfilled rs => rs.length = items.length ∧
    ∀ i item, items[i]? = some item → ∃ value, fn item i = .ok value ∧ rs[i]? = some (some value)
  | .rejected err => ∃ i item, items[i]? = some item ∧ fn item i = .error err

theorem answer?_eq_some {i : Nat} {answer : Except ε β} :
    answer? items fn i = some answer ↔ ∃ item, items[i]? = some item ∧ fn item i = answer :=
  Option.map_eq_some_iff

theorem delivers {n : Nat} (h : s.Sound items fn n) (hn : items.length = 0 ∨ 0 < n) :
    Delivers items fn s.inFlight s.outcome := by
  cases hout : s.outcome with
  | pending => exact inFlight_pos_of_pending h hout
  | rejected err =>
    have hrej : s.rejection = some err := by
      rw [outcome] at hout
      split at hout
      · next e he =>
        obtain rfl := Outcome.rejected.inj hout
        exact he
      · split at hout <;> cases hout
    obtain ⟨i, hi⟩ := h.rejection err hrej
    exact ⟨i, answer?_eq_some.mp (h.rejected i err hi)⟩
  | fulfilled rs =>
    obtain ⟨rfl, hflight, hfailed⟩ := returned_of_outcome hout
    refine ⟨by rw [h.results, List.length_map, List.length_range], fun i item hitem => ?_⟩
    have hlt := (List.getElem?_eq_some_iff.mp hitem).1
    have hmem := resolved_of_idle h hn hflight hfailed hlt
    obtain ⟨value, hvalue⟩ := h.values i hmem
    obtain ⟨item', hitem', hfn⟩ := answer?_eq_some.mp hvalue
    obtain rfl := Option.some.inj (hitem.symm.trans hitem')
    refine ⟨value, hfn, ?_⟩
    rw [h.results, List.getElem?_map, List.getElem?_range hlt, Option.map_some, if_pos hmem,
      value?, hvalue]
    rfl

end Mapping

open Mapping in
/-- In whatever order the calls come back: the items are handed to `fn` in their order, each once;
as many calls are in flight as there may be, less those that were rejected, as long as there are
items left; and all that the caller gets is every item's own result at the item's place, or the
error of one of them. -/
theorem mapWithConcurrencyLimit_spec (items : List α) (concurrency : Nat)
    (fn : α → Nat → Except ε β) (ws : List Nat) :
    let s := exec (settle items fn) (start items concurrency) ws
    s.calls = List.range s.calls.length ∧
      s.inFlight + s.failed =
        min (limit items concurrency) (items.length - s.resolved.length) ∧
      Delivers items fn s.inFlight s.outcome := by
  have hrun : Always (settle items fn)
      (Sound items fn (if items.length = 0 then 0 else limit items concurrency))
      (start items concurrency) ws := by
    apply Run.always_of_step
    · exact fun s w h => sound_settle h w
    · exact sound_start items concurrency fn
  have hsound := hrun.exec
  have hpos : 0 < limit items concurrency := Nat.le_max_left _ _
  refine ⟨?_, ?_, delivers hsound ?_⟩
  · have hcalls := hsound.calls
    rw [hcalls, List.length_range]
  · rw [inFlight_eq hsound]
    split
    · next h => rw [h, Nat.zero_sub, Nat.min_zero, Nat.min_zero]
    · rfl
  · split
    · next h => exact .inl h
    · exact .inr hpos

/-! What is shown while the tasks run. -/

structure Task where
  agent : Units
  task : Units
  cwd : Option Units

/-- The place of a task that has not been heard of. -/
def Task.placeholder (t : Task) : SingleResult where
  agent := t.agent
  task := t.task
  exitCode := -1
  messages := []
  stderr := []
  stopReason := none
  errorMessage := none
  step := none

/-- `reported` has the tasks that have sent an update, and `shown` the counts of the texts. -/
structure Progress (ε : Type w) where
  mapping : Mapping SingleResult ε
  allResults : List SingleResult
  reported : List Nat
  shown : List (Nat × Nat)

inductive TaskEvent where
  /-- A subagent has said something more; its result has no exit code yet but the first one, 0. -/
  | update (w : Nat) (messages : List Message) (stderr : Units)
    (stopReason errorMessage : Option Units)
  | settle (w : Nat)

namespace Progress

variable (s : Progress ε)

def done : Nat := s.allResults.countP fun r => r.exitCode ≠ -1

def running : Nat := s.allResults.countP fun r => r.exitCode = -1

def emitParallelUpdate : Progress ε := { s with shown := s.shown ++ [(s.done, s.running)] }

def setResult (i : Nat) (r : SingleResult) : Progress ε :=
  { s with allResults := s.allResults.set i r }.emitParallelUpdate

def start (tasks : List Task) (concurrency : Nat) : Progress ε where
  mapping := .start tasks concurrency
  allResults := tasks.map Task.placeholder
  reported := []
  shown := []

def step (tasks : List Task) (runSingleAgent : Task → Nat → Except ε SingleResult)
    (s : Progress ε) : TaskEvent → Progress ε
  | .update w messages stderr stopReason errorMessage =>
    match s.mapping.workers[w]? with
    | some (.calling current) =>
      match tasks[current]? with
      | some t =>
        { s with reported := s.reported ++ [current] }.setResult current
          { t.placeholder with
            exitCode := 0
            messages := messages
            stderr := stderr
            stopReason := stopReason
            errorMessage := errorMessage }
      | none => s
    | _ => s
  | .settle w =>
    let s' := { s with mapping := s.mapping.settle tasks runSingleAgent w }
    match s.mapping.workers[w]? with
    | some (.calling current) =>
      match Mapping.answer? tasks runSingleAgent current with
      | some (.ok result) => s'.setResult current result
      | _ => s'
    | _ => s'

variable {tasks : List Task} {runSingleAgent : Task → Nat → Except ε SingleResult} {s}

structure Sound (tasks : List Task) (runSingleAgent : Task → Nat → Except ε SingleResult) (n : Nat)
    (s : Progress ε) : Prop where
  mapping : s.mapping.Sound tasks runSingleAgent n
  length : s.allResults.length = tasks.length
  heard : ∀ i r, s.allResults[i]? = some r →
    (r.exitCode ≠ -1 ↔ i ∈ s.mapping.resolved ∨ i ∈ s.reported)
  called : ∀ i ∈ s.reported, i ∈ s.mapping.calls

/-- A task is heard of once more, in the place of the result that was there. -/
theorem heard_set {resolved reported resolved' reported' : List Nat} {rs : List SingleResult}
    {i : Nat} {r : SingleResult} (hr : r.exitCode ≠ -1)
    (h : ∀ j r, rs[j]? = some r → (r.exitCode ≠ -1 ↔ j ∈ resolved ∨ j ∈ reported))
    (hnew : ∀ j, j ∈ resolved' ∨ j ∈ reported' ↔ (j ∈ resolved ∨ j ∈ reported) ∨ j = i) :
    ∀ j r', (rs.set i r)[j]? = some r' → (r'.exitCode ≠ -1 ↔ j ∈ resolved' ∨ j ∈ reported') := by
  intro j r' hj
  rw [hnew]
  rw [List.getElem?_set] at hj
  split at hj
  · next hij =>
    split at hj
    · obtain rfl := Option.some.inj hj
      exact iff_of_true hr (.inr hij.symm)
    · cases hj
  · next hij =>
    rw [h j r' hj]
    exact ⟨.inl, fun h => h.resolve_right (Ne.symm hij)⟩

theorem sound_update {n : Nat} (h : s.Sound tasks runSingleAgent n) (w : Nat)
    (messages : List Message) (stderr : Units) (stopReason errorMessage : Option Units) :
    (step tasks runSingleAgent s (.update w messages stderr stopReason errorMessage)).Sound tasks
      runSingleAgent n := by
  rw [step]
  split
  · next current hw =>
    split
    · next t ht =>
      refine ⟨h.mapping, ?_, ?_, ?_⟩
      · exact (List.length_set).trans h.length
      · apply heard_set (show (0 : Int) ≠ -1 by decide) h.heard
        intro j
        change j ∈ s.mapping.resolved ∨ j ∈ s.reported ++ [current] ↔ _
        rw [List.mem_append, List.mem_singleton, or_assoc]
      · intro i hi
        obtain hi | hi := List.mem_append.mp hi
        · exact h.called i hi
        · obtain rfl := List.mem_singleton.mp hi
          exact h.mapping.drawn.subset (List.mem_append_left _ (Mapping.mem_held_of_calling hw))
    · exact h
  · exact h

theorem sound_settle {n : Nat} (hcode : ∀ t i r, runSingleAgent t i = .ok r → r.exitCode ≠ -1)
    (h : s.Sound tasks runSingleAgent n) (w : Nat) :
    (step tasks runSingleAgent s (.settle w)).Sound tasks runSingleAgent n := by
  have hsound := Mapping.sound_settle h.mapping w
  have hcalls (hlen : s.mapping.resolved.length ≤
      (s.mapping.settle tasks runSingleAgent w).resolved.length) :
      ∀ i ∈ s.reported, i ∈ (s.mapping.settle tasks runSingleAgent w).calls := by
    intro i hi
    have hcalled := h.called i hi
    rw [h.mapping.calls, h.mapping.nextIndex, List.mem_range] at hcalled
    rw [hsound.calls, hsound.nextIndex, List.mem_range]
    omega
  have hsame (hresolved : (s.mapping.settle tasks runSingleAgent w).resolved =
      s.mapping.resolved) : Sound tasks runSingleAgent n
        { s with mapping := s.mapping.settle tasks runSingleAgent w } := by
    refine ⟨hsound, h.length, ?_, hcalls (by rw [hresolved])⟩
    intro i r hr
    change r.exitCode ≠ -1 ↔ i ∈ (s.mapping.settle tasks runSingleAgent w).resolved ∨ _
    rw [hresolved]
    exact h.heard i r hr
  rw [step]
  split
  · next current hw =>
    split
    · next result hresult =>
      have hresolved : (s.mapping.settle tasks runSingleAgent w).resolved =
          s.mapping.resolved ++ [current] := by
        rw [Mapping.settle, hw]
        rw [Mapping.answer?] at hresult
        dsimp only
        rw [hresult]
        exact Mapping.resolved_resolve tasks s.mapping w current result
      obtain ⟨t, -, ht⟩ := Mapping.answer?_eq_some.mp hresult
      refine ⟨hsound, (List.length_set).trans h.length, ?_, hcalls ?_⟩
      · apply heard_set (hcode t current result ht) h.heard
        intro j
        change j ∈ (s.mapping.settle tasks runSingleAgent w).resolved ∨ _ ↔ _
        rw [hresolved, List.mem_append, List.mem_singleton, or_right_comm]
        rfl
      · rw [hresolved, List.length_append]
        exact Nat.le_add_right _ _
    · next hnot =>
      apply hsame
      rw [Mapping.settle, hw]
      dsimp only
      rw [Mapping.answer?] at hnot
      split
      · next value hvalue => exact absurd hvalue (hnot value)
      · rfl
      · rfl
  · next hnot =>
    apply hsame
    rw [Mapping.settle]
    split
    · next current hw => exact absurd hw (hnot current)
    · rfl

theorem sound_start (tasks : List Task) (concurrency : Nat)
    (runSingleAgent : Task → Nat → Except ε SingleResult) :
    (start tasks concurrency : Progress ε).Sound tasks runSingleAgent
      (if tasks.length = 0 then 0 else Mapping.limit tasks concurrency) := by
  refine ⟨Mapping.sound_start tasks concurrency runSingleAgent, List.length_map .., ?_,
    fun i hi => absurd hi List.not_mem_nil⟩
  intro i r hr
  obtain ⟨t, ht, rfl⟩ := List.mem_map.mp (List.mem_of_getElem? hr)
  have hnone : (start tasks concurrency : Progress ε).mapping.resolved = [] :=
    Mapping.resolved_start tasks concurrency runSingleAgent
  rw [hnone]
  refine iff_of_false (fun h => h rfl) fun h => ?_
  obtain h | h := h <;> exact absurd h List.not_mem_nil

/-- Counting a list by the places of its items. -/
theorem countP_eq_range {γ : Type _} {p : γ → Bool} {q : Nat → Bool} {l : List γ}
    (h : ∀ i a, l[i]? = some a → p a = q i) : l.countP p = (List.range l.length).countP q := by
  induction l using List.reverseRecOn with
  | nil => rfl
  | append_singleton l a ih =>
    have hlast : (l ++ [a])[l.length]? = some a := by simp
    rw [List.length_append, List.length_singleton, List.range_succ, List.countP_append,
      List.countP_append, ih, List.countP_singleton, List.countP_singleton, h _ _ hlast]
    intro i b hb
    refine h i b ?_
    rw [List.getElem?_append_left (List.getElem?_eq_some_iff.mp hb).1, hb]

theorem countP_mem {n : Nat} {l : List Nat} (hl : l.Nodup) (hlt : ∀ i ∈ l, i < n) :
    (List.range n).countP (fun i => l.contains i) = l.length := by
  rw [List.countP_eq_length_filter]
  refine List.Perm.length_eq ?_
  rw [List.perm_ext_iff_of_nodup (List.nodup_range.filter _) hl]
  intro i
  rw [List.mem_filter, List.mem_range, List.contains_iff_mem]
  exact ⟨fun h => h.2, fun h => ⟨hlt i h, h⟩⟩

theorem done_add_running (s : Progress ε) : s.done + s.running = s.allResults.length := by
  rw [List.length_eq_countP_add_countP (fun r => decide (r.exitCode ≠ -1)) (l := s.allResults)]
  rw [done, running]
  congr 1
  apply List.countP_congr
  intro r _
  simp

/-- The tasks that have been heard of are the ones that are through, and more exactly if a worker
has one that has sent an update. -/
theorem done_eq_iff {n : Nat} (h : s.Sound tasks runSingleAgent n) :
    s.done = s.mapping.resolved.length ↔ ∀ i ∈ s.mapping.held, i ∉ s.reported := by
  have hlt : ∀ i ∈ s.mapping.resolved, i < tasks.length :=
    fun i hi => Mapping.resolved_lt h.mapping hi
  have hnodup := Mapping.nodup_resolved h.mapping
  have hdone : s.done = (List.range tasks.length).countP fun i =>
      s.mapping.resolved.contains i || s.reported.contains i := by
    rw [done, ← h.length]
    refine countP_eq_range fun i r hr => ?_
    rw [Bool.eq_iff_iff, decide_eq_true_eq, Bool.or_eq_true, List.contains_iff_mem,
      List.contains_iff_mem]
    exact h.heard i r hr
  have hsplit : (List.range tasks.length).countP (fun i =>
      s.mapping.resolved.contains i || s.reported.contains i) =
        s.mapping.resolved.length + (List.range tasks.length).countP fun i =>
          !s.mapping.resolved.contains i && s.reported.contains i := by
    rw [← countP_mem hnodup hlt]
    induction List.range tasks.length with
    | nil => rfl
    | cons i is ih =>
      rw [List.countP_cons, List.countP_cons, List.countP_cons, ih]
      cases s.mapping.resolved.contains i <;> cases s.reported.contains i <;> simp <;> omega
  rw [hdone, hsplit, Nat.add_eq_left, List.countP_eq_zero]
  constructor
  · intro hnone i hheld hreported
    have hcalled := h.called i hreported
    have hi : i < tasks.length := by
      rw [h.mapping.calls, List.mem_range] at hcalled
      omega
    have hres : i ∈ s.mapping.resolved := by
      have := hnone i (List.mem_range.mpr hi)
      simpa [hreported] using this
    have hdrawn := h.mapping.drawn.nodup_iff.mpr (h.mapping.calls ▸ List.nodup_range)
    exact (List.nodup_append.mp hdrawn).2.2 i hheld i hres rfl
  · intro hnone i _ hboth
    rw [Bool.and_eq_true, Bool.not_eq_true', List.contains_iff_mem] at hboth
    have hmem := h.mapping.drawn.symm.subset (h.called i hboth.2)
    obtain hheld | hres := List.mem_append.mp hmem
    · exact hnone i hheld hboth.2
    · rw [List.contains_iff_mem.mpr hres] at hboth
      cases hboth.1

end Progress

open Progress in
/-- In whatever order the tasks send updates and come to their ends: what is shown next counts as
done the tasks that are through and no others, exactly as long as no task that a worker still has
has sent an update. -/
theorem progress_right_iff (tasks : List Task) (concurrency : Nat)
    (runSingleAgent : Task → Nat → Except ε SingleResult)
    (hcode : ∀ t i r, runSingleAgent t i = .ok r → r.exitCode ≠ -1) (es : List TaskEvent) :
    let s := exec (step tasks runSingleAgent) (start tasks concurrency) es
    (s.done = s.mapping.resolved.length ∧
      s.running = tasks.length - s.mapping.resolved.length) ↔
        ∀ i ∈ s.mapping.held, i ∉ s.reported := by
  have hrun : Always (step tasks runSingleAgent)
      (Sound tasks runSingleAgent
        (if tasks.length = 0 then 0 else Mapping.limit tasks concurrency))
      (start tasks concurrency) es := by
    apply Run.always_of_step
    · intro s e h
      cases e with
      | update w messages stderr stopReason errorMessage =>
        exact sound_update h w messages stderr stopReason errorMessage
      | settle w => exact Progress.sound_settle hcode h w
    · exact Progress.sound_start tasks concurrency runSingleAgent
  have hsound := hrun.exec
  have hsum := (exec (step tasks runSingleAgent) (start tasks concurrency) es).done_add_running
  rw [hsound.length] at hsum
  refine ⟨fun h => (done_eq_iff hsound).mp h.1, fun h => ?_⟩
  have hdone := (done_eq_iff hsound).mpr h
  exact ⟨hdone, by omega⟩

open Progress in
theorem progress_right_iff_one_update :
    let s := exec (step [⟨[], [], none⟩] fun t _ => (.ok (saying [] t.task) : Except Empty _))
      (start [⟨[], [], none⟩] 4) [.update 0 [] [] none none]
    (s.done = s.mapping.resolved.length ∧ s.running = 1 - s.mapping.resolved.length) ↔
      ∀ i ∈ s.mapping.held, i ∉ s.reported :=
  progress_right_iff [⟨[], [], none⟩] 4 (fun t _ => .ok (saying [] t.task))
    (by
      intro t i r h
      obtain rfl := Except.ok.inj h
      exact (by decide : (0 : Int) ≠ -1))
    [.update 0 [] [] none none]

end Eyot.Subagents
