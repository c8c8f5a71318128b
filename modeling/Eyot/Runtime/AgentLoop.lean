import Eyot.Data.Text
import Eyot.Library.Loop

/-! The agent loop, from `harness.loop_started` to its end, against whatever the provider, the
database and the control channel answer. -/

namespace Eyot.Runtime

open Loop (Turn)

structure LLMResponse where
  content : Str
  promptTokens : Int
  completionTokens : Int
  stopReason : String

/-- `llm_client.complete`; it wraps every exception into an `LLMError` but a cancellation. -/
inductive Provider where
  | reply (response : LLMResponse)
  | llmError
  | cancelled

/-- An emit that raises may have left its event behind, where the answer to a request is lost. -/
inductive Emit where
  | sent
  | raised (recorded : Bool)

def Emit.recorded : Emit → Bool
  | .sent => true
  | .raised recorded => recorded

/-- `_should_stop_via_db`. -/
inductive Status where
  | goesOn
  | stops
  | raises
  deriving DecidableEq

/-- What one round of the loop meets. The backoff, the writes of memory and notepad, and the wait
at the end can only be cancelled; other exceptions in the writes are swallowed. -/
structure Round where
  stopFlag : Bool
  status : Status
  provider : Provider
  backoff : Bool
  writes : Bool
  checkpoint : Emit
  pacing : Bool

inductive Emitted where
  | checkpoint (tokenEstimate : Int) (stopReason : String) (iteration : Nat) (contentPreview : Str)
  | loopStopped (iterations : Nat)

def Emitted.isStop : Emitted → Bool
  | .checkpoint .. => false
  | .loopStopped _ => true

def checkpointOf (i : Nat) (response : LLMResponse) : Emitted :=
  .checkpoint (response.promptTokens + response.completionTokens) response.stopReason i
    (response.content.take 100)

/-- The loop between two rounds: the calls of the provider, the counter, and the events so far. -/
structure Pass where
  calls : Nat
  i : Nat
  events : List Emitted

def begin : Pass := ⟨0, 0, []⟩

structure Ended where
  calls : Nat
  events : List Emitted
  raised : Bool

def raise (calls : Nat) (events : List Emitted) : Turn Pass Ended := .done ⟨calls, events, true⟩

section Machine

variable (iterations : Nat) (k8sMode : Bool) (last : Emit) (rounds : Nat → Round)

/-- The emit of `harness.loop_stopped` behind the loop. -/
def finish (s : Pass) : Turn Pass Ended :=
  match last with
  | .sent => .done ⟨s.calls, s.events ++ [.loopStopped s.i], false⟩
  | .raised recorded =>
    raise s.calls (s.events ++ if recorded then [.loopStopped s.i] else [])

/-- The round behind a reply. -/
def proceed (r : Round) (s : Pass) (response : LLMResponse) : Turn Pass Ended :=
  let calls := s.calls + 1
  if !k8sMode && !r.writes then raise calls s.events
  else
    match r.checkpoint with
    | .raised recorded =>
      raise calls (s.events ++ if recorded then [checkpointOf s.i response] else [])
    | .sent =>
      let events := s.events ++ [checkpointOf s.i response]
      if k8sMode && !r.pacing then raise calls events else .again ⟨calls, s.i + 1, events⟩

def turn (s : Pass) : Turn Pass Ended :=
  let r := rounds s.calls
  if r.stopFlag || iterations ≤ s.i then finish last s
  else
    match if k8sMode then Status.goesOn else r.status with
    | .raises => raise s.calls s.events
    | .stops => finish last s
    | .goesOn =>
      match r.provider with
      | .cancelled => raise (s.calls + 1) s.events
      -- the counter stays where it is
      | .llmError =>
        if r.backoff then .again { s with calls := s.calls + 1 } else raise (s.calls + 1) s.events
      | .reply response => proceed k8sMode r s response

/-- What a run has to come to: no more calls than iterations, and one report of its end, last. -/
def Reports (e : Ended) : Prop :=
  e.calls ≤ iterations ∧
    ∃ events i, e.events = events ++ [.loopStopped i] ∧ ∀ event ∈ events, event.isStop = false

def Round.stops (r : Round) : Bool := r.stopFlag || (!k8sMode && r.status = .stops)

def Round.answered (r : Round) : Bool :=
  match r.provider with
  | .reply _ => true
  | _ => false

/-- Nothing in the round stops the loop or escapes from it. -/
def Round.quiet (r : Round) : Bool :=
  !r.stopFlag && (k8sMode || r.status = .goesOn) &&
    match r.provider with
    | .cancelled => false
    | .llmError => r.backoff
    | .reply _ =>
      (k8sMode || r.writes) && (match r.checkpoint with | .sent => true | .raised _ => false) &&
        (!k8sMode || r.pacing)

/-- The loop is stopped in time, or gets a reply in each of its rounds; before that all is quiet,
and the last emit goes through. -/
def InTime : Prop :=
  last.recorded = true ∧ ∃ n ≤ iterations, (∀ m < n, (rounds m).quiet k8sMode = true) ∧
    ((rounds n).stops k8sMode = true ∨ n = iterations ∧ ∀ m < n, (rounds m).answered = true)

end Machine

variable {iterations : Nat} {k8sMode : Bool} {last : Emit} {rounds : Nat → Round}

/-- No report of an end is among the events yet. -/
def Unreported (events : List Emitted) : Prop := ∀ event ∈ events, event.isStop = false

theorem unreported_snoc_checkpoint {events : List Emitted} (h : Unreported events) (i : Nat)
    (response : LLMResponse) : Unreported (events ++ [checkpointOf i response]) := by
  intro event hevent
  obtain hevent | hevent := List.mem_append.mp hevent
  · exact h event hevent
  · rw [List.mem_singleton.mp hevent]
    rfl

theorem reports_snoc {calls : Nat} {events : List Emitted} {i : Nat} {raised : Bool}
    (h : Unreported events) :
    Reports iterations ⟨calls, events ++ [.loopStopped i], raised⟩ ↔ calls ≤ iterations :=
  ⟨And.left, fun hcalls => ⟨hcalls, events, i, rfl, h⟩⟩

theorem not_reports {calls : Nat} {events : List Emitted} {raised : Bool}
    (h : Unreported events) : ¬Reports iterations ⟨calls, events, raised⟩ := by
  rintro ⟨-, events', i, heq, -⟩
  have hstop : Emitted.loopStopped i ∈ events := by
    rw [show events = events' ++ [.loopStopped i] from heq]
    exact List.mem_append_right _ (List.mem_singleton_self _)
  cases h _ hstop

/-- The ways a turn can end that are worth telling apart. -/
inductive Course (iterations : Nat) (k8sMode : Bool) (last : Emit) (s : Pass) (r : Round) :
    Turn Pass Ended → Prop
  | leave : r.stops k8sMode = true ∨ iterations ≤ s.i →
      Course iterations k8sMode last s r (finish last s)
  | fail {calls : Nat} {events : List Emitted} : r.quiet k8sMode = false →
      r.stops k8sMode = false → s.i < iterations → (Unreported s.events → Unreported events) →
      Course iterations k8sMode last s r (raise calls events)
  | retry : r.quiet k8sMode = true → r.answered = false → s.i < iterations →
      Course iterations k8sMode last s r (.again { s with calls := s.calls + 1 })
  | next (response : LLMResponse) : r.quiet k8sMode = true → r.answered = true → s.i < iterations →
      Course iterations k8sMode last s r
        (.again ⟨s.calls + 1, s.i + 1, s.events ++ [checkpointOf s.i response]⟩)

theorem proceed_course {s : Pass} {r : Round} {response : LLMResponse}
    (hr : r.provider = .reply response) (hflag : r.stopFlag = false) (hi : s.i < iterations)
    (hstatus : k8sMode = true ∨ r.status = .goesOn) :
    Course iterations k8sMode last s r (proceed k8sMode r s response) := by
  have hstops : r.stops k8sMode = false := by
    rw [Round.stops, hflag]
    obtain h | h := hstatus
    · simp [h]
    · simp [h]
  have hquiet : r.quiet k8sMode = ((k8sMode || r.writes) &&
      (match r.checkpoint with | .sent => true | .raised _ => false) &&
        (!k8sMode || r.pacing)) := by
    have hon : (k8sMode || r.status = .goesOn) = true := by simpa using hstatus
    rw [Round.quiet, hflag, hon, hr]
    rfl
  unfold proceed
  by_cases hwrites : (!k8sMode && !r.writes) = true
  · rw [if_pos hwrites]
    refine .fail ?_ hstops hi id
    simp_all
  · rw [if_neg hwrites]
    have hw : (k8sMode || r.writes) = true := by
      simpa [imp_iff_not_or, or_comm] using hwrites
    rw [hw, Bool.true_and] at hquiet
    cases hcheckpoint : r.checkpoint with
    | raised recorded =>
      rw [hcheckpoint] at hquiet
      refine .fail hquiet hstops hi fun h => ?_
      cases recorded with
      | true => exact unreported_snoc_checkpoint h s.i response
      | false => simpa using h
    | sent =>
      rw [hcheckpoint, Bool.true_and] at hquiet
      by_cases hpacing : (k8sMode && !r.pacing) = true
      · dsimp only
        rw [if_pos hpacing]
        refine .fail ?_ hstops hi fun h => unreported_snoc_checkpoint h s.i response
        rw [hquiet]
        simpa using hpacing
      · dsimp only
        rw [if_neg hpacing]
        refine .next response ?_ (by rw [Round.answered, hr]) hi
        rw [hquiet]
        simpa [imp_iff_not_or] using hpacing

theorem turn_course (iterations : Nat) (k8sMode : Bool) (last : Emit) (rounds : Nat → Round)
    (s : Pass) :
    Course iterations k8sMode last s (rounds s.calls) (turn iterations k8sMode last rounds s) := by
  unfold turn
  generalize rounds s.calls = r
  dsimp only
  by_cases hhead : (r.stopFlag || iterations ≤ s.i) = true
  · rw [if_pos hhead]
    refine .leave ?_
    rw [Bool.or_eq_true, decide_eq_true_eq] at hhead
    exact hhead.imp_left fun h => by rw [Round.stops, h, Bool.true_or]
  · rw [if_neg hhead]
    rw [Bool.or_eq_true, decide_eq_true_eq, not_or, Bool.not_eq_true, Nat.not_le] at hhead
    obtain ⟨hflag, hi⟩ := hhead
    cases hstatus : if k8sMode then Status.goesOn else r.status with
    | raises =>
      have h : k8sMode = false ∧ r.status = .raises := by
        cases k8sMode with
        | true => cases hstatus
        | false => exact ⟨rfl, hstatus⟩
      refine .fail ?_ ?_ hi id
      · simp [Round.quiet, h.1, h.2]
      · simp [Round.stops, h.2, hflag]
    | stops =>
      have h : k8sMode = false ∧ r.status = .stops := by
        cases k8sMode with
        | true => cases hstatus
        | false => exact ⟨rfl, hstatus⟩
      exact .leave (.inl (by simp [Round.stops, h.1, h.2]))
    | goesOn =>
      have h : k8sMode = true ∨ r.status = .goesOn := by
        cases k8sMode with
        | true => exact .inl rfl
        | false => exact .inr hstatus
      have hstops : r.stops k8sMode = false := by
        rw [Round.stops, hflag]
        obtain h | h := h
        · simp [h]
        · simp [h]
      cases hr : r.provider with
      | cancelled => exact .fail (by simp [Round.quiet, hr]) hstops hi id
      | llmError =>
        have hon : (k8sMode || r.status = .goesOn) = true := by simpa using h
        have hquiet : r.quiet k8sMode = r.backoff := by
          rw [Round.quiet, hflag, hon, hr]
          rfl
        dsimp only
        cases hb : r.backoff with
        | true => exact .retry (hquiet.trans hb) (by rw [Round.answered, hr]) hi
        | false => exact .fail (hquiet.trans hb) hstops hi id
      | reply response => exact proceed_course hr hflag hi h

theorem stops_of_quiet {r : Round} (h : r.quiet k8sMode = true) : r.stops k8sMode = false := by
  simp only [Round.quiet, Bool.and_eq_true, Bool.not_eq_true', Bool.or_eq_true,
    decide_eq_true_eq] at h
  obtain ⟨⟨hflag, hstatus⟩, -⟩ := h
  obtain hk | hs := hstatus
  · simp [Round.stops, hflag, hk]
  · simp [Round.stops, hflag, hs]

/-- What is known of the loop when it gets to round `n`. -/
structure Reached (k8sMode : Bool) (rounds : Nat → Round) (n : Nat) (s : Pass) : Prop where
  calls : s.calls = n
  le : s.i ≤ n
  full : s.i = n ↔ ∀ m < n, (rounds m).answered = true
  unreported : Unreported s.events
  quiet : ∀ m < n, (rounds m).quiet k8sMode = true

theorem reached_begin : Reached k8sMode rounds 0 begin where
  calls := rfl
  le := Nat.le_refl _
  full := iff_of_true rfl nofun
  unreported := nofun
  quiet := nofun

theorem forall_lt_succ {P : Nat → Prop} {n : Nat} (h : ∀ m < n, P m) (hn : P n) :
    ∀ m < n + 1, P m := by
  intro m hm
  obtain hm | rfl := Nat.lt_succ_iff_lt_or_eq.mp hm
  · exact h m hm
  · exact hn

theorem finish_ne_again {s s' : Pass} : finish last s ≠ .again s' := by
  cases last with
  | sent => nofun
  | raised recorded => nofun

theorem reached_again {n : Nat} {s s' : Pass} (hs : Reached k8sMode rounds n s)
    (h : turn iterations k8sMode last rounds s = .again s') : Reached k8sMode rounds (n + 1) s' := by
  have hcourse := turn_course iterations k8sMode last rounds s
  rw [hs.calls] at hcourse
  generalize turn iterations k8sMode last rounds s = t at hcourse h
  cases hcourse with
  | leave => exact absurd h finish_ne_again
  | fail => cases h
  | retry hquiet hanswered hi =>
    cases h
    refine ⟨congrArg (· + 1) hs.calls, Nat.le_succ_of_le hs.le, ?_, hs.unreported,
      forall_lt_succ hs.quiet hquiet⟩
    constructor
    · intro heq
      have hle := hs.le
      dsimp only at heq
      omega
    · intro hall
      rw [hall n (Nat.lt_succ_self n)] at hanswered
      cases hanswered
  | next response hquiet hanswered hi =>
    cases h
    refine ⟨congrArg (· + 1) hs.calls, Nat.succ_le_succ hs.le, ?_,
      unreported_snoc_checkpoint hs.unreported s.i response, forall_lt_succ hs.quiet hquiet⟩
    rw [Nat.add_right_cancel_iff, hs.full]
    constructor
    · intro hall
      exact forall_lt_succ hall hanswered
    · intro hall m hm
      exact hall m (Nat.lt_succ_of_lt hm)

theorem reached_of_after {n : Nat} {s : Pass}
    (h : Loop.after (turn iterations k8sMode last rounds) begin n = some s) :
    Reached k8sMode rounds n s := by
  induction n generalizing s with
  | zero =>
    cases h
    exact reached_begin
  | succ n ih =>
    obtain ⟨t, ht, hagain⟩ := Loop.after_succ_eq_some.mp h
    exact reached_again (ih ht) hagain

/-- Quiet rounds are gone through, as many as there may be. -/
theorem after_of_quiet {n : Nat} (hn : n ≤ iterations)
    (hquiet : ∀ m < n, (rounds m).quiet k8sMode = true) :
    ∃ s, Loop.after (turn iterations k8sMode last rounds) begin n = some s := by
  induction n with
  | zero => exact ⟨begin, rfl⟩
  | succ n ih =>
    obtain ⟨s, hs⟩ := ih (Nat.le_of_succ_le hn) fun m hm => hquiet m (Nat.lt_succ_of_lt hm)
    have hreached := reached_of_after hs
    have hlt : s.i < iterations := Nat.lt_of_le_of_lt hreached.le hn
    have hq := hquiet n (Nat.lt_succ_self n)
    have hcourse := turn_course iterations k8sMode last rounds s
    rw [hreached.calls] at hcourse
    simp only [Loop.after_succ_eq_some]
    generalize hturn : turn iterations k8sMode last rounds s = t at hcourse
    cases hcourse with
    | leave h =>
      obtain h | h := h
      · rw [stops_of_quiet hq] at h
        cases h
      · omega
    | fail h =>
      rw [hq] at h
      cases h
    | retry => exact ⟨_, s, hs, hturn⟩
    | next => exact ⟨_, s, hs, hturn⟩

theorem finish_reports {s : Pass} (h : Unreported s.events) :
    (∃ e, finish last s = .done e ∧ Reports iterations e) ↔
      s.calls ≤ iterations ∧ last.recorded = true := by
  cases last with
  | sent =>
    rw [finish, Emit.recorded]
    simp [reports_snoc h]
  | raised recorded =>
    rw [finish, Emit.recorded, raise]
    cases recorded with
    | true => simp [reports_snoc h]
    | false => simp [not_reports h]

/-- A loop reports its end well exactly where it leaves its rounds in time. -/
theorem turn_reports {n : Nat} {s : Pass} (hs : Reached k8sMode rounds n s) :
    (∃ e, turn iterations k8sMode last rounds s = .done e ∧ Reports iterations e) ↔
      n ≤ iterations ∧ last.recorded = true ∧
        ((rounds n).stops k8sMode = true ∨ iterations ≤ s.i) := by
  have hcourse := turn_course iterations k8sMode last rounds s
  rw [hs.calls] at hcourse
  generalize turn iterations k8sMode last rounds s = t at hcourse
  cases hcourse with
  | leave h =>
    rw [finish_reports hs.unreported, hs.calls]
    simp only [h, and_true]
  | fail hquiet hstops hi hevents =>
    refine iff_of_false ?_ ?_
    · rintro ⟨e, he, hreports⟩
      cases he
      exact not_reports (hevents hs.unreported) hreports
    · rintro ⟨-, -, h | h⟩
      · rw [hstops] at h
        cases h
      · omega
  | retry hquiet hanswered hi =>
    refine iff_of_false nofun ?_
    rintro ⟨-, -, h | h⟩
    · rw [stops_of_quiet hquiet] at h
      cases h
    · omega
  | next response hquiet hanswered hi =>
    refine iff_of_false nofun ?_
    rintro ⟨-, -, h | h⟩
    · rw [stops_of_quiet hquiet] at h
      cases h
    · omega

/-- `run_agent_loop` keeps to its bound and reports its end exactly in the runs that leave the
rounds in time. -/
theorem reports_iff_inTime (iterations : Nat) (k8sMode : Bool) (last : Emit)
    (rounds : Nat → Round) :
    (∃ e, Loop.Returns (turn iterations k8sMode last rounds) begin e ∧ Reports iterations e) ↔
      InTime iterations k8sMode last rounds := by
  have hfull : ∀ {n s}, Reached k8sMode rounds n s → n ≤ iterations →
      (iterations ≤ s.i ↔ n = iterations ∧ ∀ m < n, (rounds m).answered = true) := by
    intro n s hs hn
    have hle := hs.le
    rw [← hs.full]
    omega
  constructor
  · rintro ⟨e, hreturns, hreports⟩
    obtain ⟨n, s, hafter, hdone⟩ := Loop.returns_iff.mp hreturns
    have hs := reached_of_after hafter
    obtain ⟨hn, hlast, hleave⟩ := (turn_reports hs).mp ⟨e, hdone, hreports⟩
    exact ⟨hlast, n, hn, hs.quiet, hleave.imp_right (hfull hs hn).mp⟩
  · rintro ⟨hlast, n, hn, hquiet, hleave⟩
    obtain ⟨s, hafter⟩ : ∃ s, Loop.after (turn iterations k8sMode last rounds) begin n = some s :=
      after_of_quiet hn hquiet
    have hs := reached_of_after hafter
    obtain ⟨e, hdone, hreports⟩ :=
      (turn_reports hs).mpr ⟨hn, hlast, hleave.imp_right (hfull hs hn).mpr⟩
    exact ⟨e, Loop.returns_iff.mpr ⟨n, s, hafter, hdone⟩, hreports⟩

/-- A round in which the provider fails, and nothing else happens. -/
def failing : Round := ⟨false, .goesOn, .llmError, true, true, .sent, true⟩

/-- With a provider that always fails, the loop calls it for ever. -/
theorem failing_forever :
    ¬∃ e, Loop.Returns (turn 10000 false .sent fun _ => failing) begin e ∧ Reports 10000 e := by
  rintro ⟨e, ⟨fuel, h⟩, -⟩
  have hnone : ∀ fuel n, Loop.iterate (turn 10000 false .sent fun _ => failing) fuel ⟨n, 0, []⟩ =
      none := by
    intro fuel
    induction fuel with
    | zero => exact fun _ => rfl
    | succ fuel ih => exact fun n => ih (n + 1)
  rw [begin, hnone] at h
  cases h

end Eyot.Runtime
