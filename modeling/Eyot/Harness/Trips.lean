import Eyot.Harness.Supervisor

/-! When the breakers of one loop trip, against its history since it was started. -/

namespace Eyot.Harness.Trips

inductive LoopEvent where
  | checkpoint (tokenEstimate : Int) (stamp now : Time)
  | continuation (now : Time)

/-- What has happened to a loop since its start. -/
structure Tally where
  started : Time
  checkpoints : Nat
  tokens : Int
  lastSign : Option Time
  tripped : Bool

namespace Tally

def begin (now : Time) : Tally := ⟨now, 0, 0, none, false⟩

variable (t : Tally) (c : BreakerConfig)

/-- The first of the limits on the loop as a whole that a next checkpoint reaches. -/
def limit (tokenEstimate : Int) (now : Time) : Option TripReason :=
  if c.maxContinuations ≤ t.checkpoints + 1 then some .maxContinuations
  else if c.maxTokenEstimate ≤ t.tokens + tokenEstimate then some .tokenBudget
  else if lasted t.started now c.maxWallClockSeconds then some .wallClock
  else none

def idle (now : Time) : Bool := t.lastSign.any fun sign => lasted sign now c.idleTimeoutSeconds

/-- The reason a next checkpoint has to trip for. -/
def due (tokenEstimate : Int) (now : Time) : Option TripReason :=
  (t.limit c tokenEstimate now).or (if t.idle c now then some .idleTimeout else none)

def next : LoopEvent → Tally
  | .checkpoint tokens stamp now =>
    { t with
      checkpoints := t.checkpoints + 1
      tokens := t.tokens + tokens
      lastSign := some stamp
      tripped := t.tripped || (t.due c tokens now).isSome }
  | .continuation now => { t with lastSign := some now }

/-- The metrics of a loop of which nothing was lost. -/
def metrics : InstanceLoopMetrics := ⟨t.checkpoints, t.tokens, some t.started, t.lastSign⟩

end Tally

structure State where
  registry : Registry
  tally : Tally

def begin (registry : Registry) (instanceId : Id) (now : Time) : State :=
  ⟨handleLoopStarted registry instanceId now, .begin now⟩

section Machine

variable (instanceId : Id) (c : BreakerConfig)

def step (s : State) (e : LoopEvent) : State where
  registry := match e with
    | .checkpoint tokens stamp now =>
      (handleCheckpoint s.registry (some c) instanceId tokens stamp now).1
    | .continuation now => handleContinuationInjected s.registry instanceId now
  tally := s.tally.next c e

/-- A checkpoint trips for the reason its history gives; behind a trip the loop would have to be
judged by all it has counted. -/
def Judged (s : State) : LoopEvent → Prop
  | .checkpoint tokens stamp now =>
    if s.tally.tripped then
      (s.registry.get instanceId).continuationCount = s.tally.checkpoints ∧
        (s.registry.get instanceId).tokenEstimate = s.tally.tokens
    else (handleCheckpoint s.registry (some c) instanceId tokens stamp now).2 =
      s.tally.due c tokens now
  | .continuation _ => True

instance (s : State) : ∀ e, Decidable (Judged instanceId c s e)
  | .checkpoint tokens stamp now =>
    inferInstanceAs (Decidable
      (if s.tally.tripped then
        (s.registry.get instanceId).continuationCount = s.tally.checkpoints ∧
          (s.registry.get instanceId).tokenEstimate = s.tally.tokens
      else (handleCheckpoint s.registry (some c) instanceId tokens stamp now).2 =
        s.tally.due c tokens now))
  | .continuation _ => .isTrue trivial

/-- No trip lies behind, and the idle time does not matter or comes out the same when it is measured
from the checkpoint itself. -/
def Plain (s : State) : LoopEvent → Prop
  | .checkpoint tokens stamp now =>
    s.tally.tripped = false ∧
      ((s.tally.limit c tokens now).isSome ∨ s.tally.idle c now = lasted stamp now c.idleTimeoutSeconds)
  | .continuation _ => True

end Machine

variable {instanceId : Id} {c : BreakerConfig}

/-- An entry is the history of the loop until a trip takes it away. -/
structure Recorded (instanceId : Id) (s : State) : Prop where
  entry : s.tally.tripped = false → s.registry instanceId = some s.tally.metrics
  dropped : s.tally.tripped = true → s.registry instanceId = none ∧ 0 < s.tally.checkpoints

theorem recorded_begin (registry : Registry) (now : Time) :
    Recorded instanceId (begin registry instanceId now) where
  entry _ := registry.put_self instanceId _
  dropped h := nomatch h

theorem checkBreakers_checkpoint (t : Tally) (tokens : Int) (stamp now : Time) :
    checkBreakers (t.metrics.checkpoint tokens stamp) c now =
      (t.limit c tokens now).or
        (if lasted stamp now c.idleTimeoutSeconds then some .idleTimeout else none) := by
  change (if c.maxContinuations ≤ (t.checkpoints : Int) + 1 then some TripReason.maxContinuations
    else if c.maxTokenEstimate ≤ t.tokens + tokens then some .tokenBudget
    else if lasted t.started now c.maxWallClockSeconds then some .wallClock
    else if lasted stamp now c.idleTimeoutSeconds then some .idleTimeout
    else none) = _
  unfold Tally.limit
  by_cases hcount : c.maxContinuations ≤ t.checkpoints + 1
  · rw [if_pos hcount, if_pos hcount, Option.some_or]
  rw [if_neg hcount, if_neg hcount]
  by_cases htokens : c.maxTokenEstimate ≤ t.tokens + tokens
  · rw [if_pos htokens, if_pos htokens, Option.some_or]
  rw [if_neg htokens, if_neg htokens]
  cases lasted t.started now c.maxWallClockSeconds with
  | true => rfl
  | false => rfl

theorem idle_eq_iff (l : Option TripReason) (a b : Bool) :
    l.or (if a then some .idleTimeout else none) = l.or (if b then some .idleTimeout else none) ↔
      l.isSome ∨ b = a := by
  cases l with
  | some r => simp
  | none => cases a <;> cases b <;> simp

theorem decision_eq {s : State} (hs : Recorded instanceId s) (h : s.tally.tripped = false)
    (tokens : Int) (stamp now : Time) :
    handleCheckpoint s.registry (some c) instanceId tokens stamp now =
      match checkBreakers (s.tally.metrics.checkpoint tokens stamp) c now with
      | some reason => (s.registry.pop instanceId, some reason)
      | none =>
        (s.registry.put instanceId (s.tally.metrics.checkpoint tokens stamp), none) := by
  rw [handleCheckpoint_eq, Registry.get, hs.entry h]
  rfl

theorem judged_iff {s : State} (hs : Recorded instanceId s) (e : LoopEvent) :
    Judged instanceId c s e ↔ Plain c s e := by
  cases e with
  | continuation now => exact Iff.rfl
  | checkpoint tokens stamp now =>
    rw [Judged, Plain]
    cases h : s.tally.tripped with
    | true =>
      obtain ⟨hnone, hpos⟩ := hs.dropped h
      have hcount : (s.registry.get instanceId).continuationCount = 0 := by
        rw [Registry.get, hnone]
        rfl
      simp only [if_true, hcount, Bool.true_eq_false, false_and, iff_false]
      rintro ⟨hzero, -⟩
      omega
    | false =>
      have hdecision : (handleCheckpoint s.registry (some c) instanceId tokens stamp now).2 =
          checkBreakers (s.tally.metrics.checkpoint tokens stamp) c now := by
        rw [decision_eq hs h]
        cases checkBreakers (s.tally.metrics.checkpoint tokens stamp) c now with
        | none => rfl
        | some r => rfl
      simp only [Bool.false_eq_true, if_false, true_and]
      rw [hdecision, checkBreakers_checkpoint, Tally.due, idle_eq_iff]

theorem recorded_step {s : State} (hs : Recorded instanceId s) {e : LoopEvent}
    (hp : Plain c s e) : Recorded instanceId (step instanceId c s e) := by
  cases e with
  | continuation now =>
    constructor
    · intro h
      simp only [step, handleContinuationInjected, hs.entry h, Registry.put_self]
      rfl
    · intro h
      obtain ⟨hnone, hpos⟩ := hs.dropped h
      refine ⟨?_, hpos⟩
      simp only [step, handleContinuationInjected, hnone]
  | checkpoint tokens stamp now =>
    have hfalse : s.tally.tripped = false := hp.1
    have hjudged := (judged_iff hs (.checkpoint tokens stamp now)).mpr hp
    rw [Judged, hfalse, if_neg Bool.false_ne_true, decision_eq hs hfalse] at hjudged
    constructor
    · intro h
      simp only [step, Tally.next, hfalse, Bool.false_or] at h ⊢
      rw [decision_eq hs hfalse]
      cases hc : checkBreakers (s.tally.metrics.checkpoint tokens stamp) c now with
      | none => exact s.registry.put_self instanceId _
      | some r =>
        rw [hc] at hjudged
        rw [← hjudged] at h
        cases h
    · intro h
      simp only [step, Tally.next, hfalse, Bool.false_or] at h ⊢
      rw [decision_eq hs hfalse]
      cases hc : checkBreakers (s.tally.metrics.checkpoint tokens stamp) c now with
      | none =>
        rw [hc] at hjudged
        rw [← hjudged] at h
        cases h
      | some r => exact ⟨s.registry.pop_self instanceId, Nat.succ_pos _⟩

/-- The breakers keep to the history of the loop up to the first trip, idle times apart. -/
theorem judged_iff_plain (registry : Registry) (instanceId : Id) (c : BreakerConfig) (now : Time)
    (events : List LoopEvent) :
    Run.Meets (step instanceId c) (Judged instanceId c) (begin registry instanceId now) events ↔
      Run.Meets (step instanceId c) (Plain c) (begin registry instanceId now) events :=
  Run.meets_iff_of_keeps (r := Recorded instanceId) (fun _ _ hs hp => recorded_step hs hp)
    (fun _ e hs => judged_iff hs e) (recorded_begin registry now) events

/-- Ten minutes without a sign of life do not trip a breaker set to five. -/
theorem not_judged_idle :
    ¬Run.Meets (step "i" LoopColumns.defaultConfig) (Judged "i" LoopColumns.defaultConfig)
      (begin (fun _ => none) "i" 0)
      [.checkpoint 10 1000000 1000000, .checkpoint 10 601000000 601000000] := by
  decide

end Eyot.Harness.Trips
