import Eyot.Brainstem.Runner
import Eyot.Library.FailingFold

/-! What one schedule means for the others of its tick. -/

namespace Eyot.Brainstem

open FailingFold (bind_eq_ok)
open Market.Manifest (isHashable)

variable {ν : Type} [LinearOrder ν] {X : Outside ν} {instances : Table Instance.id} {now : Time}
  {s : BrainstemSchedule}

/-- The payload names an instance that is there, and nothing in it is refused. -/
structure Deliverable (X : Outside ν) (instances : Table Instance.id) (s : BrainstemSchedule) : Prop where
  target : ∃ v, member? X s.payload "instance_id" = some v ∧
    (instances.find? (instanceIdOf X v)).isSome = true
  mode : ∀ v, get? s.payload "delivery_mode" = some v → isHashable v = true
  tldr : ∃ t, tldrOf X s.payload = .str t ∧ t.length ≤ 200 ∧
    (computeProseLength s.payload ≤ 240 ∨ pythonText.strip t ≠ [])

theorem validateTldr_eq_ok {t : Str} {n : Nat} :
    validateTldr t n = .ok () ↔ t.length ≤ 200 ∧ (n ≤ 240 ∨ pythonText.strip t ≠ []) := by
  rw [validateTldr, Routing.validateTldr, Option.filter_some]
  by_cases hlong : t.length > Routing.tldrMaxChars
  · simp only [hlong, decide_true, if_true]
    refine iff_of_false nofun ?_
    exact fun h => absurd hlong (not_lt.mpr h.1)
  · simp only [hlong, decide_false, Bool.false_eq_true, if_false]
    by_cases hprose : n > Routing.proseThresholdChars
    · by_cases hblank : pythonText.strip t = []
      · simp only [hprose, hblank, Option.map_some, Option.getD_some, decide_true, Bool.and_self,
          if_true]
        refine iff_of_false nofun ?_
        rintro ⟨-, h | h⟩
        · exact absurd hprose (not_lt.mpr h)
        · exact h rfl
      · simp only [hblank, Option.map_some, Option.getD_some, decide_false, Bool.and_false,
          Bool.false_eq_true, if_false]
        exact iff_of_true trivial ⟨not_lt.mp hlong, .inr hblank⟩
    · simp only [hprose, decide_false, Bool.false_and, Bool.false_eq_true, if_false]
      exact iff_of_true trivial ⟨not_lt.mp hlong, .inl (not_lt.mp hprose)⟩

section Tick

variable {db db' : Db} {due : List BrainstemSchedule} {locked : List Id}

theorem fireOne_eq_ok : fireOne X now db s = .ok db' ↔ ∃ o next,
    fireSchedule X db.instances now s = .ok o ∧ computeNextRunAt X s.cronExpr now = .ok next ∧
    db' = db.fired now s o next := by
  rw [fireOne, bind_eq_ok]
  apply exists_congr
  intro o
  rw [bind_eq_ok]
  constructor
  · rintro ⟨ho, next, hnext, h⟩
    exact ⟨next, ho, hnext, (Except.ok.inj h).symm⟩
  · rintro ⟨next, ho, hnext, rfl⟩
    exact ⟨ho, next, hnext, rfl⟩

theorem fireAll_cons : fireAll X now db (s :: due) = .ok db' ↔
    ∃ o next, fireSchedule X db.instances now s = .ok o ∧
      computeNextRunAt X s.cronExpr now = .ok next ∧
      fireAll X now (db.fired now s o next) due = .ok db' := by
  rw [fireAll, List.foldlM_cons, bind_eq_ok]
  constructor
  · rintro ⟨db₁, h, hrest⟩
    obtain ⟨o, next, ho, hnext, rfl⟩ := fireOne_eq_ok.mp h
    exact ⟨o, next, ho, hnext, hrest⟩
  · rintro ⟨o, next, ho, hnext, hrest⟩
    exact ⟨_, fireOne_eq_ok.mpr ⟨o, next, ho, hnext, rfl⟩, hrest⟩

theorem mem_dueSchedules : s ∈ dueSchedules db now locked ↔
    s ∈ db.schedules.rows ∧ s.isDue now = true ∧ s.id ∉ locked := by
  simp [dueSchedules, mem_sortBy]

theorem tick_of_ok (h : fireAll X now db (dueSchedules db now locked) = .ok db') :
    tick X db now locked = db' := by
  rw [tick, tickInSession, h]
  rfl

/-- One row in the queue for the schedule, to the instance that its payload names; it has run now
and is not due any more. -/
structure FiredOnce (X : Outside ν) (now : Time) (before after : Db) (s : BrainstemSchedule) :
    Prop where
  queued : ∃ new d v, after.queue = before.queue ++ new ∧
    (new.filter fun d => d.scheduleId = s.id) = [d] ∧ d.payload = s.payload ∧
    member? X s.payload "instance_id" = some v ∧ d.instanceId = instanceIdOf X v
  advanced : ∃ next, computeNextRunAt X s.cronExpr now = .ok next ∧
    s.ran now next ∈ after.schedules.rows ∧
    ∀ t, next = some t → now < t

/-- Every schedule that is due and can be delivered is fired, whatever else is due. -/
def Isolated (X : Outside ν) (db : Db) (now : Time) (locked : List Id) : Prop :=
  ∀ s ∈ dueSchedules db now locked, Deliverable X db.instances s →
    FiredOnce X now db (tick X db now locked) s

end Tick

/-! A schedule for every minute, alone and beside one for an instance that is not there. -/

def everyMinute (expr : Str) (base : Nat) : Except CronError Nat :=
  if expr = "* * * * *".toList then .ok ((base / 60 + 1) * 60) else .error .valueError

theorem everyMinute_after (expr : Str) (base t : Nat) (h : everyMinute expr base = .ok t) :
    base < t := by
  rw [everyMinute] at h
  split at h
  · cases h
    omega
  · cases h

def marsh : Outside Nat where
  number t := if t = "0".toList then 0 else 1
  str _ := []
  croniter := everyMinute
  croniter_after := everyMinute_after

end Eyot.Brainstem
