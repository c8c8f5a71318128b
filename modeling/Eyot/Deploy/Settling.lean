import Eyot.Deploy.Pipeline
import Eyot.Library.Run

/-! How a deploy record ends, and what may still happen to it then. -/

namespace Eyot.Deploy

variable {s : State} {w : Wake} {r : Reply} {n : Nat}

/-- On its way to the record. -/
def Call.Pending : Call → Prop
  | .reading _ | .committing _ _ => True
  | .idle | .deleting _ | .answered => False

def State.Quiet (s : State) : Prop := ∀ n, ¬(s.calls n).Pending

/-- The pipeline has ended, and so has every request that was going to mark the record. -/
def Settled (s : State) : Prop :=
  s.point = .ended → s.Quiet → s.status.Terminal ∧ s.instance_.status ≠ .deploying

/-- What the record's status was when the request came in. -/
def Call.asked (now : DeployStatus) : Call → DeployStatus
  | .idle | .answered => now
  | .reading asked | .committing asked _ | .deleting asked => asked

structure Upholds (s : State) (a : Action) : Prop where
  absorbing : s.status.Terminal → (step s a).status = s.status
  harmless : ∀ n r, a = .cancel n r → ((s.calls n).asked s.status).Terminal →
    (step s a).namespaceThere = s.namespaceThere ∧ (step s a).instance_ = s.instance_
  settled : Settled (step s a)

/-! Commits. -/

structure Commit where
  read : DeployStatus
  new : DeployStatus

def Point.commit : Point → Option Commit
  | .committing read => some ⟨read, .success⟩
  | .committingFailure read => some ⟨read, .failed⟩
  | _ => none

def Call.commit : Call → Option Commit
  | .committing _ read => some ⟨read, .cancelled⟩
  | _ => none

/-- No other terminal status is there for the commit to overwrite. -/
def State.Free (s : State) (commit : Option Commit) (applied : Bool) : Prop :=
  ∀ c, commit = some c → applied = true → c.read ≠ c.new → s.status.Terminal → s.status = c.new

def State.Marked (s : State) (commit : Option Commit) (applied : Bool) : Prop :=
  s.status.Terminal ∨ ∃ c, commit = some c ∧ applied = true ∧ c.read ≠ c.new

def State.committed (s : State) (applied : Bool) : Option Commit → DeployStatus
  | some c => if applied = true ∧ c.read ≠ c.new then c.new else s.status
  | none => s.status

variable {applied : Bool} {commit? : Option Commit}

theorem committed_eq_iff :
    (s.status.Terminal → s.committed applied commit? = s.status) ↔ s.Free commit? applied := by
  cases commit? with
  | none => exact iff_of_true (fun _ => rfl) fun _ h => by cases h
  | some c =>
    simp only [State.committed, State.Free, Option.some.injEq, forall_eq']
    split
    · rename_i h
      constructor
      · exact fun heq _ _ hterminal => (heq hterminal).symm
      · exact fun hfree hterminal => (hfree h.1 h.2 hterminal).symm
    · rename_i h
      exact iff_of_true (fun _ => rfl) fun happlied hne => absurd ⟨happlied, hne⟩ h

theorem committed_terminal (hnew : ∀ c, commit? = some c → c.new.Terminal) :
    (s.committed applied commit?).Terminal ↔ s.Marked commit? applied := by
  cases commit? with
  | none => simp [State.committed, State.Marked]
  | some c =>
    simp only [State.committed, State.Marked, Option.some.injEq, exists_eq_left']
    split
    · rename_i h
      exact iff_of_true (hnew c rfl) (.inr h)
    · rename_i h
      rw [or_iff_left h]

theorem Point.commit_terminal (p : Point) : ∀ c, p.commit = some c → c.new.Terminal := by
  intro c h
  cases p with
  | committing | committingFailure =>
    obtain rfl := Option.some.inj h
    trivial
  | _ => cases h

theorem Call.commit_terminal (call : Call) : ∀ c, call.commit = some c → c.new.Terminal := by
  intro c h
  cases call with
  | committing =>
    obtain rfl := Option.some.inj h
    trivial
  | _ => cases h

/-! What one step does. -/

theorem write_eq (read new : DeployStatus) :
    s.write read new = { s with status := if read = new then s.status else new } := by
  unfold State.write
  split <;> rfl

theorem commit_eq (read new : DeployStatus) (applied : Bool) :
    (if applied then s.write read new else s) =
      { s with status := s.committed applied (some ⟨read, new⟩) } := by
  cases applied with
  | false => rfl
  | true =>
    rw [if_pos rfl, write_eq]
    by_cases h : read = new
    · simp [State.committed, h]
    · simp [State.committed, h]

theorem markInstance_eq (status : InstanceStatus) :
    s.markInstance status = { s with instance_ := { s.instance_ with
      status := if s.instance_.deletedAt.isNone then status else s.instance_.status } } := by
  unfold State.markInstance
  split <;> rfl

theorem cancelDeployTask_eq :
    s.cancelDeployTask = { s with
      registered := false
      cancelRequested := s.cancelRequested || s.registered && decide (s.point ≠ .ended) } := by
  unfold State.cancelDeployTask
  split
  · rename_i h
    rw [h, Bool.true_and]
  · rename_i h
    rw [Bool.not_eq_true] at h
    rw [h, Bool.false_and, Bool.or_false, ← h]

theorem markInstance_instance {status : InstanceStatus} (h : status ≠ .deploying) :
    (s.markInstance status).instance_.status ≠ .deploying ↔
      s.instance_.status ≠ .deploying ∨ s.instance_.deletedAt = none := by
  unfold State.markInstance
  split
  · rename_i hlive
    exact iff_of_true h (.inr (Option.isNone_iff_eq_none.mp hlive))
  · rename_i hgone
    rw [or_iff_left]
    exact fun hlive => hgone (Option.isNone_iff_eq_none.mpr hlive)

/-- What no await of the pipeline touches. -/
structure Aside (s s' : State) : Prop where
  calls : s'.calls = s.calls
  cancelRequested : s'.cancelRequested = s.cancelRequested
  deletedAt : s'.instance_.deletedAt = s.instance_.deletedAt

theorem aside_effect (p : Point) : Aside s (s.effect p) := by
  unfold State.effect
  split
  · exact ⟨rfl, rfl, rfl⟩
  · rw [markInstance_eq]
    exact ⟨rfl, rfl, rfl⟩
  · rw [write_eq]
    exact ⟨rfl, rfl, rfl⟩
  · rw [write_eq, markInstance_eq]
    exact ⟨rfl, rfl, rfl⟩
  · exact ⟨rfl, rfl, rfl⟩
  · exact ⟨rfl, rfl, rfl⟩

theorem effect_status (p : Point) (applied : Bool) :
    (if applied then s.effect p else s).status = s.committed applied p.commit := by
  cases p with
  | committing read =>
    rw [State.effect, commit_eq]
    rfl
  | committingFailure read =>
    have hcommit := congrArg State.status (commit_eq (s := s) read .failed applied)
    refine Eq.trans ?_ hcommit
    cases applied with
    | false => rfl
    | true =>
      rw [if_pos rfl, if_pos rfl, State.effect, markInstance_eq]
  | postReady =>
    cases applied with
    | false => rfl
    | true =>
      rw [if_pos rfl, State.effect, markInstance_eq]
      rfl
  | applying r => cases applied <;> cases r <;> rfl
  | _ => cases applied <;> rfl

def Point.MarksInstance : Point → Prop
  | .postReady | .committingFailure _ => True
  | _ => False

theorem effect_instance (p : Point) :
    (s.effect p).instance_.status ≠ .deploying ↔
      s.instance_.status ≠ .deploying ∨ p.MarksInstance ∧ s.instance_.deletedAt = none := by
  cases p with
  | postReady =>
    rw [Point.MarksInstance, true_and]
    exact markInstance_instance (by decide)
  | committingFailure read =>
    rw [Point.MarksInstance, true_and, State.effect, markInstance_instance (by decide), write_eq]
  | applying r => cases r <;> simp [State.effect, Point.MarksInstance]
  | _ => simp [State.effect, Point.MarksInstance, write_eq]

/-- The instance is out of `deploying`, or the await takes it out. -/
def State.Undeploying (s : State) (w : Wake) : Prop :=
  s.instance_.status ≠ .deploying ∨
    s.point.MarksInstance ∧ w.applied = true ∧ s.instance_.deletedAt = none

theorem resume_of_created (h : s.point = .created) :
    s.resume w = { s with registered := true }.goto (s.after w) := by
  rw [State.resume, h]

theorem resume_of_ended (h : s.point = .ended) : s.resume w = s := by
  rw [State.resume, h]

theorem resume_of_awaiting (hcreated : s.point ≠ .created) (hended : s.point ≠ .ended) :
    s.resume w = (if w.applied then s.effect s.point else s).goto (s.after w) := by
  unfold State.resume
  split
  · contradiction
  · contradiction
  · rfl

theorem resume_status : (s.resume w).status = s.committed w.applied s.point.commit := by
  by_cases hcreated : s.point = .created
  · rw [resume_of_created hcreated, hcreated]
    rfl
  by_cases hended : s.point = .ended
  · rw [resume_of_ended hended, hended]
    rfl
  rw [resume_of_awaiting hcreated hended, ← effect_status]
  rfl

theorem aside_resume : Aside s (s.resume w) := by
  by_cases hcreated : s.point = .created
  · rw [resume_of_created hcreated]
    exact ⟨rfl, rfl, rfl⟩
  by_cases hended : s.point = .ended
  · rw [resume_of_ended hended]
    exact ⟨rfl, rfl, rfl⟩
  rw [resume_of_awaiting hcreated hended, State.goto]
  cases w.applied with
  | true =>
    have haside := aside_effect (s := s) s.point
    exact ⟨haside.calls, haside.cancelRequested, haside.deletedAt⟩
  | false => exact ⟨rfl, rfl, rfl⟩

theorem resume_instance :
    (s.resume w).instance_.status ≠ .deploying ↔ s.Undeploying w := by
  unfold State.Undeploying
  by_cases hcreated : s.point = .created
  · rw [resume_of_created hcreated, hcreated]
    simp [State.goto, Point.MarksInstance]
  by_cases hended : s.point = .ended
  · rw [resume_of_ended hended, hended]
    simp [Point.MarksInstance]
  rw [resume_of_awaiting hcreated hended, State.goto]
  cases w.applied with
  | true =>
    rw [if_pos rfl, effect_instance]
    simp
  | false => simp

theorem resume_point (h : s.point ≠ .ended) : (s.resume w).point = s.after w := by
  unfold State.resume
  split
  · rfl
  · contradiction
  · rfl

theorem quiet_congr {s' : State} (h : s'.calls = s.calls) : s'.Quiet ↔ s.Quiet := by
  rw [State.Quiet, State.Quiet, h]

/-- All other requests are off the way. -/
def State.QuietBut (s : State) (n : Nat) : Prop := ∀ m, m ≠ n → ¬(s.calls m).Pending

theorem setCall_self {c : Call} : (s.setCall n c).calls n = c := if_pos rfl

theorem setCall_of_ne {c : Call} {m : Nat} (h : m ≠ n) : (s.setCall n c).calls m = s.calls m :=
  if_neg h

theorem quiet_setCall {c : Call} : (s.setCall n c).Quiet ↔ ¬c.Pending ∧ s.QuietBut n := by
  constructor
  · intro h
    refine ⟨?_, ?_⟩
    · have hn := h n
      rwa [setCall_self] at hn
    · intro m hm
      have hm' := h m
      rwa [setCall_of_ne hm] at hm'
  · rintro ⟨hc, hothers⟩ m
    by_cases hm : m = n
    · rw [hm, setCall_self]
      exact hc
    · rw [setCall_of_ne hm]
      exact hothers m hm

theorem quiet_iff : s.Quiet ↔ ¬(s.calls n).Pending ∧ s.QuietBut n := by
  constructor
  · intro h
    exact ⟨h n, fun m _ => h m⟩
  · rintro ⟨hn, hothers⟩ m
    by_cases hm : m = n
    · exact hm ▸ hn
    · exact hothers m hm

theorem cancelDeploy_status :
    (s.cancelDeploy n r).status = s.committed r.applied (s.calls n).commit := by
  unfold State.cancelDeploy
  cases s.calls n with
  | idle =>
    rw [cancelDeployTask_eq]
    rfl
  | reading asked => cases r <;> rfl
  | committing asked read =>
    dsimp only
    rw [commit_eq]
    cases r <;> rfl
  | deleting asked =>
    dsimp only
    split <;> rfl
  | answered => rfl

theorem cancelDeploy_aside :
    (s.cancelDeploy n r).instance_ = s.instance_ ∧ (s.cancelDeploy n r).point = s.point := by
  unfold State.cancelDeploy
  cases s.calls n with
  | idle =>
    rw [cancelDeployTask_eq]
    exact ⟨rfl, rfl⟩
  | reading asked => cases r <;> exact ⟨rfl, rfl⟩
  | committing asked read =>
    dsimp only
    rw [commit_eq]
    cases r <;> exact ⟨rfl, rfl⟩
  | deleting asked =>
    dsimp only
    split <;> exact ⟨rfl, rfl⟩
  | answered => exact ⟨rfl, rfl⟩

/-- Only a request that is done with the record touches the namespace. -/
theorem cancelDeploy_namespaceThere :
    (s.cancelDeploy n r).namespaceThere = s.namespaceThere ↔
      ∀ asked, s.calls n = .deleting asked → r.applied = true → s.namespaceThere = false := by
  unfold State.cancelDeploy
  cases s.calls n with
  | idle =>
    rw [cancelDeployTask_eq]
    exact iff_of_true rfl fun _ h => by cases h
  | reading asked => cases r <;> exact iff_of_true rfl fun _ h => by cases h
  | committing asked read =>
    dsimp only
    rw [commit_eq]
    cases r <;> exact iff_of_true rfl fun _ h => by cases h
  | deleting asked =>
    dsimp only
    split
    · rename_i happlied
      constructor
      · exact fun h _ _ _ => h.symm
      · exact fun h => (h asked rfl happlied).symm
    · rename_i happlied
      exact iff_of_true rfl fun _ _ h => absurd h happlied
  | answered => exact iff_of_true rfl fun _ h => by cases h

/-- It leaves the record for good, whatever it has done there. -/
def Call.Over (r : Reply) : Call → Prop
  | .reading _ => ∃ applied, r = .raised applied
  | .committing _ _ => True
  | .idle | .deleting _ | .answered => False

theorem quietBut_congr {s' : State} (h : s'.calls = s.calls) : s'.QuietBut n ↔ s.QuietBut n := by
  rw [State.QuietBut, State.QuietBut, h]

theorem quiet_of_over (hover : (s.calls n).Over r) :
    (s.cancelDeploy n r).Quiet ↔ s.QuietBut n := by
  unfold State.cancelDeploy
  cases h : s.calls n with
  | reading asked =>
    rw [h] at hover
    obtain ⟨applied, rfl⟩ := hover
    exact quiet_setCall.trans (and_iff_right id)
  | committing asked read =>
    dsimp only
    rw [commit_eq]
    cases r <;> exact quiet_setCall.trans (and_iff_right id)
  | _ =>
    rw [h] at hover
    cases hover

theorem quiet_of_not_over (hover : ¬(s.calls n).Over r) (hquiet : (s.cancelDeploy n r).Quiet) :
    s.Quiet ∧ (s.calls n).commit = none := by
  unfold State.cancelDeploy at hquiet
  cases h : s.calls n with
  | idle =>
    rw [h] at hquiet
    exact absurd trivial (quiet_setCall.mp hquiet).1
  | reading asked =>
    rw [h] at hquiet hover
    cases r with
    | returned => exact absurd trivial (quiet_setCall.mp hquiet).1
    | raised applied => exact absurd ⟨applied, rfl⟩ hover
  | committing asked read =>
    rw [h] at hover
    exact absurd trivial hover
  | deleting asked =>
    rw [h] at hquiet
    have hcalls :
        (if r.applied then { s with namespaceThere := false } else s).calls = s.calls := by
      split <;> rfl
    rw [quiet_iff (n := n), h, ← quietBut_congr hcalls]
    exact ⟨⟨id, (quiet_setCall.mp hquiet).2⟩, rfl⟩
  | answered =>
    rw [h] at hquiet
    exact ⟨hquiet, rfl⟩

theorem settled_cancelDeploy (hs : Settled s) :
    Settled (s.cancelDeploy n r) ↔ ((s.calls n).Over r → s.point = .ended → s.QuietBut n →
      s.Marked (s.calls n).commit r.applied ∧ s.instance_.status ≠ .deploying) := by
  have hmarked : (s.committed r.applied (s.calls n).commit).Terminal ↔
      s.Marked (s.calls n).commit r.applied := committed_terminal (s.calls n).commit_terminal
  rw [Settled, cancelDeploy_aside.1, cancelDeploy_aside.2, cancelDeploy_status, hmarked]
  by_cases hover : (s.calls n).Over r
  · rw [quiet_of_over hover]
    exact ⟨fun h _ => h, fun h => h hover⟩
  · refine iff_of_true ?_ fun h => absurd h hover
    intro hended hquiet
    obtain ⟨hquiet, hnone⟩ := quiet_of_not_over hover hquiet
    rw [← hmarked, hnone]
    exact hs hended hquiet

theorem settled_resume (hs : Settled s) :
    Settled (s.resume w) ↔ (s.point ≠ .ended → s.after w = .ended → s.Quiet →
      s.Marked s.point.commit w.applied ∧ s.Undeploying w) := by
  by_cases hended : s.point = .ended
  · rw [resume_of_ended hended]
    exact iff_of_true hs fun h => absurd hended h
  · rw [Settled, resume_point hended, quiet_congr aside_resume.calls, resume_status, resume_instance,
      committed_terminal s.point.commit_terminal]
    exact ⟨fun h _ => h, fun h => h hended⟩

/-- What a step has to meet, the place it is taken from and how its await comes back. -/
def Sound (s : State) : Action → Prop
  | .pipeline w =>
    s.Free s.point.commit w.applied ∧
      (s.point ≠ .ended → s.after w = .ended → s.Quiet →
        s.Marked s.point.commit w.applied ∧ s.Undeploying w)
  | .cancel n r =>
    s.Free (s.calls n).commit r.applied ∧
      (∀ asked, s.calls n = .deleting asked → asked.Terminal → r.applied = true →
        s.namespaceThere = false) ∧
      ((s.calls n).Over r → s.point = .ended → s.QuietBut n →
        s.Marked (s.calls n).commit r.applied ∧ s.instance_.status ≠ .deploying)

theorem upholds_iff (hs : Settled s) (a : Action) : Upholds s a ↔ Sound s a := by
  cases a with
  | pipeline w =>
    rw [Sound, ← committed_eq_iff, ← settled_resume hs, ← resume_status]
    constructor
    · intro h
      exact ⟨h.absorbing, h.settled⟩
    · rintro ⟨habsorbing, hsettled⟩
      refine ⟨habsorbing, ?_, hsettled⟩
      rintro _ _ ⟨⟩
  | cancel n r =>
    rw [Sound, ← committed_eq_iff, ← settled_cancelDeploy hs, ← cancelDeploy_status]
    constructor
    · intro h
      refine ⟨h.absorbing, ?_, h.settled⟩
      intro asked hcall hterminal
      have hkept := (h.harmless n r rfl (by rwa [hcall])).1
      exact cancelDeploy_namespaceThere.mp hkept asked hcall
    · rintro ⟨habsorbing, hharmless, hsettled⟩
      refine ⟨habsorbing, ?_, hsettled⟩
      rintro _ _ ⟨⟩ hterminal
      refine ⟨cancelDeploy_namespaceThere.mpr ?_, cancelDeploy_aside.1⟩
      intro asked hcall
      rw [hcall] at hterminal
      exact hharmless asked hcall hterminal

theorem settled_launch {status : DeployStatus} {i : Instance} {namespaceThere : Bool}
    {replicas : Nat} : Settled (launch status i namespaceThere replicas) := by
  intro h
  cases h

/-- Every step of a run upholds what a deploy record promises just when every step is sound. -/
theorem upholds_iff_sound (status : DeployStatus) (i : Instance) (namespaceThere : Bool)
    (replicas : Nat) (as : List Action) :
    Run.Meets step Upholds (launch status i namespaceThere replicas) as ↔
      Run.Meets step Sound (launch status i namespaceThere replicas) as := by
  refine (Run.meets_iff_of_keeps (r := Settled) ?_ ?_ settled_launch as).symm
  · intro s a _ h
    exact h.settled
  · intro s a hs
    exact (upholds_iff hs a).symm

def deploying : Instance := ⟨"i", "e", "w", .deploying, none⟩

/-- Every await of the pipeline comes back, and the first poll finds the replica ready. -/
def deployed : List Action := List.replicate 14 (.pipeline (.returned 1 false))

/-- A request to cancel does not ask whether there is anything left to cancel. -/
theorem not_upholds_cancel_deployed : ¬∀ status i namespaceThere replicas as,
    Run.Meets step Upholds (launch status i namespaceThere replicas) as := by
  intro h
  have hrun := h .running deploying false 1 (deployed ++ List.replicate 3 (.cancel 0 .returned))
  rw [Run.meets_append] at hrun
  have hcommit := hrun.2.2.2.1.absorbing
  exact absurd (hcommit trivial) (by decide)

/-! A pipeline that nobody cancels. -/

/-- An exception finds the handler waiting, and did not come from a commit that went through. -/
def Orderly (s : State) : Action → Prop
  | .pipeline (.returned _ _) => True
  | .pipeline (.raised applied) =>
    match s.point with
    | .gateway | .failing | .committingFailure _ => False
    | .committing _ => applied = false
    | _ => True
  | .pipeline (.cancelled _) | .cancel _ _ => False

/-- What the record and the instance are like while the pipeline waits. -/
def Stage (status : DeployStatus) (i : InstanceStatus) : Point → Prop
  | .created | .gateway | .applying _ | .watching _ | .postReady | .failing => status = .running
  | .finishing => status = .running ∧ i ≠ .deploying
  | .committing read => status = .running ∧ i ≠ .deploying ∧ read = .running
  | .committingFailure read => status = .running ∧ read = .running
  | .tearingDown | .ended => status.Terminal ∧ i ≠ .deploying

structure Alone (s : State) : Prop where
  cancelRequested : s.cancelRequested = false
  quiet : s.Quiet
  live : s.instance_.deletedAt = none
  stage : Stage s.status s.instance_.status s.point

theorem Alone.stage_returned (h : Alone s) {readyReplicas : Nat} {pullFailed : Bool} :
    Stage (s.resume (.returned readyReplicas pullFailed)).status
      (s.resume (.returned readyReplicas pullFailed)).instance_.status
      (s.onReturned readyReplicas pullFailed) := by
  have hstage := h.stage
  have hinstance := resume_instance (s := s) (w := .returned readyReplicas pullFailed)
  rw [resume_status]
  unfold State.onReturned
  unfold State.Undeploying at hinstance
  cases hp : s.point with
  | created | gateway =>
    rw [hp] at hstage
    exact hstage
  | applying r =>
    rw [hp] at hstage
    cases r <;> exact hstage
  | watching left =>
    rw [hp] at hstage
    dsimp only
    split
    · exact hstage
    · split
      · exact hstage
      · cases left <;> exact hstage
  | postReady =>
    rw [hp] at hstage hinstance
    exact ⟨hstage, hinstance.mpr (.inr ⟨trivial, rfl, h.live⟩)⟩
  | finishing =>
    rw [hp] at hstage
    exact ⟨hstage.1, hinstance.mpr (.inl hstage.2), hstage.1⟩
  | committing read =>
    rw [hp] at hstage
    obtain ⟨_, hi, rfl⟩ := hstage
    exact ⟨trivial, hinstance.mpr (.inl hi)⟩
  | failing =>
    rw [hp] at hstage
    exact ⟨hstage, hstage⟩
  | committingFailure read =>
    rw [hp] at hstage hinstance
    obtain ⟨_, rfl⟩ := hstage
    exact ⟨trivial, hinstance.mpr (.inr ⟨trivial, rfl, h.live⟩)⟩
  | tearingDown | ended =>
    rw [hp] at hstage
    exact ⟨hstage.1, hinstance.mpr (.inl hstage.2)⟩

theorem Alone.stage_raised (h : Alone s) {applied : Bool}
    (ha : Orderly s (.pipeline (.raised applied))) :
    Stage (s.resume (.raised applied)).status (s.resume (.raised applied)).instance_.status
      s.point.onRaised := by
  have hstage := h.stage
  have hinstance := resume_instance (s := s) (w := .raised applied)
  unfold State.Undeploying at hinstance
  rw [resume_status]
  unfold Orderly at ha
  cases hp : s.point with
  | created | applying | watching | postReady =>
    rw [hp] at hstage
    exact hstage
  | finishing =>
    rw [hp] at hstage
    exact hstage.1
  | committing read =>
    rw [hp] at hstage ha
    obtain rfl := ha
    exact hstage.1
  | gateway | failing | committingFailure =>
    rw [hp] at ha
    cases ha
  | tearingDown | ended =>
    rw [hp] at hstage
    exact ⟨hstage.1, hinstance.mpr (.inl hstage.2)⟩

theorem Alone.stage_after (h : Alone s) (ha : Orderly s (.pipeline w)) :
    Stage (s.resume w).status (s.resume w).instance_.status (s.after w) := by
  unfold State.after
  rw [h.cancelRequested, if_neg Bool.false_ne_true]
  cases w with
  | returned readyReplicas pullFailed => exact h.stage_returned
  | raised applied => exact h.stage_raised ha
  | cancelled applied => cases ha

theorem Alone.not_terminal (h : Alone s) {c : Commit} (hc : s.point.commit = some c) :
    ¬s.status.Terminal := by
  have hstage := h.stage
  cases hp : s.point with
  | committing | committingFailure =>
    rw [hp] at hstage
    rw [hstage.1]
    exact id
  | _ =>
    rw [hp] at hc
    cases hc

theorem Alone.sound (h : Alone s) {a : Action} (ha : Orderly s a) : Sound s a := by
  cases a with
  | cancel n r => cases ha
  | pipeline w =>
    refine ⟨fun c hc _ _ hterminal => absurd hterminal (h.not_terminal hc), ?_⟩
    intro _ hafter _
    have hstage := h.stage_after ha
    rw [hafter] at hstage
    rw [← committed_terminal s.point.commit_terminal, ← resume_status, ← resume_instance]
    exact hstage

theorem Alone.step (h : Alone s) {a : Action} (ha : Orderly s a) : Alone (step s a) := by
  cases a with
  | cancel n r => cases ha
  | pipeline w =>
    by_cases hended : s.point = .ended
    · rw [Deploy.step, resume_of_ended hended]
      exact h
    · refine ⟨?_, ?_, ?_, ?_⟩
      · exact aside_resume.cancelRequested.trans h.cancelRequested
      · exact (quiet_congr aside_resume.calls).mpr h.quiet
      · exact aside_resume.deletedAt.trans h.live
      · rw [Deploy.step, resume_point hended]
        exact h.stage_after ha

theorem Alone.settled (h : Alone s) : Settled s := by
  intro hended _
  have hstage := h.stage
  rw [hended] at hstage
  exact hstage

theorem Alone.upholds (h : Alone s) {as : List Action} (has : Run.Meets Deploy.step Orderly s as) :
    Run.Meets Deploy.step Upholds s as := by
  induction as generalizing s with
  | nil => trivial
  | cons a as ih =>
    obtain ⟨ha, has⟩ := has
    exact ⟨(upholds_iff h.settled a).mpr (h.sound ha), ih (h.step ha) has⟩

/-- A pipeline that is left alone, and whose exceptions find the handler, ends as it should. -/
theorem upholds_of_orderly {i : Instance} (hlive : i.deletedAt = none) (namespaceThere : Bool)
    (replicas : Nat) (as : List Action)
    (has : Run.Meets step Orderly (launch .running i namespaceThere replicas) as) :
    Run.Meets step Upholds (launch .running i namespaceThere replicas) as := by
  have halone : Alone (launch .running i namespaceThere replicas) :=
    ⟨rfl, fun _ => id, hlive, rfl⟩
  exact halone.upholds has

end Eyot.Deploy
