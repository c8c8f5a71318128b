import Eyot.Deploy.Revisions
import Eyot.Deploy.Settling

/-! What the end of an older deploy does to an instance that a newer one has taken over. -/

namespace Eyot.Deploy

variable {w : World} {k : Nat} {d : DeployRecord} {a : Action}

/-- Its pipeline is running, or has succeeded. -/
def DeployRecord.Live (d : DeployRecord) : Prop :=
  d.run.status = .success ∨ d.run.status = .running ∧ d.run.point ≠ .ended

instance : DecidablePred DeployRecord.Live := fun d =>
  inferInstanceAs (Decidable
    (d.run.status = .success ∨ d.run.status = .running ∧ d.run.point ≠ .ended))

def World.Superseded (w : World) (d : DeployRecord) : Prop :=
  ∃ d' ∈ w.deploys, d.revision < d'.revision ∧ d'.Live

instance (w : World) : DecidablePred w.Superseded := fun d =>
  inferInstanceAs (Decidable (∃ d' ∈ w.deploys, d.revision < d'.revision ∧ d'.Live))

/-- A deploy that has been overtaken neither takes the namespace away nor marks the instance. -/
def Spares (w : World) (m : Move) : Prop :=
  ∀ k a d, m = .turn k a → w.deploys[k]? = some d → w.Superseded d →
    (w.namespaceThere = true → (w.step m).namespaceThere = true) ∧
      ((w.step m).instance_.status = .failed → w.instance_.status = .failed)

/-- The call that deletes the namespace goes through. -/
def State.Deletes (s : State) : Action → Prop
  | .pipeline wake => s.point = .tearingDown ∧ wake.applied = true
  | .cancel n r => (∃ asked, s.calls n = .deleting asked) ∧ r.applied = true

/-- The commit of a failure goes through, and finds the instance live. -/
def State.Fails (s : State) : Action → Prop
  | .pipeline wake =>
    s.point.mark = some .failed ∧ wake.applied = true ∧ s.instance_.deletedAt = none ∧
      s.instance_.status ≠ .failed
  | .cancel _ _ => False

/-- An overtaken deploy has nothing left to delete, and nothing to mark. -/
def Harmless (w : World) : Move → Prop
  | .turn k a => ∀ d, w.deploys[k]? = some d → w.Superseded d →
      (d.run.Deletes a → w.namespaceThere = false) ∧
        ((w.lend d).Fails a → w.instance_.status = .failed)
  | _ => True

section Step

variable {s : State} {wake : Wake}

theorem markInstance_status (status : InstanceStatus) :
    (s.markInstance status).instance_.status =
      if s.instance_.deletedAt = none then status else s.instance_.status := by
  rw [markInstance_eq]
  simp only [Option.isNone_iff_eq_none]

theorem effect_mark (p : Point) :
    (s.effect p).instance_.status =
      (if s.instance_.deletedAt = none then p.mark else none).getD s.instance_.status := by
  cases p with
  | postReady =>
    rw [State.effect, markInstance_status]
    split <;> rfl
  | committingFailure read =>
    rw [State.effect, markInstance_status, write_eq]
    dsimp only
    split <;> rfl
  | committing read =>
    rw [State.effect, write_eq]
    dsimp only [Point.mark]
    split <;> rfl
  | applying r => cases r <;> (dsimp only [State.effect, Point.mark]; split <;> rfl)
  | _ =>
    dsimp only [State.effect, Point.mark]
    split <;> rfl

theorem resume_mark :
    (s.resume wake).instance_.status =
      (if wake.applied = true ∧ s.instance_.deletedAt = none then s.point.mark
        else none).getD s.instance_.status := by
  by_cases hcreated : s.point = .created
  · rw [resume_of_created hcreated, hcreated]
    dsimp only [Point.mark]
    split <;> rfl
  by_cases hended : s.point = .ended
  · rw [resume_of_ended hended, hended]
    dsimp only [Point.mark]
    split <;> rfl
  rw [resume_of_awaiting hcreated hended, State.goto]
  cases wake.applied with
  | true =>
    rw [if_pos rfl, effect_mark]
    simp only [true_and]
  | false => simp

theorem effect_namespaceThere (hthere : s.namespaceThere = true) (p : Point) :
    (s.effect p).namespaceThere = true ↔ p ≠ .tearingDown := by
  cases p with
  | tearingDown => simp [State.effect]
  | applying r => cases r <;> simp [State.effect, hthere]
  | postReady | committingFailure | committing =>
    simp [State.effect, markInstance_eq, write_eq, hthere]
  | _ => simp [State.effect, hthere]

theorem step_namespaceThere (hthere : s.namespaceThere = true) :
    (step s a).namespaceThere = true ↔ ¬s.Deletes a := by
  cases a with
  | pipeline wake =>
    rw [step, State.Deletes]
    by_cases hcreated : s.point = .created
    · rw [resume_of_created hcreated, hcreated]
      simp [State.goto, hthere]
    by_cases hended : s.point = .ended
    · rw [resume_of_ended hended, hended]
      simp [hthere]
    rw [resume_of_awaiting hcreated hended, State.goto]
    cases wake.applied with
    | true => simp [effect_namespaceThere hthere]
    | false => simp [hthere]
  | cancel n r =>
    have hkept := cancelDeploy_namespaceThere (s := s) (n := n) (r := r)
    rw [hthere] at hkept
    rw [step, hkept, State.Deletes, not_and, forall_exists_index]
    simp

theorem step_failed :
    (step s a).instance_.status ≠ s.instance_.status ∧ (step s a).instance_.status = .failed ↔
      s.Fails a := by
  cases a with
  | pipeline wake =>
    rw [step, resume_mark, State.Fails]
    split
    · rename_i h
      cases s.point.mark with
      | none => simp
      | some status =>
        rw [Option.getD_some, Option.some.injEq]
        constructor
        · rintro ⟨hne, rfl⟩
          exact ⟨rfl, h.1, h.2, hne.symm⟩
        · rintro ⟨rfl, _, _, hne⟩
          exact ⟨hne.symm, rfl⟩
    · rename_i h
      rw [Option.getD_none]
      exact iff_of_false (fun hne => hne.1 rfl) fun hfails => h ⟨hfails.2.1, hfails.2.2.1⟩
  | cancel n r =>
    rw [step, cancelDeploy_aside.1]
    exact iff_of_false (fun hne => hne.1 rfl) id

end Step

theorem turn_eq (hd : w.deploys[k]? = some d) (a : Action) :
    (w.turn k a).namespaceThere = (step (w.lend d) a).namespaceThere ∧
      (w.turn k a).instance_ = (w.takeBack (w.lend d) (step (w.lend d) a)).instance_ := by
  unfold World.turn
  rw [hd]
  exact ⟨rfl, rfl⟩

theorem takeBack_failed {before after : State} :
    (w.takeBack before after).instance_.status = .failed ↔
      if after.instance_.status = before.instance_.status then w.instance_.status = .failed
      else after.instance_.status = .failed := by
  unfold World.takeBack
  split <;> rfl

theorem turn_spares (hd : w.deploys[k]? = some d) :
    (w.namespaceThere = true → (w.turn k a).namespaceThere = true) ∧
        ((w.turn k a).instance_.status = .failed → w.instance_.status = .failed) ↔
      (d.run.Deletes a → w.namespaceThere = false) ∧
        ((w.lend d).Fails a → w.instance_.status = .failed) := by
  rw [(turn_eq hd a).1, (turn_eq hd a).2, takeBack_failed]
  apply and_congr
  · have hdeletes : (w.lend d).Deletes a ↔ d.run.Deletes a := by cases a <;> rfl
    cases hthere : w.namespaceThere with
    | false => exact iff_of_true nofun fun _ => rfl
    | true =>
      have hstep := step_namespaceThere (s := w.lend d) (a := a) hthere
      simp only [hstep, hdeletes, true_imp_iff, Bool.true_eq_false, imp_false]
  · rw [← step_failed]
    split
    · rename_i heq
      exact iff_of_true id fun h => absurd heq h.1
    · rename_i hne
      simp only [ne_eq, hne, not_false_eq_true, true_and]

theorem spares_iff_harmless (m : Move) : Spares w m ↔ Harmless w m := by
  cases m with
  | turn k a =>
    constructor
    · intro h d hd hsuperseded
      exact (turn_spares hd).mp (h k a d rfl hd hsuperseded)
    · rintro h _ _ d ⟨⟩ hd hsuperseded
      exact (turn_spares hd).mpr (h d hd hsuperseded)
  | _ =>
    refine iff_of_true ?_ trivial
    rintro _ _ _ ⟨⟩

def DeployRecord.AtRest (d : DeployRecord) : Prop :=
  d.run.point = .ended ∧ ∀ n, d.run.calls n = .idle ∨ d.run.calls n = .answered

/-- A record is committed when those before it are at rest, and only the last one is cancelled. -/
def InTurn (w : World) : Move → Prop
  | .request n _ _ => ∀ revision, w.requests[n]? = some (Request.flushed revision) →
      ∀ d ∈ w.deploys, d.AtRest
  | .turn k (.cancel _ _) => w.deploys.length ≤ k + 1
  | _ => True

def Solo (w : World) : Prop :=
  ∀ (k : Nat) d, w.deploys[k]? = some d → k + 1 < w.deploys.length → d.AtRest

theorem Numbered.revision_eq (hw : Numbered w) (hd : w.deploys[k]? = some d) :
    d.revision = k + 1 := by
  have hk : w.revisions[k]? = some d.revision := by
    rw [World.revisions, List.getElem?_map, hd, Option.map_some]
  rw [hw.records, List.getElem?_eq_some_iff] at hk
  obtain ⟨_, hrevision⟩ := hk
  rw [List.getElem_range'] at hrevision
  omega

/-- Who has been overtaken is not the last. -/
theorem Numbered.lt_of_superseded (hw : Numbered w) (hd : w.deploys[k]? = some d)
    (h : w.Superseded d) : k + 1 < w.deploys.length := by
  obtain ⟨d', hmem, hlt, _⟩ := h
  obtain ⟨k', hk', rfl⟩ := List.getElem_of_mem hmem
  rw [hw.revision_eq hd, hw.revision_eq (List.getElem?_eq_getElem hk')] at hlt
  omega

theorem Solo.harmless (h : Solo w) (hw : Numbered w) (m : Move) : Harmless w m := by
  cases m with
  | turn k a =>
    intro d hd hsuperseded
    obtain ⟨hended, hcalls⟩ := h k d hd (hw.lt_of_superseded hd hsuperseded)
    cases a with
    | pipeline wake =>
      refine ⟨fun hdeletes => ?_, fun hfails => ?_⟩
      · rw [State.Deletes, hended] at hdeletes
        cases hdeletes.1
      · have hmark : d.run.point.mark = some .failed := hfails.1
        rw [hended] at hmark
        cases hmark
    | cancel n r =>
      refine ⟨fun hdeletes => ?_, nofun⟩
      obtain ⟨⟨asked, hdeleting⟩, _⟩ := hdeletes
      obtain hidle | hanswered := hcalls n
      · rw [hidle] at hdeleting
        cases hdeleting
      · rw [hanswered] at hdeleting
        cases hdeleting
  | _ => trivial

theorem Solo.set {d' : DeployRecord} {w' : World} (h : Solo w)
    (hdeploys : w'.deploys = w.deploys.set k d')
    (hrest : k + 1 < w.deploys.length → d'.AtRest) : Solo w' := by
  intro j e he hj
  rw [hdeploys] at he hj
  rw [List.length_set] at hj
  rw [List.getElem?_set] at he
  split at he
  · rename_i hkj
    subst hkj
    split at he
    · cases he
      exact hrest hj
    · cases he
  · exact h j e he hj

theorem Solo.turn (h : Solo w) (ha : InTurn w (.turn k a)) : Solo (w.turn k a) := by
  unfold World.turn
  split
  · exact h
  · rename_i d hd
    refine h.set rfl ?_
    intro hk
    cases a with
    | pipeline wake =>
      have hrest := h k d hd hk
      have hkept : (w.lend d).resume wake = w.lend d := resume_of_ended hrest.1
      exact ⟨(congrArg State.point hkept).trans hrest.1, fun n => by
        rw [DeployRecord.moved, step, hkept]
        exact hrest.2 n⟩
    | cancel n r => exact absurd hk (Nat.not_lt.mpr ha)

theorem Solo.read (h : Solo w) : Solo (w.read k) := by
  unfold World.read
  split
  · exact h
  · rename_i d hd
    split
    · exact h.set rfl (h k d hd)
    · exact h

/-- A request adds a record when it commits what it has flushed. -/
theorem deployExistingInstance_deploys (n replicas : Nat) (r : Reply) :
    (w.deployExistingInstance n replicas r).deploys = w.deploys ∨
      ∃ revision d, w.requests[n]? = some (Request.flushed revision) ∧
        (w.deployExistingInstance n replicas r).deploys = w.deploys ++ [d] := by
  unfold World.deployExistingInstance
  split
  · exact .inl rfl
  · exact .inl rfl
  · cases r <;> exact .inl rfl
  · cases r <;> exact .inl rfl
  · cases r with
    | returned =>
      dsimp only
      split
      · exact .inl rfl
      · split <;> exact .inl rfl
    | raised applied => exact .inl rfl
  · rename_i revision hn
    dsimp only
    split
    · exact .inr ⟨revision, _, hn, rfl⟩
    · exact .inl rfl

theorem Solo.step (h : Solo w) {m : Move} (hm : InTurn w m) : Solo (w.step m) := by
  cases m with
  | arrive | elsewhere i namespaceThere => exact h
  | request n replicas r =>
    obtain hsame | ⟨revision, d, hn, hadded⟩ := deployExistingInstance_deploys (w := w) n replicas r
    · intro k e he hk
      rw [World.step, hsame] at he hk
      exact h k e he hk
    · intro k e he hk
      rw [World.step, hadded] at he hk
      rw [List.length_append, List.length_singleton] at hk
      rw [List.getElem?_append_left (by omega)] at he
      exact hm revision hn e (List.mem_of_getElem? he)
  | read k => exact h.read
  | turn k a => exact h.turn hm

/-- Deploys that are made one after the other leave each other alone. -/
theorem spares_of_inTurn (hw : Numbered w) (h : Solo w) {ms : List Move}
    (hms : Run.Meets World.step InTurn w ms) : Run.Meets World.step Spares w ms := by
  induction ms generalizing w with
  | nil => trivial
  | cons m ms ih =>
    obtain ⟨hm, hms⟩ := hms
    exact ⟨(spares_iff_harmless m).mpr (h.harmless hw m), ih (hw.step m) (h.step hm) hms⟩

end Eyot.Deploy
