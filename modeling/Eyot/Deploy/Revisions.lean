import Eyot.Deploy.Pipeline
import Eyot.Library.Run

/-! The deploys of one instance. A request to deploy makes a record and starts a pipeline; the
pipelines share the row of the instance and its namespace. No code takes a record out again. -/

namespace Eyot.Deploy

/-- A committed record with its pipeline, and the row of the instance if its session has read it. -/
structure DeployRecord where
  revision : Nat
  run : State
  row : Option Instance

/-- `deploy_existing_instance` at its awaits; a `flushed` record is not committed yet. -/
inductive Request where
  | idle
  | asking
  | inserting (revision : Nat)
  | flushed (revision : Nat)
  | answered
  deriving DecidableEq

structure World where
  instance_ : Instance
  namespaceThere : Bool
  deploys : List DeployRecord
  requests : List Request

def nextDeployRevision (w : World) : Nat :=
  match (w.deploys.map DeployRecord.revision).max? with
  | none => 1
  | some current => current + 1

def World.setRequest (w : World) (n : Nat) (q : Request) : World :=
  { w with requests := w.requests.set n q }

/-- The task is made right after the commit; after a commit that seems to have failed it is not. -/
def World.record (w : World) (revision replicas : Nat) (r : Reply) : World :=
  let run := launch .running w.instance_ w.namespaceThere replicas
  { w with deploys := w.deploys ++ [{
      revision := revision
      run := match r with
        | .returned => run
        | .raised _ => { run with point := .ended }
      row := none }] }

/-- The next await of request `n`. `uq_deploy_records_instance_revision` fails an insert whose
revision is committed, and lets it wait while another session has flushed it. -/
def World.deployExistingInstance (w : World) (n replicas : Nat) (r : Reply) : World :=
  match w.requests[n]? with
  | none | some .answered => w
  | some .idle =>
    match r with
    | .returned => w.setRequest n (if w.instance_.deletedAt.isNone then .asking else .answered)
    | .raised _ => w.setRequest n .answered
  | some .asking =>
    match r with
    | .returned => w.setRequest n (.inserting (nextDeployRevision w))
    | .raised _ => w.setRequest n .answered
  | some (.inserting revision) =>
    match r with
    | .returned =>
      if (w.deploys.map DeployRecord.revision).contains revision then w.setRequest n .answered
      else if w.requests.contains (Request.flushed revision) then w
      else w.setRequest n (.flushed revision)
    | .raised _ => w.setRequest n .answered
  | some (.flushed revision) =>
    let w' := if r.applied then w.record revision replicas r else w
    w'.setRequest n .answered

def World.lend (w : World) (d : DeployRecord) : State :=
  { d.run with
    instance_ := d.row.getD w.instance_
    namespaceThere := w.namespaceThere }

/-- A column is only written when it differs from what was read. -/
def World.takeBack (w : World) (before after : State) : World :=
  { w with
    instance_ :=
      if after.instance_.status = before.instance_.status then w.instance_
      else { w.instance_ with status := after.instance_.status }
    namespaceThere := after.namespaceThere }

def DeployRecord.moved (d : DeployRecord) (run : State) : Action → DeployRecord
  | .pipeline _ => { d with run := run, row := none }
  | .cancel _ _ => { d with run := run }

def World.turn (w : World) (k : Nat) (a : Action) : World :=
  match w.deploys[k]? with
  | none => w
  | some d =>
    let before := w.lend d
    let after := step before a
    let w' := w.takeBack before after
    { w' with deploys := w'.deploys.set k (d.moved after a) }

def Point.mark : Point → Option InstanceStatus
  | .postReady => some .running
  | .committingFailure _ => some .failed
  | _ => none

/-- The session that is going to write the row reads it, once; what is not read before is read
right before the commit. -/
def World.read (w : World) (k : Nat) : World :=
  match w.deploys[k]? with
  | none => w
  | some d =>
    if d.run.point.mark.isSome && d.row.isNone then
      { w with deploys := w.deploys.set k { d with row := some w.instance_ } }
    else w

/-- `elsewhere` is for the other writers of the row and of the namespace. -/
inductive Move where
  | arrive
  | request (n replicas : Nat) (r : Reply)
  | read (k : Nat)
  | turn (k : Nat) (a : Action)
  | elsewhere (i : Instance) (namespaceThere : Bool)

def World.step (w : World) : Move → World
  | .arrive => { w with requests := w.requests ++ [.idle] }
  | .request n replicas r => w.deployExistingInstance n replicas r
  | .read k => w.read k
  | .turn k a => w.turn k a
  | .elsewhere i namespaceThere => { w with instance_ := i, namespaceThere := namespaceThere }

def World.start (i : Instance) (namespaceThere : Bool) : World where
  instance_ := i
  namespaceThere := namespaceThere
  deploys := []
  requests := []

/-! Revisions. -/

variable {w : World} {n k revision replicas : Nat} {r : Reply}

def World.revisions (w : World) : List Nat := w.deploys.map DeployRecord.revision

/-- The records count up from one, and at most one request has flushed the next of them. -/
structure Numbered (w : World) : Prop where
  records : w.revisions = List.range' 1 w.deploys.length
  inserting : ∀ n revision : Nat, w.requests[n]? = some (Request.inserting revision) →
    1 ≤ revision ∧ revision ≤ w.deploys.length + 1
  flushed : ∀ n revision : Nat, w.requests[n]? = some (Request.flushed revision) →
    revision = w.deploys.length + 1
  requests : ∀ n m revision : Nat, w.requests[n]? = some (Request.flushed revision) →
    w.requests[m]? = some (Request.flushed revision) → n = m

theorem Numbered.nodup (h : Numbered w) : w.revisions.Nodup := by
  rw [h.records]
  exact List.nodup_range'

theorem Numbered.nextDeployRevision (h : Numbered w) :
    nextDeployRevision w = w.deploys.length + 1 := by
  have hmax : (w.deploys.map DeployRecord.revision).max? =
      if w.deploys.length = 0 then none else some w.deploys.length := by
    refine (congrArg List.max? h.records).trans ?_
    split
    · rename_i hlength
      rw [hlength]
      rfl
    · rw [List.max?_eq_some_iff]
      simp only [List.mem_range'_1]
      exact ⟨by omega, fun b hb => by omega⟩
  rw [Deploy.nextDeployRevision, hmax]
  split
  · rename_i hlength
    split at hlength
    · omega
    · cases hlength
  · rename_i current hlength
    split at hlength
    · cases hlength
    · rw [Option.some.inj hlength]

theorem getElem?_set_cases {qs : List Request} {q q' : Request} {m : Nat}
    (h : (qs.set n q)[m]? = some q') : m = n ∧ q' = q ∨ m ≠ n ∧ qs[m]? = some q' := by
  rw [List.getElem?_set] at h
  split at h
  · rename_i hn
    split at h
    · exact .inl ⟨hn.symm, (Option.some.inj h).symm⟩
    · cases h
  · rename_i hne
    exact .inr ⟨Ne.symm hne, h⟩

/-- A request that flushes nothing is in nobody's way. -/
theorem Numbered.setRequest (h : Numbered w) {q : Request}
    (hflushed : ∀ revision, q ≠ .flushed revision)
    (hinserting : ∀ revision, q = .inserting revision →
      1 ≤ revision ∧ revision ≤ w.deploys.length + 1) : Numbered (w.setRequest n q) := by
  have hbefore : ∀ {m revision : Nat}, (w.requests.set n q)[m]? = some (Request.flushed revision) →
      w.requests[m]? = some (Request.flushed revision) := by
    intro m revision hset
    obtain ⟨_, hq⟩ | ⟨_, hm⟩ := getElem?_set_cases hset
    · exact absurd hq.symm (hflushed revision)
    · exact hm
  refine ⟨h.records, ?_, ?_, ?_⟩
  · intro m revision hset
    obtain ⟨_, hq⟩ | ⟨_, hm⟩ := getElem?_set_cases hset
    · exact hinserting revision hq.symm
    · exact h.inserting m revision hm
  · exact fun m revision hset => h.flushed m revision (hbefore hset)
  · exact fun m m' revision hset hset' => h.requests m m' revision (hbefore hset) (hbefore hset')

theorem Numbered.answer (h : Numbered w) : Numbered (w.setRequest n .answered) :=
  h.setRequest nofun nofun

theorem Numbered.flush (h : Numbered w) (hn : w.requests[n]? = some (Request.inserting revision))
    (hrecords : revision ∉ w.revisions) (hrequests : Request.flushed revision ∉ w.requests) :
    Numbered (w.setRequest n (.flushed revision)) := by
  have hnext : revision = w.deploys.length + 1 := by
    have hbounds := h.inserting n revision hn
    rw [h.records, List.mem_range'_1] at hrecords
    omega
  refine ⟨h.records, ?_, ?_, ?_⟩
  · intro m revision' hset
    obtain ⟨_, hq⟩ | ⟨_, hm⟩ := getElem?_set_cases hset
    · cases hq
    · exact h.inserting m revision' hm
  · intro m revision' hset
    obtain ⟨_, hq⟩ | ⟨_, hm⟩ := getElem?_set_cases hset
    · cases hq
      exact hnext
    · exact h.flushed m revision' hm
  · intro m m' revision' hset hset'
    obtain ⟨hn, hq⟩ | ⟨_, hm⟩ := getElem?_set_cases hset
    · cases hq
      obtain ⟨hn', _⟩ | ⟨_, hm'⟩ := getElem?_set_cases hset'
      · exact hn.trans hn'.symm
      · exact absurd (List.mem_of_getElem? hm') hrequests
    · obtain ⟨_, hq'⟩ | ⟨_, hm'⟩ := getElem?_set_cases hset'
      · cases hq'
        exact absurd (List.mem_of_getElem? hm) hrequests
      · exact h.requests m m' revision' hm hm'

/-- The record that was flushed is committed, and its request over. -/
theorem Numbered.record (h : Numbered w) (hn : w.requests[n]? = some (Request.flushed revision)) :
    Numbered ((w.record revision replicas r).setRequest n .answered) := by
  have hlength : ((w.record revision replicas r).setRequest n .answered).deploys.length =
      w.deploys.length + 1 := List.length_append
  have hothers : ∀ {m revision' : Nat},
      (w.requests.set n Request.answered)[m]? ≠ some (Request.flushed revision') := by
    intro m revision' hset
    obtain ⟨_, hq⟩ | ⟨hne, hm⟩ := getElem?_set_cases hset
    · cases hq
    · rw [h.flushed m revision' hm] at hm
      rw [h.flushed n revision hn] at hn
      exact hne (h.requests m n _ hm hn)
  refine ⟨?_, ?_, fun m revision' hset => absurd hset hothers,
    fun m _ revision' hset => absurd hset hothers⟩
  · rw [hlength, List.range'_1_concat, ← h.records, Nat.add_comm 1, ← h.flushed n revision hn]
    exact List.map_append
  · intro m revision' hset
    rw [hlength]
    obtain ⟨_, hq⟩ | ⟨_, hm⟩ := getElem?_set_cases hset
    · cases hq
    · have hbounds := h.inserting m revision' hm
      omega

theorem Numbered.deployExistingInstance (h : Numbered w) :
    Numbered (w.deployExistingInstance n replicas r) := by
  unfold World.deployExistingInstance
  split
  · exact h
  · exact h
  · cases r with
    | returned =>
      dsimp only
      split
      · exact h.setRequest nofun nofun
      · exact h.answer
    | raised applied => exact h.answer
  · cases r with
    | returned =>
      refine h.setRequest nofun ?_
      rintro _ ⟨⟩
      rw [h.nextDeployRevision]
      omega
    | raised applied => exact h.answer
  · rename_i revision hn
    cases r with
    | returned =>
      dsimp only
      split
      · exact h.answer
      · rename_i hrecords
        split
        · exact h
        · rename_i hrequests
          rw [List.contains_iff_mem] at hrecords hrequests
          exact h.flush hn hrecords hrequests
    | raised applied => exact h.answer
  · rename_i revision hn
    dsimp only
    split
    · exact h.record hn
    · exact h.answer

theorem Numbered.of_eq {w' : World} (h : Numbered w) (hrevisions : w'.revisions = w.revisions)
    (hrequests : w'.requests = w.requests) : Numbered w' := by
  have hlength : w'.deploys.length = w.deploys.length := by
    have hmapped := congrArg List.length hrevisions
    rwa [World.revisions, World.revisions, List.length_map, List.length_map] at hmapped
  obtain ⟨hrecords, hinserting, hflushed, hunique⟩ := h
  refine ⟨?_, ?_, ?_, ?_⟩
  · rw [hrevisions, hlength, hrecords]
  · rw [hrequests, hlength]
    exact hinserting
  · rw [hrequests, hlength]
    exact hflushed
  · rw [hrequests]
    exact hunique

theorem map_revision_set {ds : List DeployRecord} {d d' : DeployRecord} (hd : ds[k]? = some d)
    (hrevision : d'.revision = d.revision) :
    (ds.set k d').map DeployRecord.revision = ds.map DeployRecord.revision := by
  apply List.ext_getElem?
  intro m
  rw [List.getElem?_map, List.getElem?_map, List.getElem?_set]
  split
  · rename_i hm
    obtain ⟨hk, rfl⟩ := List.getElem?_eq_some_iff.mp hd
    subst hm
    rw [if_pos hk, List.getElem?_eq_getElem hk, Option.map_some, Option.map_some, hrevision]
  · rfl

theorem revisions_turn (a : Action) : (w.turn k a).revisions = w.revisions := by
  unfold World.turn
  split
  · rfl
  · rename_i d hd
    apply map_revision_set hd
    cases a <;> rfl

theorem revisions_read : (w.read k).revisions = w.revisions := by
  unfold World.read
  split
  · rfl
  · rename_i d hd
    split
    · exact map_revision_set hd rfl
    · rfl

theorem requests_turn (a : Action) : (w.turn k a).requests = w.requests := by
  unfold World.turn
  split <;> rfl

theorem requests_read : (w.read k).requests = w.requests := by
  unfold World.read
  split
  · rfl
  · split <;> rfl

theorem Numbered.arrive (h : Numbered w) : Numbered (w.step .arrive) := by
  have hbefore : ∀ {m : Nat} {q : Request}, q ≠ .idle →
      (w.requests ++ [Request.idle])[m]? = some q → w.requests[m]? = some q := by
    intro m q hq hm
    rw [List.getElem?_append] at hm
    split at hm
    · exact hm
    · exact absurd (List.mem_singleton.mp (List.mem_of_getElem? hm)) hq
  refine ⟨h.records, ?_, ?_, ?_⟩
  · exact fun m revision hm => h.inserting m revision (hbefore nofun hm)
  · exact fun m revision hm => h.flushed m revision (hbefore nofun hm)
  · exact fun m m' revision hm hm' =>
      h.requests m m' revision (hbefore nofun hm) (hbefore nofun hm')

theorem Numbered.step (h : Numbered w) (m : Move) : Numbered (w.step m) := by
  cases m with
  | arrive => exact h.arrive
  | request n replicas r => exact h.deployExistingInstance
  | read k => exact h.of_eq revisions_read requests_read
  | turn k a => exact h.of_eq (revisions_turn a) (requests_turn a)
  | elsewhere i namespaceThere => exact ⟨h.records, h.inserting, h.flushed, h.requests⟩

end Eyot.Deploy
