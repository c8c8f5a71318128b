import Eyot.Library.Run
import Eyot.Topology.Messaging

/-! Which runs of the messaging API keep the passage graph of a workspace a forest. -/

namespace Eyot.Topology

open Links

theorem commit_eq_ok {ctx : Context} {db db' : Db} {passages : Table Passage.id}
    (h : commit ctx db passages = .ok db') :
    db'.passages = passages ∧ db'.memberships = db.memberships ∧ db'.instances = db.instances := by
  unfold commit at h
  split at h
  · cases h
  · split at h
    · cases h
      exact ⟨rfl, rfl, rfl⟩
    · cases h

def edgeTaken (db : Db) (p : Passage) : Bool :=
  p.edgeKey ∈ (db.passages.rows.filter Passage.isLive).map Passage.edgeKey

/-- The inactive row a request puts back into the graph, as it would be stored. -/
def reactivated (db : Db) (req : Request) : Option Passage :=
  match req.call with
  | .createPassage body =>
    let (fromId, toId) := normalizeEndpoints body.fromMembershipId body.toMembershipId
    if hasMembership db fromId && hasMembership db toId then
      ((existingPassage req.ctx db body.workspaceId fromId toId).filter
        fun p => p.deletedAt.isSome).map (revive fromId toId)
    else none
  | .updatePassage passageId body =>
    ((db.passages.find? passageId).filter
      fun p => p.deletedAt.isNone && !p.isActive && body.isActive = some (some true)).map
        (setFields true body.edgeMeta)
  | _ => none

/-- The database takes `p` as an active row. -/
def storable (ctx : Context) (db : Db) (p : Passage) : Bool :=
  !ctx.connectionLost && !edgeTaken db p

/-- A row that comes back into the graph of the workspace, and that the database takes, passes
the check a new row has to pass. -/
def ReactivationChecked (workspaceId : Id) (db : Db) (req : Request) : Prop :=
  ∀ p, reactivated db req = some p → p.workspaceId = workspaceId → storable req.ctx db p = true →
    checkAcyclic workspaceId db.passages.rows p.fromMembershipId p.toMembershipId = true

instance (workspaceId : Id) (db : Db) (req : Request) :
    Decidable (ReactivationChecked workspaceId db req) :=
  decidable_of_iff (∀ p ∈ reactivated db req, p.workspaceId = workspaceId →
    storable req.ctx db p = true →
      checkAcyclic workspaceId db.passages.rows p.fromMembershipId p.toMembershipId = true) Iff.rfl

theorem uniqueActiveEdge_enter {p q : Passage} (hp : p.isLive = false) (hq : q.isLive = true)
    (l₁ l₂ : List Passage) :
    Passage.UniqueActiveEdge (l₁ ++ q :: l₂) ↔
      Passage.UniqueActiveEdge (l₁ ++ p :: l₂) ∧
        q.edgeKey ∉ ((l₁ ++ p :: l₂).filter Passage.isLive).map Passage.edgeKey := by
  unfold Passage.UniqueActiveEdge
  rw [List.filter_append, List.filter_append, List.filter_cons_of_pos hq,
    List.filter_cons_of_neg (by simp [hp]), List.map_append, List.map_append, List.map_cons,
    List.nodup_middle, List.nodup_cons]
  exact and_comm

/-- What a commit does that would bring row `r` back as `f r`. -/
theorem commit_return (ctx : Context) {db : Db} {r : Passage} {f : Passage → Passage}
    (hf : ∀ p, (f p).id = p.id) (hr : r ∈ db.passages.rows) (hlive : r.isLive = false)
    (hq : (f r).isLive = true) (hws : (f r).workspaceId = r.workspaceId) :
    ((ctx.connectionLost = true ∨ edgeTaken db (f r) = true) ∧
        ∃ e, commit ctx db (db.passages.update r.id f hf) = .error e) ∨
      ctx.connectionLost = false ∧ edgeTaken db (f r) = false ∧
        ∃ db', commit ctx db (db.passages.update r.id f hf) = .ok db' ∧
          ∀ ws, if r.workspaceId = ws
            then (links ws db'.passages.rows).Perm (link (f r) :: links ws db.passages.rows)
            else links ws db'.passages.rows = links ws db.passages.rows := by
  obtain ⟨l₁, l₂, hold, hnew⟩ := db.passages.update_rows hr f hf
  have hunique := uniqueActiveEdge_enter hlive hq l₁ l₂
  rw [← hnew, ← hold] at hunique
  unfold commit edgeTaken
  cases hlost : ctx.connectionLost with
  | true => exact .inl ⟨.inl rfl, .connectionLost, rfl⟩
  | false =>
    by_cases htaken : (f r).edgeKey ∈ (db.passages.rows.filter Passage.isLive).map Passage.edgeKey
    · refine .inl ⟨.inr (by simpa using htaken), .integrityError, ?_⟩
      rw [if_neg (by simp), dif_neg fun h => (hunique.mp h).2 htaken]
    · refine .inr ⟨rfl, by simpa using htaken, ?_⟩
      rw [if_neg (by simp), dif_pos (hunique.mpr ⟨db.uniqueActiveEdge, htaken⟩)]
      refine ⟨_, rfl, fun ws => ?_⟩
      change if r.workspaceId = ws
        then (links ws (db.passages.update r.id f hf).rows).Perm _
        else links ws (db.passages.update r.id f hf).rows = _
      rw [hnew, hold]
      split
      · rename_i h
        exact links_enter (by simp [inGraph, hlive]) (by simp [inGraph, hq, hws, h]) l₁ l₂
      · rename_i h
        rw [links_append, links_append, links_cons_of_not_inGraph (by simp [inGraph, hws, h]),
          links_cons_of_not_inGraph (by simp [inGraph, h])]

/-- All that one request can do to the graph of a workspace. -/
inductive StepLinks (ws : Id) (db : Db) (req : Request) : Prop
  | fewer (h : (links ws (step db req).passages.rows).Sublist (links ws db.passages.rows))
      (hnone : ∀ p, reactivated db req = some p → p.workspaceId = ws → storable req.ctx db p = false)
  | joined (p : Passage) (hnone : reactivated db req = none)
      (hcheck : checkAcyclic ws db.passages.rows p.fromMembershipId p.toMembershipId = true)
      (h : (links ws (step db req).passages.rows).Perm (link p :: links ws db.passages.rows))
  | returned (p : Passage) (hsome : reactivated db req = some p) (hws : p.workspaceId = ws)
      (hstore : storable req.ctx db p = true)
      (h : (links ws (step db req).passages.rows).Perm (link p :: links ws db.passages.rows))

theorem StepLinks.of_error {ws : Id} {db : Db} {req : Request} {e : Failure}
    (h : handle db req = .error e)
    (hnone : ∀ p, reactivated db req = some p → p.workspaceId = ws → storable req.ctx db p = false) :
    StepLinks ws db req := by
  have hstep : step db req = db := by simp [step, h]
  exact .fewer (by rw [hstep]) hnone

/-- A request that would bring `r` back as `f r`, and does no more. -/
theorem StepLinks.of_return {ws : Id} {db : Db} {req : Request} {r : Passage}
    {f : Passage → Passage} (hf : ∀ p, (f p).id = p.id) (hr : r ∈ db.passages.rows)
    (hlive : r.isLive = false) (hq : (f r).isLive = true)
    (hws : (f r).workspaceId = r.workspaceId) (hsome : reactivated db req = some (f r))
    (hhandle : handle db req = commit req.ctx db (db.passages.update r.id f hf)) :
    StepLinks ws db req := by
  rcases commit_return req.ctx hf hr hlive hq hws with ⟨hwhy, e, he⟩ | ⟨hlost, htaken, db', hok, hlinks⟩
  · apply StepLinks.of_error (hhandle.trans he)
    intro p hp _
    obtain rfl : f r = p := Option.some.inj (hsome.symm.trans hp)
    rcases hwhy with h | h <;> simp [storable, h]
  · have hstep : step db req = db' := by simp [step, hhandle, hok]
    have hlinks' := hlinks ws
    split at hlinks'
    · rename_i h
      refine .returned (f r) hsome (hws.trans h) (by simp [storable, hlost, htaken]) ?_
      rwa [hstep]
    · rename_i h
      refine .fewer (by rw [hstep, hlinks']) fun p hp hpws => ?_
      obtain rfl : f r = p := Option.some.inj (hsome.symm.trans hp)
      exact absurd (hws.symm.trans hpws) h

theorem existingPassage_eq_some {ctx : Context} {db : Db} {ws fromId toId : Id} {p : Passage}
    (h : existingPassage ctx db ws fromId toId = some p) :
    p ∈ db.passages.rows ∧ p.workspaceId = ws := by
  have hmem := List.mem_filter.mp (List.mem_of_getElem? h)
  simp only [Bool.and_eq_true, decide_eq_true_eq] at hmem
  exact ⟨hmem.1, hmem.2.1⟩

theorem insertPassage_eq_ok {ctx : Context} {db db' : Db} {p : Passage}
    (h : insertPassage ctx db p = .ok db') :
    db'.passages.rows = db.passages.rows ++ [p] ∧
      db'.memberships = db.memberships ∧ db'.instances = db.instances := by
  unfold insertPassage at h
  split at h
  · rename_i passages _ hinsert
    split at h
    · cases h
    · obtain ⟨hpassages, hothers⟩ := commit_eq_ok h
      refine ⟨?_, hothers⟩
      rw [hpassages, Table.insert?_rows hinsert]
  · cases h

theorem stepLinks_createPassage (ws actor : Id) (ctx : Context) (db : Db) (body : PassageCreate) :
    StepLinks ws db ⟨actor, ctx, .createPassage body⟩ := by
  rcases hends : normalizeEndpoints body.fromMembershipId body.toMembershipId with ⟨fromId, toId⟩
  cases hfrom : hasMembership db fromId with
  | false =>
    apply StepLinks.of_error (e := membershipNotFound fromId)
    · simp [handle, createPassage, hends, hfrom, Except.map]
    · simp [reactivated, hends, hfrom]
  | true =>
  cases hto : hasMembership db toId with
  | false =>
    apply StepLinks.of_error (e := membershipNotFound toId)
    · simp [handle, createPassage, hends, hfrom, hto, Except.map]
    · simp [reactivated, hends, hto]
  | true =>
  cases hex : existingPassage ctx db body.workspaceId fromId toId with
  | some existing =>
    cases hdel : existing.deletedAt with
    | none =>
      apply StepLinks.of_error (e := passageDuplicate)
      · simp [handle, createPassage, hends, hfrom, hto, hex, hdel, Except.map]
      · simp [reactivated, hends, hfrom, hto, hex, hdel]
    | some t =>
      refine StepLinks.of_return (r := existing) (f := revive fromId toId) (fun _ => rfl)
        (existingPassage_eq_some hex).1 ?_ rfl rfl ?_ ?_
      · simp [Passage.isLive, hdel]
      · simp [reactivated, hends, hfrom, hto, hex, hdel]
      · simp only [handle, createPassage, hends, hfrom, hto, hex, hdel]
        cases commit ctx db (db.passages.update existing.id (revive fromId toId) fun _ => rfl) <;> rfl
  | none =>
    have hnone : reactivated db ⟨actor, ctx, .createPassage body⟩ = none := by
      simp [reactivated, hends, hfrom, hto, hex]
    have hskip : ∀ p, reactivated db ⟨actor, ctx, .createPassage body⟩ = some p →
        p.workspaceId = ws → storable ctx db p = false := by
      simp [hnone]
    cases hcheck : checkAcyclic body.workspaceId db.passages.rows fromId toId with
    | false =>
      apply StepLinks.of_error (e := passageWouldCreateCycle)
      · simp [handle, createPassage, hends, hfrom, hto, hex, hcheck, Except.map]
      · exact hskip
    | true =>
      have hhandle : handle db ⟨actor, ctx, .createPassage body⟩ =
          insertPassage ctx db (newPassage ctx body fromId toId) := by
        simp only [handle, createPassage, hends, hfrom, hto, hex, hcheck]
        cases insertPassage ctx db (newPassage ctx body fromId toId) <;> rfl
      cases hins : insertPassage ctx db (newPassage ctx body fromId toId) with
      | error e => exact .of_error (hhandle.trans hins) hskip
      | ok db' =>
        have hstep : step db ⟨actor, ctx, .createPassage body⟩ = db' := by
          simp [step, hhandle, hins]
        have hrows := (insertPassage_eq_ok hins).1
        by_cases hws : body.workspaceId = ws
        · subst hws
          refine .joined (newPassage ctx body fromId toId) hnone hcheck ?_
          rw [hstep, hrows]
          exact links_append_singleton (by simp [inGraph, newPassage, Passage.isLive]) _
        · refine .fewer ?_ hskip
          rw [hstep, hrows, links_append, links_cons_of_not_inGraph (by simp [inGraph, newPassage, hws])]
          simp [links, activePassages]

theorem links_update_sublist (ws : Id) (t : Table Passage.id) (p : Passage → Bool)
    (f : Passage → Passage) (hf : ∀ p, (f p).id = p.id)
    (hlink : ∀ r ∈ t.rows, p r = true → inGraph ws (f r) = true →
      inGraph ws r = true ∧ link (f r) = link r) :
    (links ws (t.updateWhere p f hf).rows).Sublist (links ws t.rows) := by
  rw [Table.updateWhere_rows]
  apply links_map_sublist
  intro r hr
  split
  · exact hlink r hr ‹_›
  · exact fun h => ⟨h, rfl⟩

/-- A commit that only takes links away. -/
theorem StepLinks.of_commit {ws : Id} {db : Db} {req : Request} (passages : Table Passage.id)
    (hnone : ∀ p, reactivated db req = some p → p.workspaceId = ws → storable req.ctx db p = false)
    (hhandle : ∃ db', handle db req = commit req.ctx db' passages)
    (hlinks : (links ws passages.rows).Sublist (links ws db.passages.rows)) :
    StepLinks ws db req := by
  obtain ⟨db', hhandle⟩ := hhandle
  cases h : commit req.ctx db' passages with
  | error e => exact .of_error (hhandle.trans h) hnone
  | ok db'' =>
    have hstep : step db req = db'' := by simp [step, hhandle, h]
    refine .fewer ?_ hnone
    rwa [hstep, (commit_eq_ok h).1]

theorem stepLinks_updatePassage (ws actor : Id) (ctx : Context) (db : Db) (passageId : Id)
    (body : PassageUpdate) : StepLinks ws db ⟨actor, ctx, .updatePassage passageId body⟩ := by
  cases hfind : db.passages.find? passageId with
  | none =>
    apply StepLinks.of_error (e := passageNotFound passageId)
    · simp [handle, updatePassage, hfind, Except.map]
    · simp [reactivated, hfind]
  | some r =>
    have hmem := Table.find?_mem hfind
    obtain rfl := Table.find?_key hfind
    cases hdel : r.deletedAt with
    | some t =>
      apply StepLinks.of_error (e := passageNotFound r.id)
      · simp [handle, updatePassage, hfind, hdel, Except.map]
      · simp [reactivated, hfind, hdel]
    | none =>
      cases hset : body.isActive.getD (some r.isActive) with
      | none =>
        have hbody : body.isActive = some none := by
          cases hb : body.isActive with
          | none => simp [hb] at hset
          | some o => simpa [hb] using hset
        apply StepLinks.of_error (e := .integrityError)
        · simp [handle, updatePassage, hfind, hdel, hset, Except.map]
        · simp [reactivated, hfind, hbody]
      | some isActive =>
        have hhandle : handle db ⟨actor, ctx, .updatePassage r.id body⟩ =
            commit ctx db (db.passages.update r.id (setFields isActive body.edgeMeta) fun _ => rfl) := by
          simp only [handle, updatePassage, hfind, hdel, hset, Option.isSome_none, Bool.false_eq_true,
            if_false]
          cases commit ctx db (db.passages.update r.id (setFields isActive body.edgeMeta) fun _ => rfl) <;>
            rfl
        by_cases hback : isActive = true ∧ r.isActive = false
        · obtain ⟨rfl, hwas⟩ := hback
          have hbody : body.isActive = some (some true) := by
            cases hb : body.isActive with
            | none => simp [hb, hwas] at hset
            | some o => simpa [hb] using hset
          refine StepLinks.of_return (r := r) (f := setFields true body.edgeMeta) (fun _ => rfl) hmem ?_ ?_
            rfl ?_ hhandle
          · simp [Passage.isLive, hwas]
          · simp [Passage.isLive, setFields, hdel]
          · simp [reactivated, hfind, hdel, hwas, hbody]
        · -- The row was active before, or is not active after.
          refine StepLinks.of_commit _ ?_ ⟨db, hhandle⟩ ?_
          · intro p hp
            simp only [reactivated, hfind, Option.map_eq_some_iff, Option.filter_eq_some_iff] at hp
            obtain ⟨q, ⟨hq, hcond⟩, -⟩ := hp
            obtain rfl := Option.some.inj hq
            simp only [Bool.and_eq_true, Bool.not_eq_true', decide_eq_true_eq] at hcond
            rw [hcond.2, Option.getD_some] at hset
            exact absurd ⟨(Option.some.inj hset).symm, hcond.1.2⟩ hback
          · apply links_update_sublist
            intro q hq hid hin
            obtain rfl : q = r := db.passages.eq_of_key_eq hq hmem (by simpa using hid)
            simp only [inGraph, Passage.isLive, setFields, Bool.and_eq_true] at hin
            have hwas : q.isActive = true := by
              cases h : q.isActive with
              | true => rfl
              | false => exact absurd ⟨hin.2.1, h⟩ hback
            exact ⟨by simp [inGraph, Passage.isLive, hwas, of_decide_eq_true hin.1, hin.2.2], rfl⟩

theorem stepLinks_deletePassage (ws actor : Id) (ctx : Context) (db : Db) (passageId : Id) :
    StepLinks ws db ⟨actor, ctx, .deletePassage passageId⟩ := by
  have hnone : ∀ p, reactivated db ⟨actor, ctx, .deletePassage passageId⟩ = some p →
      p.workspaceId = ws → storable ctx db p = false := by
    simp [reactivated]
  cases hfind : db.passages.find? passageId with
  | none =>
    apply StepLinks.of_error (e := passageNotFound passageId) _ hnone
    simp [handle, deletePassage, hfind]
  | some r =>
    cases hdel : r.deletedAt with
    | some t =>
      apply StepLinks.of_error (e := passageNotFound passageId) _ hnone
      simp [handle, deletePassage, hfind, hdel]
    | none =>
      refine StepLinks.of_commit (db.passages.update passageId
        (fun p => { p with deletedAt := some ctx.now }) fun _ => rfl) hnone ⟨db, ?_⟩ ?_
      · simp [handle, deletePassage, hfind, hdel]
      · apply links_update_sublist
        intro q _ _ hin
        simp [inGraph, Passage.isLive] at hin

theorem links_softDelete_sublist (ws : Id) (now : Time) (passages : Table Passage.id) (ids : List Id) :
    (links ws (softDeletePassagesTouching now passages ids).rows).Sublist (links ws passages.rows) := by
  unfold softDeletePassagesTouching
  dsimp only
  split
  · exact .refl _
  · apply links_update_sublist
    intro q _ _ hin
    simp [inGraph, Passage.isLive] at hin

theorem stepLinks_deleteMembership (ws actor : Id) (ctx : Context) (db : Db) (membershipId : Id) :
    StepLinks ws db ⟨actor, ctx, .deleteMembership membershipId⟩ := by
  have hnone : ∀ p, reactivated db ⟨actor, ctx, .deleteMembership membershipId⟩ = some p →
      p.workspaceId = ws → storable ctx db p = false := by
    simp [reactivated]
  cases hfind : db.memberships.find? membershipId with
  | none =>
    apply StepLinks.of_error (e := membershipNotFound membershipId) _ hnone
    simp [handle, deleteMembership, hfind]
  | some m =>
    cases hdel : m.deletedAt with
    | some t =>
      apply StepLinks.of_error (e := membershipNotFound membershipId) _ hnone
      simp [handle, deleteMembership, hfind, hdel]
    | none =>
      cases hinst : linkedInstance db m with
      | none =>
        refine StepLinks.of_commit _ hnone ?_ (links_softDelete_sublist ws ctx.now db.passages [membershipId])
        simp only [handle, deleteMembership, hfind, hdel, hinst, Option.isSome_none, Bool.false_eq_true,
          if_false]
        exact ⟨_, rfl⟩
      | some i =>
        refine StepLinks.of_commit _ hnone ?_ (links_softDelete_sublist ws ctx.now db.passages
          ((db.memberships.rows.filter (seatOf i.id)).map Membership.id))
        simp only [handle, deleteMembership, hfind, hdel, hinst, Option.isSome_none, Bool.false_eq_true,
          if_false]
        exact ⟨_, rfl⟩

theorem stepLinks (ws : Id) (db : Db) (req : Request) : StepLinks ws db req := by
  obtain ⟨actor, ctx, call⟩ := req
  cases call with
  | createPassage body => exact stepLinks_createPassage ws actor ctx db body
  | updatePassage passageId body => exact stepLinks_updatePassage ws actor ctx db passageId body
  | deletePassage passageId => exact stepLinks_deletePassage ws actor ctx db passageId
  | deleteMembership membershipId => exact stepLinks_deleteMembership ws actor ctx db membershipId

theorem step_isForest_iff (ws : Id) (db : Db) (req : Request)
    (hforest : IsForest (links ws db.passages.rows)) :
    IsForest (links ws (step db req).passages.rows) ↔ ReactivationChecked ws db req := by
  cases stepLinks ws db req with
  | fewer h hnone =>
    refine ⟨fun _ p hp hws hstore => ?_, fun _ => hforest.sublist h⟩
    rw [hnone p hp hws] at hstore
    cases hstore
  | joined p hnone hcheck h =>
    refine ⟨fun _ q hq => ?_, fun _ => ?_⟩
    · rw [hnone] at hq
      cases hq
    · exact ((checkAcyclic_link ws _ p).mp ⟨hcheck, hforest⟩).perm h.symm
  | returned p hsome hws hstore h =>
    rw [isForest_perm h, ← checkAcyclic_link]
    constructor
    · rintro ⟨hcheck, _⟩ q hq _ _
      obtain rfl := Option.some.inj (hsome.symm.trans hq)
      exact hcheck
    · exact fun hchecked => ⟨hchecked p hsome hws hstore, hforest⟩

/-- Started on a forest, a run of the messaging API stays on forests exactly when every
re-activation it makes would have passed the check that only new passages go through. -/
theorem forest_iff_reactivations_checked (ws : Id) (db : Db) (reqs : List Request)
    (hforest : IsForest (links ws db.passages.rows)) :
    Run.Always step (fun db => IsForest (links ws db.passages.rows)) db reqs ↔
      Run.Meets step (ReactivationChecked ws) db reqs :=
  Run.always_iff_meets (r := fun _ => True) (fun _ _ _ => trivial)
    (fun db req _ hq => step_isForest_iff ws db req hq) trivial hforest reqs

def seat (id : Id) : Membership := ⟨id, "w", some id, none, none⟩

theorem threeSeats_nodup : ["a", "b", "c"].Nodup := by decide

/-- A workspace of three users without passages. -/
def threeSeats : Db where
  workspaces := .single ⟨"w", "n", none⟩
  entities := .empty
  instances := .empty
  memberships := ⟨[seat "a", seat "b", seat "c"], threeSeats_nodup⟩
  passages := .empty
  loopStates := .empty
  uniqueActiveEdge := Passage.uniqueActiveEdge_nil

def requestAt (now : Time) (newId : Id) (call : Call) : Request := ⟨"a", ⟨now, newId, 0, false⟩, call⟩

/-- Connect, disconnect, go round the other way, connect again. -/
def reconnection : List Request :=
  [requestAt 1 "p1" (.createPassage ⟨"w", "a", "b", none⟩),
    requestAt 2 "" (.deletePassage "p1"),
    requestAt 3 "p2" (.createPassage ⟨"w", "b", "c", none⟩),
    requestAt 4 "p3" (.createPassage ⟨"w", "a", "c", none⟩),
    requestAt 5 "p4" (.createPassage ⟨"w", "a", "b", none⟩)]

/-- Connecting a pair again while nothing else connects it. -/
theorem plain_reconnection_stays_forest : Run.Always step
    (fun db => IsForest (links "w" db.passages.rows)) threeSeats
    (reconnection.take 3 ++ reconnection.drop 4) :=
  (forest_iff_reactivations_checked "w" threeSeats _ isForest_nil).mpr (by decide)

theorem reconnection_closes_cycle : IsForest (links "w" threeSeats.passages.rows) ∧
    ¬Run.Always step (fun db => IsForest (links "w" db.passages.rows)) threeSeats reconnection := by
  refine ⟨isForest_nil, fun h => ?_⟩
  have hend : links "w" (Run.exec step threeSeats reconnection).passages.rows =
      [s("a", "b"), s("b", "c"), s("a", "c")] := by decide
  have hforest := h.exec
  rw [hend, isForest_cons] at hforest
  apply hforest.2
  have hac : Connected [s("b", "c"), s("a", "c")] "a" "c" := connected_of_mem (by simp)
  have hbc : Connected [s("b", "c"), s("a", "c")] "b" "c" := connected_of_mem (by simp)
  exact hac.trans hbc.symm

end Eyot.Topology
