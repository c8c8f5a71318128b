import Eyot.Routing.DirectiveRouter

/-! The namespace of a workspace, and what a directive in the workspace sees of other namespaces. -/

namespace Eyot.Routing

open Slash (Directive)

def isActiveEntity (e : Entity) : Bool := e.deletedAt.isNone

/-- `uq_entities_namespace_slug`. -/
def UniqueSlugs (rows : List Entity) : Prop :=
  ((rows.filter isActiveEntity).map fun e => (e.namespaceId, e.slug)).Nodup

instance (rows : List Entity) : Decidable (UniqueSlugs rows) :=
  inferInstanceAs (Decidable (List.Nodup _))

structure Tenancy where
  db : Db
  uniqueSlugs : UniqueSlugs db.entities.rows

/-- The database with other entities. -/
def withEntities (entities : Table Entity.id) (db : Db) : Db := { db with entities := entities }

def namespaceOf (db : Db) (workspaceId : Id) : Option Id :=
  (db.workspaces.find? workspaceId).map Workspace.namespaceId

def isOwn (db : Db) (workspaceId : Id) (e : Entity) : Bool :=
  namespaceOf db workspaceId = some e.namespaceId

/-- What the database would be without the entities of other namespaces. -/
def ownOnly (workspaceId : Id) (db : Db) : Db :=
  withEntities (db.entities.deleteWhere fun e => !isOwn db workspaceId e) db

def hasSlug (targetSlug : Str) (e : Entity) : Bool := e.slug = targetSlug && e.deletedAt.isNone

/-- The active entity of the workspace's namespace with a slug. -/
def target (db : Db) (workspaceId : Id) (targetSlug : Str) : Option Entity :=
  db.entities.rows.find? fun e => isOwn db workspaceId e && hasSlug targetSlug e

def isChat (directive : Directive Char) : Bool :=
  !isControlCommand directive.cmd && !isLearningCommand directive.cmd

/-- The lookups of a directive all come to the target. -/
def Resolves (db : Db) (workspaceId : Id) (directive : Directive Char) (targetSlug : Str) : Prop :=
  findEntity db targetSlug = target db workspaceId targetSlug ∧
    (isChat directive = true → scalarOneOrNone (db.entities.rows.filter (hasSlug targetSlug)) =
      .ok (target db workspaceId targetSlug))

/-- What comes of a directive, the entities of the database apart. -/
def observe (m : Routed (DirectiveResult × Nat × Db)) : Routed (DirectiveResult × Nat × Db) :=
  ⟨m.log, m.result.map fun r => (r.1, r.2.1, withEntities .empty r.2.2)⟩

section Scoped

variable (env : Nat → Surroundings) (distill : Distiller) (workspaceId fromUserId senderId : Id)
  (generalText : Option Str) (k : Nat) (directive : Directive Char)

/-- A directive finds the target, and has the outcome it has without the other namespaces. -/
def Scoped (db : Db) : Prop :=
  ∀ targetSlug, directive.targetEntity = some targetSlug →
    Resolves db workspaceId directive targetSlug ∧
      observe (routeDirective env distill workspaceId fromUserId senderId generalText (k, db)
          directive) =
        observe (routeDirective env distill workspaceId fromUserId senderId generalText
          (k, ownOnly workspaceId db) directive)

/-- No other namespace has the slug; for a command it is enough that no other has it first. -/
def Unshared (db : Db) : Prop :=
  ∀ targetSlug, directive.targetEntity = some targetSlug →
    if isChat directive then
      ∀ e ∈ db.entities.rows, hasSlug targetSlug e = true → isOwn db workspaceId e = true
    else ∀ e, findEntity db targetSlug = some e → isOwn db workspaceId e = true

end Scoped

variable {db : Db} {workspaceId : Id}

theorem findEntity_eq (db : Db) (targetSlug : Str) :
    findEntity db targetSlug = db.entities.rows.find? (hasSlug targetSlug) := rfl

theorem ownOnly_rows :
    (ownOnly workspaceId db).entities.rows = db.entities.rows.filter (isOwn db workspaceId) := by
  change db.entities.rows.filter (fun e => !!isOwn db workspaceId e) = _
  simp only [Bool.not_not]

theorem findEntity_ownOnly (targetSlug : Str) :
    findEntity (ownOnly workspaceId db) targetSlug = target db workspaceId targetSlug := by
  rw [findEntity_eq, ownOnly_rows, List.find?_filter, target]
  simp only [Bool.decide_and, Bool.decide_eq_true]

theorem filter_ownOnly (targetSlug : Str)
    (h : ∀ e ∈ db.entities.rows, hasSlug targetSlug e = true → isOwn db workspaceId e = true) :
    (ownOnly workspaceId db).entities.rows.filter (hasSlug targetSlug) =
      db.entities.rows.filter (hasSlug targetSlug) := by
  rw [ownOnly_rows, List.filter_filter]
  apply List.filter_congr
  intro e he
  cases hs : hasSlug targetSlug e with
  | true => rw [h e he hs, Bool.and_true]
  | false => rw [Bool.false_and]

/-- The first entity with a slug is the target exactly when it is not of another namespace. -/
theorem findEntity_eq_target_iff {targetSlug : Str} :
    findEntity db targetSlug = target db workspaceId targetSlug ↔
      ∀ e, findEntity db targetSlug = some e → isOwn db workspaceId e = true := by
  constructor
  · intro h e he
    rw [h] at he
    have hown := List.find?_some he
    rw [Bool.and_eq_true] at hown
    exact hown.1
  · intro h
    rw [findEntity_eq, target] at *
    cases hfind : db.entities.rows.find? (hasSlug targetSlug) with
    | none =>
      rw [List.find?_eq_none] at hfind
      refine (List.find?_eq_none.mpr fun e he hand => ?_).symm
      rw [Bool.and_eq_true] at hand
      exact hfind e he hand.2
    | some e =>
      have hown := h e hfind
      rw [List.find?_eq_some_iff_append] at hfind
      obtain ⟨hs, as, bs, hrows, has⟩ := hfind
      refine (List.find?_eq_some_iff_append.mpr ⟨?_, as, bs, hrows, fun a ha => ?_⟩).symm
      · rw [hown, hs, Bool.and_true]
      · have hns := has a ha
        rw [Bool.not_eq_true'] at hns
        rw [hns, Bool.and_false]
        rfl

theorem own_unique (t : Tenancy) (workspaceId : Id) (targetSlug : Str) :
    (t.db.entities.rows.filter fun e =>
      isOwn t.db workspaceId e && hasSlug targetSlug e).length ≤ 1 := by
  have hsub : (t.db.entities.rows.filter fun e => isOwn t.db workspaceId e && hasSlug targetSlug e)
      |>.Sublist (t.db.entities.rows.filter isActiveEntity) := by
    apply List.monotone_filter_right
    intro e he
    rw [Bool.and_eq_true, hasSlug, Bool.and_eq_true] at he
    exact he.2.2
  have hnodup := t.uniqueSlugs.sublist (hsub.map fun e : Entity => (e.namespaceId, e.slug))
  match hl : t.db.entities.rows.filter fun e => isOwn t.db workspaceId e && hasSlug targetSlug e with
  | [] => exact Nat.zero_le 1
  | [_] => exact Nat.le_refl 1
  | e :: e' :: rest =>
    have hkey : ∀ a ∈ e :: e' :: rest, some a.namespaceId = namespaceOf t.db workspaceId ∧
        a.slug = targetSlug := by
      intro a ha
      rw [← hl, List.mem_filter, Bool.and_eq_true, isOwn, decide_eq_true_eq, hasSlug,
        Bool.and_eq_true, decide_eq_true_eq] at ha
      exact ⟨ha.2.1.symm, ha.2.2.1⟩
    obtain ⟨hn, hs⟩ := hkey e (List.mem_cons_self)
    obtain ⟨hn', hs'⟩ := hkey e' (List.mem_cons_of_mem _ List.mem_cons_self)
    have hsame : (e.namespaceId, e.slug) = (e'.namespaceId, e'.slug) :=
      Prod.ext (Option.some.inj (hn.trans hn'.symm)) (hs.trans hs'.symm)
    rw [hl, List.map_cons, List.map_cons, hsame, List.nodup_cons] at hnodup
    exact absurd List.mem_cons_self hnodup.1

theorem scalar_eq_target_iff {t : Tenancy} {targetSlug : Str} :
    scalarOneOrNone (t.db.entities.rows.filter (hasSlug targetSlug)) =
        .ok (target t.db workspaceId targetSlug) ↔
      ∀ e ∈ t.db.entities.rows, hasSlug targetSlug e = true →
        isOwn t.db workspaceId e = true := by
  constructor
  · intro h e he hs
    have hmem : e ∈ t.db.entities.rows.filter (hasSlug targetSlug) := List.mem_filter.mpr ⟨he, hs⟩
    match hl : t.db.entities.rows.filter (hasSlug targetSlug) with
    | [] =>
      rw [hl] at hmem
      cases hmem
    | [a] =>
      rw [hl] at h hmem
      rw [List.mem_singleton] at hmem
      have htarget : target t.db workspaceId targetSlug = some a := (Except.ok.inj h).symm
      have hown := List.find?_some htarget
      rw [Bool.and_eq_true] at hown
      exact hmem ▸ hown.1
    | a :: b :: rest =>
      rw [hl] at h
      cases h
  · intro h
    have hfilter : t.db.entities.rows.filter (hasSlug targetSlug) =
        t.db.entities.rows.filter fun e => isOwn t.db workspaceId e && hasSlug targetSlug e := by
      apply List.filter_congr
      intro e he
      cases hs : hasSlug targetSlug e with
      | true => rw [h e he hs, Bool.and_true]
      | false => rw [Bool.and_false]
    have hone := own_unique t workspaceId targetSlug
    rw [hfilter, target, ← List.head?_filter]
    match hl : t.db.entities.rows.filter fun e =>
      isOwn t.db workspaceId e && hasSlug targetSlug e with
    | [] => rfl
    | [a] => rfl
    | a :: b :: rest =>
      rw [hl, List.length_cons, List.length_cons] at hone
      omega

/-- A computation on one database, and the same on another that has other entities. -/
def Carried (entities : Table Entity.id) (m' m : Routed Db) : Prop :=
  m' = ⟨m.log, m.result.map (withEntities entities)⟩

theorem getStateOr404_withEntities (entities : Table Entity.id) (instanceId : Id) :
    getStateOr404 (withEntities entities db) instanceId = getStateOr404 db instanceId := rfl

theorem setLoopStatus_withEntities (entities : Table Entity.id) (instanceId : Id)
    (newStatus : LoopStatus) (eventType : String) :
    Carried entities (setLoopStatus (withEntities entities db) instanceId newStatus eventType)
      (setLoopStatus db instanceId newStatus eventType) := by
  unfold setLoopStatus
  rw [getStateOr404_withEntities]
  cases getStateOr404 db instanceId with
  | ok state => rfl
  | error e => rfl

theorem handleInterrupt_withEntities (entities : Table Entity.id) (instanceId : Id) :
    Carried entities (handleInterrupt (withEntities entities db) instanceId)
      (handleInterrupt db instanceId) := by
  unfold handleInterrupt setLoopStatus
  rw [getStateOr404_withEntities]
  cases getStateOr404 db instanceId with
  | ok state => rfl
  | error e => rfl

theorem handleControl_withEntities (entities : Table Entity.id) (cmd : Str) (instanceId : Id) :
    Carried entities (handleControl (withEntities entities db) cmd instanceId)
      (handleControl db cmd instanceId) := by
  unfold handleControl
  by_cases hinterrupt : cmd = "/interrupt".toList
  · rw [if_pos hinterrupt, if_pos hinterrupt]
    exact handleInterrupt_withEntities entities instanceId
  rw [if_neg hinterrupt, if_neg hinterrupt]
  by_cases hpause : cmd = "/pause".toList
  · rw [if_pos hpause, if_pos hpause]
    exact setLoopStatus_withEntities entities instanceId _ _
  rw [if_neg hpause, if_neg hpause]
  by_cases hresume : cmd = "/resume".toList
  · rw [if_pos hresume, if_pos hresume]
    exact setLoopStatus_withEntities entities instanceId _ _
  rw [if_neg hresume, if_neg hresume]
  rfl

section Outcome

variable (env : Nat → Surroundings) (distill : Distiller) (fromUserId senderId : Id)
  (generalText : Option Str) (k : Nat) {directive : Directive Char} {targetSlug : Str}

theorem observe_control (hcmd : isControlCommand directive.cmd = true)
    (hslug : directive.targetEntity = some targetSlug)
    (hfind : findEntity db targetSlug = target db workspaceId targetSlug) :
    observe (routeDirective env distill workspaceId fromUserId senderId generalText (k, db)
        directive) =
      observe (routeDirective env distill workspaceId fromUserId senderId generalText
        (k, ownOnly workspaceId db) directive) := by
  unfold routeDirective
  simp only [hcmd, if_true]
  unfold routeControlDirective
  rw [hslug]
  simp only [findEntity_ownOnly, hfind]
  cases target db workspaceId targetSlug with
  | none => rfl
  | some e =>
    have hinstance : findActiveInstance (ownOnly workspaceId db) e.id workspaceId =
        findActiveInstance db e.id workspaceId := rfl
    simp only [hinstance]
    cases findActiveInstance db e.id workspaceId with
    | none => rfl
    | some i =>
      have hcarried : handleControl (ownOnly workspaceId db) directive.cmd i.id = _ :=
        handleControl_withEntities (ownOnly workspaceId db).entities directive.cmd i.id
      simp only [hcarried]
      cases handleControl db directive.cmd i.id with
      | mk log result =>
        cases result with
        | ok db' => rfl
        | error e => rfl

theorem observe_learning (hcontrol : isControlCommand directive.cmd = false)
    (hcmd : isLearningCommand directive.cmd = true)
    (hslug : directive.targetEntity = some targetSlug)
    (hfind : findEntity db targetSlug = target db workspaceId targetSlug) :
    observe (routeDirective env distill workspaceId fromUserId senderId generalText (k, db)
        directive) =
      observe (routeDirective env distill workspaceId fromUserId senderId generalText
        (k, ownOnly workspaceId db) directive) := by
  have hsame : routeLearningDirective distill (ownOnly workspaceId db) directive fromUserId =
      routeLearningDirective distill db directive fromUserId := by
    unfold routeLearningDirective
    rw [hslug]
    simp only [findEntity_ownOnly, hfind]
  unfold routeDirective
  simp only [hcontrol, hcmd, hsame, Bool.false_eq_true, if_false, if_true]
  cases routeLearningDirective distill db directive fromUserId with
  | mk log result =>
    cases result with
    | ok r => rfl
    | error e => rfl

theorem observe_chat (hchat : isChat directive = true)
    (hslug : directive.targetEntity = some targetSlug)
    (hfind : findEntity db targetSlug = target db workspaceId targetSlug)
    (hown : ∀ e ∈ db.entities.rows, hasSlug targetSlug e = true →
      isOwn db workspaceId e = true) :
    observe (routeDirective env distill workspaceId fromUserId senderId generalText (k, db)
        directive) =
      observe (routeDirective env distill workspaceId fromUserId senderId generalText
        (k, ownOnly workspaceId db) directive) := by
  rw [isChat, Bool.and_eq_true, Bool.not_eq_true', Bool.not_eq_true'] at hchat
  have hmessage : routeMessage (env k) (ownOnly workspaceId db) senderId workspaceId directive
      generalText = routeMessage (env k) db senderId workspaceId directive generalText := by
    unfold routeMessage
    rw [hslug]
    change (do
      let entity ← Traced.ofExcept (scalarOneOrNone
        ((ownOnly workspaceId db).entities.rows.filter (hasSlug targetSlug)))
      _) = _
    rw [filter_ownOnly targetSlug hown]
    rfl
  have hsame : routeToTarget (env k) (ownOnly workspaceId db) senderId workspaceId generalText
      directive = routeToTarget (env k) db senderId workspaceId generalText directive := by
    have hentity : (directive.targetEntity.filter (· ≠ [])).bind
        (findEntity (ownOnly workspaceId db)) =
          (directive.targetEntity.filter (· ≠ [])).bind (findEntity db) := by
      rw [hslug, Option.filter_some]
      split
      · rw [Option.bind_some, Option.bind_some, findEntity_ownOnly, hfind]
      · rfl
    unfold routeToTarget
    rw [hentity, hmessage]
    rfl
  unfold routeDirective
  simp only [hchat.1, hchat.2, hsame, Bool.false_eq_true, if_false]
  cases routeToTarget (env k) db senderId workspaceId generalText directive with
  | mk log result =>
    cases result with
    | ok r => rfl
    | error e => rfl

end Outcome

/-- A directive keeps to the namespace of its workspace exactly when its slug is not shared in the
way its lookups mind. -/
theorem scoped_iff_unshared (env : Nat → Surroundings) (distill : Distiller)
    (workspaceId fromUserId senderId : Id) (generalText : Option Str) (k : Nat)
    (directive : Directive Char) (t : Tenancy) :
    Scoped env distill workspaceId fromUserId senderId generalText k directive t.db ↔
      Unshared workspaceId directive t.db := by
  apply forall_congr'
  intro targetSlug
  apply forall_congr'
  intro hslug
  rw [Resolves, findEntity_eq_target_iff, scalar_eq_target_iff]
  cases hchat : isChat directive with
  | true =>
    simp only [if_true, true_imp_iff]
    constructor
    · rintro ⟨⟨-, hown⟩, -⟩
      exact hown
    · intro hown
      have hfirst : ∀ e, findEntity t.db targetSlug = some e → isOwn t.db workspaceId e = true :=
        fun e he => hown e (List.mem_of_find?_eq_some he) (List.find?_some he)
      exact ⟨⟨hfirst, hown⟩, observe_chat env distill fromUserId senderId generalText k hchat hslug
        (findEntity_eq_target_iff.mpr hfirst) hown⟩
  | false =>
    simp only [Bool.false_eq_true, if_false, false_imp_iff, and_true]
    constructor
    · rintro ⟨hfirst, -⟩
      exact hfirst
    · intro hfirst
      have hfind := findEntity_eq_target_iff.mpr hfirst
      refine ⟨hfirst, ?_⟩
      cases hcontrol : isControlCommand directive.cmd with
      | true =>
        exact observe_control env distill fromUserId senderId generalText k hcontrol hslug hfind
      | false =>
        have hlearning : isLearningCommand directive.cmd = true := by
          rw [isChat, hcontrol] at hchat
          simpa using hchat
        exact observe_learning env distill fromUserId senderId generalText k hcontrol hlearning
          hslug hfind

/-- Two tenants with an entity of the same name. -/
def sharedEntities : List Entity := [⟨"e", "other", ['a'], none⟩, ⟨"f", "n", ['a'], none⟩]

theorem sharedEntities_nodup : (sharedEntities.map Entity.id).Nodup := by decide

theorem sharedEntities_uniqueSlugs : UniqueSlugs sharedEntities := by decide

def sharedSlug : Tenancy where
  db :=
    { workspaces := .single ⟨"w", "n", none⟩
      entities := ⟨sharedEntities, sharedEntities_nodup⟩
      instances := .single ⟨"i", "f", "w", .running, none⟩
      memberships := .single ⟨"m", "w", some "u", none, none⟩
      passages := .empty
      loopStates := .empty
      uniqueActiveEdge := Passage.uniqueActiveEdge_nil }
  uniqueSlugs := sharedEntities_uniqueSlugs

/-- A message to one of them is lost on the other. -/
theorem not_scoped_sharedSlug :
    ¬Scoped (fun _ => ⟨0, id, id, fun _ => false, fun _ => false⟩) (fun _ => .ok []) "w" "u" "m"
      none 0 ⟨some ['a'], [], [['b']], none, ['@', 'a', ' ', 'b']⟩ sharedSlug.db := by
  intro h
  have hfind := (h ['a'] rfl).1.1
  exact absurd hfind (by decide)

end Eyot.Routing
