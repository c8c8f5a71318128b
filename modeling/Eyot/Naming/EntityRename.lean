import Eyot.Access.Members
import Eyot.Library.Like
import Eyot.Naming.WorkspaceRename

/-! An entity is renamed only while nothing refers to it by its slug. -/

namespace Eyot.Naming

open Access (Refusal requirePermission ofFailure)
open FailingFold (bind_eq_ok)
open Like (Signs)
open Market (KebabSlug wellFormed_filter)

structure Entity where
  id : Id
  namespaceId : Id
  slug : Str
  name : Str
  presetSlug : Option Str
  displayName : Option Str
  displayColor : Option Str
  systemPrompt : Option Str
  configOverride : Option JsonObject
  hasKnowledge : Option (List Str)
  isCerebellum : Bool
  deletedAt : Option Time

def Entity.isActive (e : Entity) : Bool := e.deletedAt.isNone

def Entity.place (e : Entity) : Id × Str := (e.namespaceId, e.slug)

def Entity.isActiveCerebellum (e : Entity) : Bool := e.isCerebellum && e.isActive

structure Instance where
  id : Id
  entityId : Id
  workspacePath : Option Str
  deletedAt : Option Time

structure ComposerMessage where
  id : Id
  namespaceId : Id
  targetEntity : Option Str

/-- With `uq_entities_namespace_slug` and `uq_entities_cerebellum_per_ns`. -/
structure Entities where
  access : Access.Db
  entities : Table Entity.id
  instances : Table Instance.id
  messages : Table ComposerMessage.id
  uniqueSlug : UniqueOn Entity.isActive Entity.place entities.rows
  uniqueCerebellum : UniqueOn Entity.isActiveCerebellum Entity.namespaceId entities.rows

def CAP_OVERRIDE_KEYS : List Str :=
  ["default_capabilities".toList, "capabilities".toList, "default_gene_refs".toList,
    "gene_refs".toList, "installed_genes".toList]

def stripConfigOverrideCaps (override : JsonObject) : JsonObject :=
  ⟨override.members.filter fun kv => !CAP_OVERRIDE_KEYS.contains kv.1,
    wellFormed_filter _ override.wellFormed⟩

/-- A field that is not sent is `none`; each may be sent as null. -/
structure EntityUpdate where
  slug : Option (Option KebabSlug)
  name : Option (Option Str)
  presetSlug : Option (Option Str)
  displayName : Option (Option Str)
  displayColor : Option (Option Str)
  systemPrompt : Option (Option Str)
  configOverride : Option (Option JsonObject)
  hasKnowledge : Option (Option (List Str))
  isCerebellum : Option (Option Bool)

/-- A null slug is no slug; a null in the other two columns that take none is refused. -/
def EntityUpdate.apply? (body : EntityUpdate) (e : Entity) : Option Entity := do
  let name ← body.name.getD (some e.name)
  let isCerebellum ← body.isCerebellum.getD (some e.isCerebellum)
  pure { e with
    slug := (body.slug.join.map KebabSlug.text).getD e.slug
    name := name
    presetSlug := body.presetSlug.getD e.presetSlug
    displayName := body.displayName.getD e.displayName
    displayColor := body.displayColor.getD e.displayColor
    systemPrompt := body.systemPrompt.getD e.systemPrompt
    configOverride :=
      (body.configOverride.map fun override => override.map stripConfigOverrideCaps).getD
        e.configOverride
    hasKnowledge := body.hasKnowledge.getD e.hasKnowledge
    isCerebellum := isCerebellum }

/-- The details of `entity.slug_in_use`: instances with whether they are deleted, and messages. -/
structure InUse where
  instances : List (Id × Bool)
  messageIds : List Id

inductive Refused where
  | refusal (r : Refusal)
  | dataError
  | slugInUse (e : EyotError) (details : InUse)

/-- `.pi/workspace/{entity_slug}-{instance_id[:8]}/` -/
def generateWorkspacePath (entitySlug instanceId : Str) : Str :=
  ".pi/workspace/".toList ++ entitySlug ++ ['-'] ++ instanceId.take 8 ++ ['/']

def likeSigns : Signs Char := ⟨'%', '_', '\\', by decide, by decide, by decide⟩

def pathPattern (slug : Str) : Str :=
  ".pi/workspace/".toList ++ likeSigns.escapeLiteral slug ++ "-%".toList

def Instance.matchesPath (slug : Str) (i : Instance) : Bool :=
  i.workspacePath.any (likeSigns.like (pathPattern slug))

/-- `registry.get` of the presets, and what the columns of the table take. -/
structure Surroundings where
  preset : Str → Bool
  takes : Entity → Bool

namespace Entities

variable (X : Surroundings) (s : Entities) (userId : Id) (body : EntityUpdate)

def active? (id : Id) : Option Entity := (s.entities.find? id).filter Entity.isActive

def requirePreset : Except Refusal Unit :=
  match body.presetSlug.join with
  | none => .ok ()
  | some presetSlug =>
    if X.preset presetSlug then .ok ()
    else .error (.api (ValidationError "entity.preset_not_found" "errors.entity.preset_not_found"
      s!"Preset '{String.ofList presetSlug}' not found") [])

def otherCerebella (e : Entity) : List Entity :=
  s.entities.rows.filter fun r =>
    decide (r.namespaceId = e.namespaceId) && r.isCerebellum && r.isActive && decide (r.id ≠ e.id)

def requireOneCerebellum (e : Entity) : Except Refusal Unit :=
  if body.isCerebellum.join = some true ∧ e.isCerebellum = false then
    ofFailure (requireNone (s.otherCerebella e)
      (ConflictError "entity.cerebellum_already_exists" "errors.entity.cerebellum_already_exists"
        "A cerebellum entity already exists in this namespace"))
  else .ok ()

def clashes (e : Entity) (slug : Str) : List Entity :=
  s.entities.rows.filter fun r =>
    decide (r.namespaceId = e.namespaceId) && decide (r.slug = slug) && r.isActive &&
      decide (r.id ≠ e.id)

def requireFreeSlug (e : Entity) (slug : Str) : Except Refusal Unit :=
  ofFailure (requireNone (s.clashes e slug)
    (ConflictError "entity.slug_taken" "errors.entity.slug_taken"
      s!"Entity slug '{String.ofList slug}' is already taken"))

/-- Whatever has the slug in its path or as its target, in any namespace, deleted or not. -/
def requireUnused (slug : Str) : Except Refused Unit :=
  let instances := s.instances.rows.filter (Instance.matchesPath slug)
  let messages := s.messages.rows.filter fun m => decide (m.targetEntity = some slug)
  if instances.isEmpty && messages.isEmpty then .ok ()
  else .error (.slugInUse
    (ConflictError "entity.slug_in_use" "errors.entity.slug_in_use"
      s!"Entity slug '{String.ofList slug}' is referenced downstream and cannot be renamed")
    ⟨instances.map fun i => (i.id, i.deletedAt.isSome), messages.map ComposerMessage.id⟩)

def requireRenamable (e : Entity) : Except Refused Unit :=
  match body.slug.join with
  | none => .ok ()
  | some slug =>
    if slug.text = e.slug then .ok ()
    else do
      (s.requireFreeSlug e slug.text).mapError .refusal
      s.requireUnused e.slug

def put (e : Entity) : Table Entity.id :=
  s.entities.update e.id (fun r => { e with id := r.id }) fun _ => rfl

def commit (e : Entity) : Except Refused Entities :=
  match body.apply? e with
  | none => .error (.refusal (.failure .integrityError))
  | some e' =>
    if X.takes e' then
      if h : UniqueOn Entity.isActive Entity.place (s.put e').rows ∧
          UniqueOn Entity.isActiveCerebellum Entity.namespaceId (s.put e').rows then
        .ok { s with entities := s.put e', uniqueSlug := h.1, uniqueCerebellum := h.2 }
      else .error (.refusal (.failure .integrityError))
    else .error .dataError

/-- What is asked of a request before its slug is looked at. -/
def admission (e : Entity) : Except Refusal Unit := do
  requirePermission s.access userId "can_manage_namespace".toList ⟨none, some e.namespaceId, none⟩
  requirePreset X body
  s.requireOneCerebellum body e

def updateEntity (entityId : Id) : Except Refused Entities :=
  match s.active? entityId with
  | none => .error (.refusal (.api (NotFoundError "entity.not_found" "errors.entity.not_found"
      s!"Entity '{entityId}' not found") []))
  | some e => do
    (s.admission X userId body e).mapError .refusal
    s.requireRenamable body e
    s.commit X body e

end Entities

/-! What a use of the slug is, and what the lock takes for one. -/

def isHex (c : Char) : Bool := c.isDigit || decide ('a' ≤ c ∧ c ≤ 'f')

def isUuid (text : Str) : Bool :=
  (text.splitOn '-').map List.length == [8, 4, 4, 4, 12] && (text.filter (· ≠ '-')).all isHex

def Derived (slug path : Str) : Prop :=
  ∃ uuid, isUuid uuid = true ∧ path = generateWorkspacePath slug uuid

section

variable (X : Surroundings) (s : Entities) (userId : Id) (body : EntityUpdate) (e : Entity)

/-- Someone works under a path of this entity, or was spoken to under its slug. -/
def Used : Prop :=
  (∃ i ∈ s.instances.rows, i.entityId = e.id ∧
    ∃ path, i.workspacePath = some path ∧ Derived e.slug path) ∨
  ∃ m ∈ s.messages.rows, m.namespaceId = e.namespaceId ∧ m.targetEntity = some e.slug

/-- A path that begins like one of the slug, or a message to the slug: whosever, and anywhere. -/
def LooksUsed (slug : Str) : Prop :=
  (∃ i ∈ s.instances.rows, ∃ path, i.workspacePath = some path ∧
    ".pi/workspace/".toList ++ slug ++ ['-'] <+: path) ∨
  ∃ m ∈ s.messages.rows, m.targetEntity = some slug

/-- No other active entity of the namespace has the slug. -/
def FreeSlug (slug : Str) : Prop :=
  ∀ r ∈ s.entities.rows, r.isActive = true → r.namespaceId = e.namespaceId → r.slug = slug →
    r.id = e.id

structure Admitted : Prop where
  permission : requirePermission s.access userId "can_manage_namespace".toList
    ⟨none, some e.namespaceId, none⟩ = .ok ()
  preset : ∀ presetSlug, body.presetSlug = some (some presetSlug) → X.preset presetSlug = true
  cerebellum : body.isCerebellum = some (some true) → e.isCerebellum = false →
    ∀ r ∈ s.entities.rows, r.isActive = true → r.isCerebellum = true →
      r.namespaceId = e.namespaceId → r.id = e.id

def RefusedInUse {α : Type} (x : Except Refused α) : Prop :=
  ∃ error details, x = .error (.slugInUse error details)

/-- Of the requests that are admitted, those about a slug in use are refused for it. -/
def LockExact : Prop :=
  RefusedInUse (s.updateEntity X userId body e.id) ↔ Admitted X s userId body e ∧ Used s e

end

theorem prefix_generateWorkspacePath (slug uuid : Str) :
    ".pi/workspace/".toList ++ slug ++ ['-'] <+: generateWorkspacePath slug uuid :=
  (List.prefix_append _ _).trans (List.prefix_append _ _)

theorem looksUsed_of_used {s : Entities} {e : Entity} (h : Used s e) : LooksUsed s e.slug := by
  obtain ⟨i, hi, -, path, hpath, hderived⟩ | ⟨m, hm, -, htarget⟩ := h
  · obtain ⟨uuid, -, rfl⟩ := hderived
    exact .inl ⟨i, hi, _, hpath, prefix_generateWorkspacePath e.slug uuid⟩
  · exact .inr ⟨m, hm, htarget⟩

theorem pathPattern_eq (slug : Str) :
    pathPattern slug =
      likeSigns.escapeLiteral (".pi/workspace/".toList ++ slug ++ ['-']) ++ [likeSigns.any] := by
  have hhead : likeSigns.escapeLiteral ".pi/workspace/".toList = ".pi/workspace/".toList := by
    decide
  have hdash : likeSigns.escapeLiteral ['-'] = ['-'] := by decide
  rw [Signs.escapeLiteral_append, Signs.escapeLiteral_append, hhead, hdash, List.append_assoc]
  rfl

theorem matchesPath_iff {slug : Str} {i : Instance} :
    i.matchesPath slug = true ↔
      ∃ path, i.workspacePath = some path ∧ ".pi/workspace/".toList ++ slug ++ ['-'] <+: path := by
  simp only [Instance.matchesPath, Option.any_eq_true, pathPattern_eq, Signs.like_prefix]

namespace RefusedInUse

variable {α β : Type}

theorem not_mapError {x : Except Refusal α} : ¬ RefusedInUse (x.mapError Refused.refusal) := by
  cases x with
  | error r => exact nofun
  | ok a => exact nofun

theorem bind_iff {x : Except Refused α} {f : α → Except Refused β}
    (hf : ∀ a, ¬ RefusedInUse (f a)) : RefusedInUse (x >>= f) ↔ RefusedInUse x := by
  cases x with
  | error r => simp only [RefusedInUse, bind, Except.bind, Except.error.injEq]
  | ok a => exact iff_of_false (hf a) nofun

theorem mapError_bind_iff {x : Except Refusal Unit} {f : Unit → Except Refused β} :
    RefusedInUse (x.mapError Refused.refusal >>= f) ↔ x = .ok () ∧ RefusedInUse (f ()) := by
  cases x with
  | error r => exact iff_of_false nofun nofun
  | ok u => exact (and_iff_right rfl).symm

end RefusedInUse

namespace Entities

variable {X : Surroundings} {s : Entities} {userId : Id} {body : EntityUpdate} {e : Entity}
  {slug : Str}

theorem requirePreset_eq_ok :
    requirePreset X body = .ok () ↔
      ∀ presetSlug, body.presetSlug = some (some presetSlug) → X.preset presetSlug = true := by
  rw [requirePreset]
  rcases body.presetSlug with _ | _ | presetSlug
  · exact iff_of_true rfl nofun
  · exact iff_of_true rfl nofun
  · by_cases h : X.preset presetSlug = true <;> simp [h]

theorem requireOneCerebellum_eq_ok :
    s.requireOneCerebellum body e = .ok () ↔
      (body.isCerebellum = some (some true) → e.isCerebellum = false →
        ∀ r ∈ s.entities.rows, r.isActive = true → r.isCerebellum = true →
          r.namespaceId = e.namespaceId → r.id = e.id) := by
  rw [requireOneCerebellum]
  split
  · rename_i h
    rw [Option.join_eq_some_iff] at h
    simp only [h, forall_const, ofFailure, mapError_eq_ok, requireNone_eq_ok, otherCerebella,
      List.filter_eq_nil_iff, Bool.and_eq_true, decide_eq_true_eq, not_and, Decidable.not_not]
    exact ⟨fun hall r hr hactive hc hns => hall r hr ⟨⟨hns, hc⟩, hactive⟩,
      fun hall r hr hr' => hall r hr hr'.2 hr'.1.2 hr'.1.1⟩
  · rename_i h
    rw [Option.join_eq_some_iff] at h
    exact iff_of_true rfl fun hbody he => absurd ⟨hbody, he⟩ h

theorem admission_eq_ok : s.admission X userId body e = .ok () ↔ Admitted X s userId body e := by
  simp only [admission, bind_eq_ok]
  constructor
  · rintro ⟨_, hpermission, _, hpreset, hcerebellum⟩
    exact ⟨hpermission, requirePreset_eq_ok.mp hpreset, requireOneCerebellum_eq_ok.mp hcerebellum⟩
  · intro h
    exact ⟨(), h.permission, (), requirePreset_eq_ok.mpr h.preset,
      requireOneCerebellum_eq_ok.mpr h.cerebellum⟩

theorem requireFreeSlug_eq_ok : s.requireFreeSlug e slug = .ok () ↔ FreeSlug s e slug := by
  simp only [requireFreeSlug, FreeSlug, ofFailure, mapError_eq_ok, requireNone_eq_ok, clashes,
    List.filter_eq_nil_iff, Bool.and_eq_true, decide_eq_true_eq, not_and, Decidable.not_not]
  exact ⟨fun h r hr hactive hns hslug => h r hr ⟨⟨hns, hslug⟩, hactive⟩,
    fun h r hr hr' => h r hr hr'.2 hr'.1.1 hr'.1.2⟩

theorem requireUnused_refused_iff : RefusedInUse (s.requireUnused slug) ↔ LooksUsed s slug := by
  have hlooks : LooksUsed s slug ↔
      ¬ ((s.instances.rows.filter (Instance.matchesPath slug)).isEmpty = true ∧
        (s.messages.rows.filter fun m => decide (m.targetEntity = some slug)).isEmpty = true) := by
    simp only [LooksUsed, ← matchesPath_iff, List.isEmpty_iff, List.filter_eq_nil_iff,
      decide_eq_true_eq, not_and_or, not_forall, not_not, exists_prop]
  rw [hlooks, ← Bool.and_eq_true, requireUnused]
  split
  · rename_i h
    exact iff_of_false nofun (not_not_intro h)
  · rename_i h
    exact iff_of_true ⟨_, _, rfl⟩ h

theorem not_refused_commit : ¬ RefusedInUse (s.commit X body e) := by
  rintro ⟨error, details, h⟩
  rw [commit] at h
  split at h
  · cases h
  · split at h
    · split at h <;> cases h
    · cases h

/-- The lock goes by what looks like a use. -/
theorem updateEntity_refused_iff {slug : KebabSlug} (hactive : s.active? e.id = some e)
    (hslug : body.slug = some (some slug)) (hne : slug.text ≠ e.slug)
    (hfree : FreeSlug s e slug.text) :
    RefusedInUse (s.updateEntity X userId body e.id) ↔
      Admitted X s userId body e ∧ LooksUsed s e.slug := by
  rw [updateEntity, hactive]
  change RefusedInUse (_ >>= _) ↔ _
  rw [RefusedInUse.mapError_bind_iff, admission_eq_ok,
    RefusedInUse.bind_iff fun _ => not_refused_commit, requireRenamable, hslug,
    Option.join_some]
  change _ ∧ RefusedInUse (if slug.text = e.slug then _ else _) ↔ _
  rw [if_neg hne, RefusedInUse.mapError_bind_iff, requireFreeSlug_eq_ok,
    and_iff_right hfree, requireUnused_refused_iff]

end Entities

section

variable {X : Surroundings} {s : Entities} {userId : Id} {body : EntityUpdate} {e : Entity}
  {slug : KebabSlug}

theorem lockExact_iff (hactive : s.active? e.id = some e) (hslug : body.slug = some (some slug))
    (hne : slug.text ≠ e.slug) (hfree : FreeSlug s e slug.text) :
    LockExact X s userId body e ↔
      (Admitted X s userId body e → LooksUsed s e.slug → Used s e) := by
  rw [LockExact, Entities.updateEntity_refused_iff hactive hslug hne hfree]
  constructor
  · intro h hadmitted hlooks
    exact (h.mp ⟨hadmitted, hlooks⟩).2
  · intro h
    exact and_congr_right fun hadmitted => ⟨h hadmitted, looksUsed_of_used⟩

end

namespace Foxes

def entity (id namespaceId slug : String) : Entity :=
  ⟨id, namespaceId, slug.toList, slug.toList, none, none, none, none, none, none, false, none⟩

def fox : Entity := entity "e1" "n1" "fox"

def fox2 : Entity := entity "e2" "n1" "fox-2"

def admin : Access.Db where
  users := .single ⟨"root", "root".toList, none, "root@acme".toList, true, false⟩
  organizations := .empty
  namespaces := .empty
  workspaces := .empty
  userGenes := .empty
  organization := ⟨.empty, .empty⟩
  namespaced := ⟨.empty, .empty⟩

/-- One instance in all, of one of the two. -/
def den (entityId : Id) (path : Str) : Entities where
  access := admin
  entities := ⟨[fox, fox2], by decide⟩
  instances := .single ⟨"i1", entityId, some path, none⟩
  messages := .empty
  uniqueSlug := by decide
  uniqueCerebellum := by decide

def uuid : Str := "1a2b3c4d-0000-4000-8000-000000000000".toList

def wolf : KebabSlug := ⟨"wolf".toList, by decide⟩

def toWolf : EntityUpdate := ⟨some (some wolf), none, none, none, none, none, none, none, none⟩

def surroundings : Surroundings := ⟨fun _ => true, fun _ => true⟩

theorem free_wolf (entityId : Id) (path : Str) : FreeSlug (den entityId path) fox wolf.text := by
  intro r hr _ _ hslug
  obtain rfl | rfl : r = fox ∨ r = fox2 := by simpa [den] using hr
  · rfl
  · exact absurd hslug (by decide)

theorem admitted (entityId : Id) (path : Str) :
    Admitted surroundings (den entityId path) "root" toWolf fox where
  permission := rfl
  preset := nofun
  cerebellum := nofun

theorem fox_lockExact :
    LockExact surroundings (den "e1" (generateWorkspacePath "fox".toList uuid)) "root" toWolf fox :=
  (lockExact_iff rfl rfl (by decide) (free_wolf _ _)).mpr fun _ _ =>
    .inl ⟨_, List.mem_singleton_self _, rfl, _, rfl, uuid, by decide, rfl⟩

/-- An instance of the entity with the longer slug is enough to refuse. -/
theorem not_lockExact :
    ¬ ∀ (X : Surroundings) (s : Entities) (userId : Id) (body : EntityUpdate) (e : Entity)
      (slug : KebabSlug), s.active? e.id = some e → body.slug = some (some slug) →
      slug.text ≠ e.slug → FreeSlug s e slug.text → LockExact X s userId body e := by
  intro h
  have hexact := h surroundings (den "e2" (generateWorkspacePath "fox-2".toList uuid)) "root" toWolf
    fox wolf rfl rfl (by decide) (free_wolf _ _)
  have hprefix : ".pi/workspace/".toList ++ fox.slug ++ ['-'] <+:
      generateWorkspacePath "fox-2".toList uuid := by decide
  have hrefused := (Entities.updateEntity_refused_iff rfl rfl (by decide) (free_wolf "e2" _)).mpr
    ⟨admitted "e2" _, .inl ⟨_, List.mem_singleton_self _, _, rfl, hprefix⟩⟩
  obtain ⟨i, hi, hid, -⟩ | ⟨m, hm, -⟩ := (hexact.mp hrefused).2
  · rw [List.mem_singleton.mp hi] at hid
    exact absurd hid (by decide)
  · cases hm

end Foxes

end Eyot.Naming
