import Eyot.Tenancy.Rows

/-! The LLM providers of the organizations, what they are the default of, and the one an instance
runs on. -/

namespace Eyot.Tenancy

open Market (BaseClass Namespace Organization LEGACY_PRESET_ALIASES truthy)

structure OrganizationProvider where
  id : Id
  organizationId : Id
  catalogProviderId : Option Str
  slug : Str
  apiKeyRef : Str
  defaultModel : Str
  enabled : Bool
  deleted : Bool

/-- The active row of `base_class_provider_defaults` of a base class. -/
structure ProviderDefault where
  providerId : Id
  model : Str

/-- A default of an organization: `.._provider_id` and `.._model`. -/
structure OrgDefault where
  providerId : Option Id
  model : Option Str

/-- The rows that the providers are resolved through. -/
structure World where
  organizations : Table Organization.id
  namespaces : Table Namespace.id
  entities : Table Entity.id
  instances : Table Instance.id
  baseClasses : Table BaseClass.id

structure Registry where
  world : World
  providers : Table OrganizationProvider.id
  baseClassDefault : Id → Option ProviderDefault
  systemHub : Id → OrgDefault
  cerebellumDefault : Id → OrgDefault

def Registry.empty (w : World) : Registry where
  world := w
  providers := .empty
  baseClassDefault _ := none
  systemHub _ := ⟨none, none⟩
  cerebellumDefault _ := ⟨none, none⟩

namespace World

variable (w : World)

def activeOrganization? (id : Id) : Option Organization :=
  (w.organizations.find? id).filter fun o => !o.deleted

def activeClass? (id : Id) : Option BaseClass :=
  (w.baseClasses.find? id).filter fun b => !b.deleted

/-- The entity of an instance, where both are active. -/
def entityOf? (instanceId : Id) : Option Entity :=
  ((w.instances.find? instanceId).filter fun i => i.deletedAt.isNone).bind fun i =>
    (w.entities.find? i.entityId).filter fun e => !e.deleted

/-- The organization that owns the namespace of an entity. -/
def ownerOf (e : Entity) : Option Id := (w.namespaces.find? e.namespaceId).map Namespace.orgId

end World

/-- Requested slug first, then legacy and animal aliases. -/
def candidateSlugs (slug : Str) : List Str :=
  slug :: (LEGACY_PRESET_ALIASES.filterMap fun (legacy, animal) =>
      if legacy = slug then some animal else none) ++
    LEGACY_PRESET_ALIASES.filterMap fun (legacy, animal) =>
      if animal = slug then some legacy else none

def World.classOf? (w : World) (e : Entity) : Option BaseClass :=
  (truthy e.presetSlug).bind fun slug =>
    (candidateSlugs slug).findSome? fun wanted =>
      w.baseClasses.rows.find? fun b => decide (b.slug = wanted) && !b.deleted

/-- `_load_org_for_instance`, and the organization is active. -/
def World.orgOf? (w : World) (e : Entity) : Option Organization :=
  ((w.namespaces.find? e.namespaceId).filter fun n => !n.deleted).bind fun n =>
    w.activeOrganization? n.orgId

namespace Registry

variable (s : Registry)

/-- The provider, where it is active and enabled. -/
def usable? (providerId : Id) : Option OrganizationProvider :=
  (s.providers.find? providerId).filter fun p => !p.deleted && p.enabled

/-- 1) The default of the base class; nothing says whose provider it is. -/
def classDefault? (e : Entity) : Option (OrganizationProvider × Option Str) :=
  (s.world.classOf? e).bind fun b =>
    (s.baseClassDefault b.id).bind fun d =>
      (s.usable? d.providerId).map fun p => (p, some d.model)

/-- `model or provider.default_model` -/
def orgDefault? (d : OrgDefault) : Option (OrganizationProvider × Option Str) :=
  (d.providerId.bind s.usable?).map fun p => (p, some ((truthy d.model).getD p.defaultModel))

/-- 3) Any enabled provider of the organization, the oldest first. -/
def anyProvider? (orgId : Id) : Option (OrganizationProvider × Option Str) :=
  (s.providers.rows.find? fun p =>
    decide (p.organizationId = orgId) && p.enabled && !p.deleted).map fun p =>
      (p, some p.defaultModel)

def resolveProviderForInstance (instanceId : Id) : Option (OrganizationProvider × Option Str) :=
  (s.world.entityOf? instanceId).bind fun e =>
    (s.classDefault? e).or <| (s.world.orgOf? e).bind fun org =>
      (s.orgDefault? (s.systemHub org.id)).or <|
        (s.orgDefault? (s.cerebellumDefault org.id)).or (s.anyProvider? org.id)

/-- `_get_provider` -/
def provider? (orgId providerId : Id) : Option OrganizationProvider :=
  (s.providers.find? providerId).filter fun p =>
    decide (p.organizationId = orgId) && !p.deleted

end Registry

/-! The requests of an organization's providers. Those on `/default` are the same with the default
organization. -/

structure ProviderPatch where
  apiKeyRef : Option Str
  defaultModel : Option Str
  enabled : Option Bool

def ProviderPatch.apply (patch : ProviderPatch) (p : OrganizationProvider) : OrganizationProvider :=
  { p with
    apiKeyRef := patch.apiKeyRef.getD p.apiKeyRef
    defaultModel := patch.defaultModel.getD p.defaultModel
    enabled := patch.enabled.getD p.enabled }

theorem ProviderPatch.apply_id (patch : ProviderPatch) : ∀ p, (patch.apply p).id = p.id :=
  fun _ => rfl

def OrganizationProvider.softDelete (p : OrganizationProvider) : OrganizationProvider :=
  { p with deleted := true }

theorem OrganizationProvider.softDelete_id :
    ∀ p : OrganizationProvider, p.softDelete.id = p.id := fun _ => rfl

inductive DefaultTarget where
  | systemHub | cerebellum
  | baseClasses (ids : List Id)

/-- The table indexed by base classes or organizations, with a new entry. -/
def setAt {α : Type} (f : Id → α) (id : Id) (a : α) : Id → α := Function.update f id a

/-- The fields that are sent, over those that are there. -/
def OrgDefault.patch (d : OrgDefault) (providerId : Option (Option Id))
    (model : Option (Option Str)) : OrgDefault :=
  ⟨providerId.getD d.providerId, model.getD d.model⟩

section

variable (s : Registry)

/-- A provider of the catalog is enabled once in an organization, and a slug taken once. -/
def createProvider (orgId : Id) (p : OrganizationProvider) : Option Registry :=
  if (s.world.activeOrganization? orgId).isNone ∨
      s.providers.rows.any (fun q => decide (q.organizationId = orgId) && !q.deleted &&
        (decide (q.slug = p.slug) ||
          q.catalogProviderId.isSome && decide (q.catalogProviderId = p.catalogProviderId))) then
    none
  else
    (s.providers.insert? { p with organizationId := orgId, deleted := false }).map fun providers =>
      { s with providers := providers }

def updateProvider (orgId providerId : Id) (patch : ProviderPatch) : Option Registry :=
  match s.world.activeOrganization? orgId, s.provider? orgId providerId with
  | some _, some _ =>
    some { s with providers := s.providers.update providerId patch.apply patch.apply_id }
  | _, _ => none

/-- What it is the default of stays so. -/
def deleteProvider (orgId providerId : Id) : Option Registry :=
  match s.world.activeOrganization? orgId, s.provider? orgId providerId with
  | some _, some _ =>
    some { s with
      providers := s.providers.update providerId OrganizationProvider.softDelete
        OrganizationProvider.softDelete_id }
  | _, _ => none

/-- `_set_default`: any base class will do, whose ever it is. -/
def setDefault (orgId providerId : Id) (target : DefaultTarget) (model : Str) : Option Registry :=
  match s.world.activeOrganization? orgId, s.provider? orgId providerId with
  | some _, some _ =>
    match target with
    | .systemHub =>
      some { s with systemHub := setAt s.systemHub orgId ⟨some providerId, some model⟩ }
    | .cerebellum =>
      some { s with
        cerebellumDefault := setAt s.cerebellumDefault orgId ⟨some providerId, some model⟩ }
    | .baseClasses ids =>
      if ids.all fun id => (s.world.activeClass? id).isSome then
        some { s with
          baseClassDefault := fun id =>
            if ids.contains id then some ⟨providerId, model⟩ else s.baseClassDefault id }
      else none
  | _, _ => none

/-- A provider that is sent has to be the organization's own. -/
def ownProvider (orgId : Id) (providerId : Option (Option Id)) : Bool :=
  providerId.join.all fun id => (s.provider? orgId id).isSome

def updateSystemHub (orgId : Id) (providerId : Option (Option Id)) (model : Option (Option Str)) :
    Option Registry :=
  if (s.world.activeOrganization? orgId).isSome && ownProvider s orgId providerId then
    some { s with
      systemHub := setAt s.systemHub orgId ((s.systemHub orgId).patch providerId model) }
  else none

def updateCerebellumDefaults (orgId : Id) (providerId : Option (Option Id))
    (model : Option (Option Str)) : Option Registry :=
  if (s.world.activeOrganization? orgId).isSome && ownProvider s orgId providerId then
    some { s with
      cerebellumDefault :=
        setAt s.cerebellumDefault orgId ((s.cerebellumDefault orgId).patch providerId model) }
  else none

/-- `update_provider_default` of a base class: super-admins only, and providers of the default
organization only. -/
def updateProviderDefault (baseClassId : Id) (providerId : Option (Option Id))
    (model : Option (Option Str)) : Option Registry :=
  match s.world.activeClass? baseClassId with
  | none => none
  | some _ =>
    let org := s.world.organizations.rows.find? fun o =>
      decide (o.slug = "default".toList) && !o.deleted
    let known := providerId.join.all fun id =>
      org.any fun o => (s.provider? o.id id).isSome
    let binding := s.baseClassDefault baseClassId
    match providerId.getD (binding.map ProviderDefault.providerId),
        truthy (model.getD (binding.map ProviderDefault.model)) with
    | some providerId, some model =>
      if known then
        some { s with
          baseClassDefault := setAt s.baseClassDefault baseClassId (some ⟨providerId, model⟩) }
      else none
    | _, _ => none

end

/-- The requests about providers; between them, `change` is whatever else goes on. -/
inductive ProviderRequest where
  | change (w : World)
  | createProvider (orgId : Id) (p : OrganizationProvider)
  | updateProvider (orgId providerId : Id) (patch : ProviderPatch)
  | deleteProvider (orgId providerId : Id)
  | setDefault (orgId providerId : Id) (target : DefaultTarget) (model : Str)
  | updateSystemHub (orgId : Id) (providerId : Option (Option Id)) (model : Option (Option Str))
  | updateCerebellumDefaults (orgId : Id) (providerId : Option (Option Id))
      (model : Option (Option Str))
  | updateProviderDefault (baseClassId : Id) (providerId : Option (Option Id))
      (model : Option (Option Str))

namespace Registry

def serve? (s : Registry) : ProviderRequest → Option Registry
  | .change w => some { s with world := w }
  | .createProvider orgId p => createProvider s orgId p
  | .updateProvider orgId providerId patch => updateProvider s orgId providerId patch
  | .deleteProvider orgId providerId => deleteProvider s orgId providerId
  | .setDefault orgId providerId target model => setDefault s orgId providerId target model
  | .updateSystemHub orgId providerId model => updateSystemHub s orgId providerId model
  | .updateCerebellumDefaults orgId providerId model =>
    updateCerebellumDefaults s orgId providerId model
  | .updateProviderDefault baseClassId providerId model =>
    updateProviderDefault s baseClassId providerId model

def serve (s : Registry) (r : ProviderRequest) : Registry := (s.serve? r).getD s

end Registry

end Eyot.Tenancy
