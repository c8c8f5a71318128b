import Eyot.Library.Keeps
import Eyot.Library.Run
import Eyot.Tenancy.Providers

/-! Whose provider an instance runs on. -/

namespace Eyot.Tenancy

open Market (BaseClass Namespace Organization)

variable {s s' : Registry}

/-- Every instance runs on a provider of the organization that owns the namespace of its entity. -/
def Isolated (s : Registry) : Prop :=
  ∀ id p model, s.resolveProviderForInstance id = some (p, model) →
    ∃ e, s.world.entityOf? id = some e ∧ s.world.ownerOf e = some p.organizationId

/-- An instance of the base class stands in another organization. -/
def Strange (w : World) (baseClassId orgId : Id) : Prop :=
  ∃ id e b, w.entityOf? id = some e ∧ w.classOf? e = some b ∧ b.id = baseClassId ∧
    w.ownerOf e ≠ some orgId

/-- What a base class defaults to belongs where its instances stand. -/
def DefaultsAtHome (s : Registry) : Prop :=
  ∀ baseClassId d p, s.baseClassDefault baseClassId = some d → s.usable? d.providerId = some p →
    ¬Strange s.world baseClassId p.organizationId

/-- The other defaults never leave the organization, and all of them are there. -/
structure Rooted (s : Registry) : Prop where
  systemHub : ∀ orgId id, (s.systemHub orgId).providerId = some id →
    (s.providers.find? id).map OrganizationProvider.organizationId = some orgId
  cerebellum : ∀ orgId id, (s.cerebellumDefault orgId).providerId = some id →
    (s.providers.find? id).map OrganizationProvider.organizationId = some orgId
  baseClass : ∀ baseClassId d, s.baseClassDefault baseClassId = some d →
    ∃ p, s.providers.find? d.providerId = some p

theorem usable?_find {id : Id} {p : OrganizationProvider} (h : s.usable? id = some p) :
    s.providers.find? id = some p :=
  (Option.filter_eq_some_iff.mp h).1

theorem orgDefault?_organizationId {d : OrgDefault} {orgId : Id} {p : OrganizationProvider}
    {model : Option Str} (hd : ∀ id, d.providerId = some id →
      (s.providers.find? id).map OrganizationProvider.organizationId = some orgId)
    (h : s.orgDefault? d = some (p, model)) : p.organizationId = orgId := by
  obtain ⟨q, hq, heq⟩ := Option.map_eq_some_iff.mp h
  obtain ⟨rfl, -⟩ := Prod.mk.inj heq
  obtain ⟨id, hid, hq⟩ := Option.bind_eq_some_iff.mp hq
  have horg := hd id hid
  rw [usable?_find hq, Option.map_some] at horg
  exact Option.some.inj horg

theorem orgOf?_ownerOf {w : World} {e : Entity} {org : Organization} (h : w.orgOf? e = some org) :
    w.ownerOf e = some org.id := by
  obtain ⟨n, hn, horg⟩ := Option.bind_eq_some_iff.mp h
  have hfind := (Option.filter_eq_some_iff.mp hn).1
  rw [World.ownerOf, hfind, Option.map_some,
    Table.find?_key (Option.filter_eq_some_iff.mp horg).1]

/-- With the other defaults in place, the base classes alone decide. -/
theorem isolated_iff_defaultsAtHome (hs : Rooted s) : Isolated s ↔ DefaultsAtHome s := by
  constructor
  · rintro hisolated baseClassId d p hd hp ⟨id, e, b, he, hb, rfl, hstrange⟩
    have hresolve : s.resolveProviderForInstance id = some (p, some d.model) := by
      rw [Registry.resolveProviderForInstance, he, Option.bind_some, Registry.classDefault?, hb,
        Option.bind_some, hd, Option.bind_some, hp]
      rfl
    obtain ⟨e', he', howner⟩ := hisolated id p (some d.model) hresolve
    cases he.symm.trans he'
    exact hstrange howner
  · intro hhome id p model h
    obtain ⟨e, he, h⟩ := Option.bind_eq_some_iff.mp h
    refine ⟨e, he, ?_⟩
    rcases Option.or_eq_some_iff.mp h with hclass | ⟨-, horg⟩
    · obtain ⟨b, hb, hclass⟩ := Option.bind_eq_some_iff.mp hclass
      obtain ⟨d, hd, hclass⟩ := Option.bind_eq_some_iff.mp hclass
      obtain ⟨q, hq, heq⟩ := Option.map_eq_some_iff.mp hclass
      obtain ⟨rfl, -⟩ := Prod.mk.inj heq
      by_contra hstrange
      exact hhome b.id d q hd hq ⟨id, e, b, he, hb, rfl, hstrange⟩
    · obtain ⟨org, horg, h⟩ := Option.bind_eq_some_iff.mp horg
      rw [orgOf?_ownerOf horg]
      congr 1
      rcases Option.or_eq_some_iff.mp h with hhub | ⟨-, h⟩
      · exact (orgDefault?_organizationId (hs.systemHub org.id) hhub).symm
      · rcases Option.or_eq_some_iff.mp h with hcerebellum | ⟨-, hany⟩
        · exact (orgDefault?_organizationId (hs.cerebellum org.id) hcerebellum).symm
        · obtain ⟨q, hq, heq⟩ := Option.map_eq_some_iff.mp hany
          obtain ⟨rfl, -⟩ := Prod.mk.inj heq
          have := List.find?_some hq
          simp only [Bool.and_eq_true, decide_eq_true_eq] at this
          exact this.1.1.symm

/-! What the requests keep. -/

theorem Rooted.keep (hs : Rooted s)
    (hproviders : Table.Keeps OrganizationProvider.organizationId s.providers s'.providers)
    (hhub : s'.systemHub = s.systemHub) (hcerebellum : s'.cerebellumDefault = s.cerebellumDefault)
    (hclass : s'.baseClassDefault = s.baseClassDefault) : Rooted s' := by
  refine ⟨?_, ?_, ?_⟩
  · intro orgId id hid
    rw [hhub] at hid
    exact hproviders id orgId (hs.systemHub orgId id hid)
  · intro orgId id hid
    rw [hcerebellum] at hid
    exact hproviders id orgId (hs.cerebellum orgId id hid)
  · intro baseClassId d hd
    rw [hclass] at hd
    obtain ⟨p, hp⟩ := hs.baseClass baseClassId d hd
    obtain ⟨p', hp', -⟩ := Option.map_eq_some_iff.mp (hproviders.view_eq hp)
    exact ⟨p', hp'⟩

theorem provider?_find {orgId id : Id} {p : OrganizationProvider}
    (h : s.provider? orgId id = some p) :
    s.providers.find? id = some p ∧ p.organizationId = orgId ∧ p.deleted = false := by
  obtain ⟨hfind, hp⟩ := Option.filter_eq_some_iff.mp h
  simp only [Bool.and_eq_true, decide_eq_true_eq, Bool.not_eq_true'] at hp
  exact ⟨hfind, hp⟩

theorem provider?_rooted {orgId id : Id} {p : OrganizationProvider}
    (h : s.provider? orgId id = some p) :
    (s.providers.find? id).map OrganizationProvider.organizationId = some orgId := by
  obtain ⟨hfind, horg, -⟩ := provider?_find h
  rw [hfind, Option.map_some, horg]

/-- A new value in one place leaves those in the others. -/
theorem forall_setAt {α : Type} {q : Id → α → Prop} {f : Id → α} {id : Id} {a : α}
    (hf : ∀ id', q id' (f id')) (ha : q id a) (id' : Id) : q id' (setAt f id a id') := by
  by_cases h : id' = id
  · subst h
    rw [setAt, Function.update_self]
    exact ha
  · rw [setAt, Function.update_of_ne h]
    exact hf id'

theorem rooted_setAt {f : Id → OrgDefault} {orgId : Id} {d : OrgDefault}
    (hf : ∀ orgId id, (f orgId).providerId = some id →
      (s.providers.find? id).map OrganizationProvider.organizationId = some orgId)
    (hd : ∀ id, d.providerId = some id →
      (s.providers.find? id).map OrganizationProvider.organizationId = some orgId) :
    ∀ orgId' id, (setAt f orgId d orgId').providerId = some id →
      (s.providers.find? id).map OrganizationProvider.organizationId = some orgId' :=
  forall_setAt (q := fun orgId (d : OrgDefault) => ∀ id, d.providerId = some id →
    (s.providers.find? id).map OrganizationProvider.organizationId = some orgId) hf hd

theorem rooted_patch {orgId : Id} {d : OrgDefault} {providerId : Option (Option Id)}
    {model : Option (Option Str)} (hown : ownProvider s orgId providerId = true)
    (hd : ∀ id, d.providerId = some id →
      (s.providers.find? id).map OrganizationProvider.organizationId = some orgId) :
    ∀ id, (d.patch providerId model).providerId = some id →
      (s.providers.find? id).map OrganizationProvider.organizationId = some orgId := by
  intro id hid
  cases providerId with
  | none => exact hd id hid
  | some providerId =>
    simp only [OrgDefault.patch, Option.getD_some] at hid
    subst hid
    obtain ⟨p, hp⟩ := Option.isSome_iff_exists.mp hown
    exact provider?_rooted hp

/-- What a super-admin gives a base class: a provider of the default organization, or another model
for the provider it has. -/
theorem updateProviderDefault_eq_some {baseClassId : Id} {providerId : Option (Option Id)}
    {model : Option (Option Str)}
    (h : updateProviderDefault s baseClassId providerId model = some s') :
    ∃ id name, s' = { s with
        baseClassDefault := setAt s.baseClassDefault baseClassId (some ⟨id, name⟩) } ∧
      ((providerId = some (some id) ∧ ∃ orgId p, s.provider? orgId id = some p) ∨
        (providerId = none ∧ ∃ d, s.baseClassDefault baseClassId = some d ∧
          d.providerId = id)) := by
  simp only [updateProviderDefault] at h
  split at h
  · cases h
  · split at h
    · rename_i id name hid _
      split at h
      · rename_i hknown
        cases h
        refine ⟨id, name, rfl, ?_⟩
        cases providerId with
        | none =>
          obtain ⟨d, hd, rfl⟩ := Option.map_eq_some_iff.mp hid
          exact .inr ⟨rfl, d, hd, rfl⟩
        | some sent =>
          rw [Option.getD_some] at hid
          subst hid
          obtain ⟨o, -, hp⟩ := (Option.any_eq_true _ _).mp hknown
          obtain ⟨p, hp⟩ := Option.isSome_iff_exists.mp hp
          exact .inl ⟨rfl, o.id, p, hp⟩
      · cases h
    · cases h

theorem rooted_serve? {r : ProviderRequest} (hs : Rooted s) (h : s.serve? r = some s') :
    Rooted s' := by
  cases r with
  | change w =>
    cases h
    exact hs.keep (.refl _) rfl rfl rfl
  | createProvider orgId p =>
    simp only [Registry.serve?, createProvider] at h
    split at h
    · cases h
    · obtain ⟨providers, hproviders, rfl⟩ := Option.map_eq_some_iff.mp h
      exact hs.keep (Table.keeps_insert? hproviders) rfl rfl rfl
  | updateProvider orgId providerId patch =>
    simp only [Registry.serve?, updateProvider] at h
    split at h <;> cases h
    exact hs.keep (Table.keeps_updateWhere _ patch.apply_id fun _ => rfl) rfl rfl rfl
  | deleteProvider orgId providerId =>
    simp only [Registry.serve?, deleteProvider] at h
    split at h <;> cases h
    exact hs.keep
      (Table.keeps_updateWhere _ OrganizationProvider.softDelete_id fun _ => rfl) rfl rfl rfl
  | setDefault orgId providerId target model =>
    simp only [Registry.serve?, setDefault] at h
    split at h
    · rename_i p _ hp
      have hroot : ∀ id, some providerId = some id →
          (s.providers.find? id).map OrganizationProvider.organizationId = some orgId := by
        rintro id ⟨⟩
        exact provider?_rooted hp
      cases target with
      | systemHub =>
        cases h
        exact ⟨rooted_setAt hs.systemHub hroot, hs.cerebellum, hs.baseClass⟩
      | cerebellum =>
        cases h
        exact ⟨hs.systemHub, rooted_setAt hs.cerebellum hroot, hs.baseClass⟩
      | baseClasses ids =>
        simp only at h
        split at h
        · cases h
          refine ⟨hs.systemHub, hs.cerebellum, ?_⟩
          intro baseClassId d hd
          simp only at hd
          split at hd
          · cases hd
            exact ⟨p, (provider?_find hp).1⟩
          · exact hs.baseClass baseClassId d hd
        · cases h
    · cases h
  | updateSystemHub orgId providerId model =>
    simp only [Registry.serve?, updateSystemHub] at h
    split at h
    · rename_i hown
      rw [Bool.and_eq_true] at hown
      cases h
      exact ⟨rooted_setAt hs.systemHub (rooted_patch hown.2 (hs.systemHub orgId)), hs.cerebellum,
        hs.baseClass⟩
    · cases h
  | updateCerebellumDefaults orgId providerId model =>
    simp only [Registry.serve?, updateCerebellumDefaults] at h
    split at h
    · rename_i hown
      rw [Bool.and_eq_true] at hown
      cases h
      exact ⟨hs.systemHub, rooted_setAt hs.cerebellum (rooted_patch hown.2 (hs.cerebellum orgId)),
        hs.baseClass⟩
    · cases h
  | updateProviderDefault baseClassId providerId model =>
    obtain ⟨id, name, rfl, hid⟩ := updateProviderDefault_eq_some h
    refine ⟨hs.systemHub, hs.cerebellum, ?_⟩
    have hthere : ∃ p, s.providers.find? id = some p := by
      rcases hid with ⟨-, orgId, p, hp⟩ | ⟨-, d, hd, rfl⟩
      · exact ⟨p, (provider?_find hp).1⟩
      · exact hs.baseClass baseClassId d hd
    refine forall_setAt (q := fun _ d? => ∀ d : ProviderDefault, d? = some d →
      ∃ p, s.providers.find? d.providerId = some p) hs.baseClass ?_
    rintro _ ⟨⟩
    exact hthere

theorem rooted_empty (w : World) : Rooted (.empty w) := by
  refine ⟨?_, ?_, ?_⟩ <;> intro _ _ h <;> cases h

/-! What has to hold of a request for the defaults to stay at home. -/

/-- What base classes default to is given to none that has instances elsewhere. -/
def KeepsHome (s : Registry) : ProviderRequest → Prop
  | .change w => ∀ baseClassId d p, s.baseClassDefault baseClassId = some d →
      s.usable? d.providerId = some p → ¬Strange w baseClassId p.organizationId
  | .updateProvider orgId providerId patch => ∀ p, s.provider? orgId providerId = some p →
      (patch.apply p).enabled → ∀ baseClassId d, s.baseClassDefault baseClassId = some d →
        d.providerId = providerId → ¬Strange s.world baseClassId orgId
  | .setDefault orgId providerId (.baseClasses ids) _ => (s.usable? providerId).isSome →
      ∀ baseClassId ∈ ids, ¬Strange s.world baseClassId orgId
  | .updateProviderDefault baseClassId (some (some providerId)) _ =>
      ∀ p, s.usable? providerId = some p → ¬Strange s.world baseClassId p.organizationId
  | _ => True

theorem home_congr (hworld : s'.world = s.world)
    (hclass : s'.baseClassDefault = s.baseClassDefault)
    (husable : ∀ baseClassId d, s.baseClassDefault baseClassId = some d →
      s'.usable? d.providerId = s.usable? d.providerId) :
    DefaultsAtHome s' ↔ DefaultsAtHome s := by
  simp only [DefaultsAtHome, hworld, hclass]
  constructor
  · intro h baseClassId d p hd hp
    exact h baseClassId d p hd ((husable baseClassId d hd).trans hp)
  · intro h baseClassId d p hd hp
    exact h baseClassId d p hd ((husable baseClassId d hd).symm.trans hp)

/-- New bindings are all there is to look at. -/
theorem home_rebind (hhome : DefaultsAtHome s) {f : Id → Option ProviderDefault} {q : Id → Prop}
    {id : Id} {name : Str} (hnew : ∀ baseClassId, q baseClassId →
      f baseClassId = some ⟨id, name⟩)
    (hold : ∀ baseClassId, ¬q baseClassId → f baseClassId = s.baseClassDefault baseClassId) :
    DefaultsAtHome { s with baseClassDefault := f } ↔
      ∀ p, s.usable? id = some p → ∀ baseClassId, q baseClassId →
        ¬Strange s.world baseClassId p.organizationId := by
  constructor
  · intro h p hp baseClassId hq
    exact h baseClassId ⟨id, name⟩ p (hnew baseClassId hq) hp
  · intro h baseClassId d p hd hp
    by_cases hq : q baseClassId
    · have hd' : f baseClassId = some d := hd
      rw [hnew baseClassId hq] at hd'
      cases hd'
      exact h p hp baseClassId hq
    · exact hhome baseClassId d p ((hold baseClassId hq).symm.trans hd) hp

theorem home_createProvider (hs : Rooted s) {orgId : Id} {p : OrganizationProvider}
    (h : createProvider s orgId p = some s') : DefaultsAtHome s' ↔ DefaultsAtHome s := by
  simp only [createProvider] at h
  split at h
  · cases h
  · obtain ⟨providers, hproviders, rfl⟩ := Option.map_eq_some_iff.mp h
    refine home_congr (s := s) ?_ ?_ ?_
    · rfl
    · rfl
    intro baseClassId d hd
    obtain ⟨q, hq⟩ := hs.baseClass baseClassId d hd
    have hkept : providers.find? d.providerId = s.providers.find? d.providerId :=
      (Table.find?_of_insert? hproviders hq).trans hq.symm
    exact congrArg _ hkept

/-- A provider that is there, after an update of it. -/
theorem usable?_update {orgId providerId : Id} {p : OrganizationProvider}
    (hp : s.provider? orgId providerId = some p) (f : OrganizationProvider → OrganizationProvider)
    (hf : ∀ p, (f p).id = p.id) (id : Id) :
    ({ s with providers := s.providers.update providerId f hf } : Registry).usable? id =
      if id = providerId then (some (f p)).filter fun p => !p.deleted && p.enabled
      else s.usable? id := by
  rw [Registry.usable?, Table.find?_update]
  split
  · rename_i hid
    rw [hid, (provider?_find hp).1, Option.map_some]
  · rfl

theorem home_updateProvider (hhome : DefaultsAtHome s) {orgId providerId : Id}
    {patch : ProviderPatch} (h : updateProvider s orgId providerId patch = some s') :
    DefaultsAtHome s' ↔ KeepsHome s (.updateProvider orgId providerId patch) := by
  simp only [updateProvider] at h
  split at h
  · rename_i p _ hp
    cases h
    obtain ⟨-, horg, hactive⟩ := provider?_find hp
    have husable := usable?_update hp patch.apply patch.apply_id
    constructor
    · intro hhome' p' hp' henabled baseClassId d hd hid
      cases hp.symm.trans hp'
      have := hhome' baseClassId d (patch.apply p) hd
      rw [husable, if_pos hid] at this
      exact horg ▸ this (Option.filter_eq_some_iff.mpr ⟨rfl, by
        rw [henabled, Bool.and_true, Bool.not_eq_true']
        exact hactive⟩)
    · intro hkeeps baseClassId d q hd hq
      rw [husable] at hq
      split at hq
      · rename_i hid
        obtain ⟨heq, hq⟩ := Option.filter_eq_some_iff.mp hq
        cases heq
        rw [Bool.and_eq_true] at hq
        have := hkeeps p hp hq.2 baseClassId d hd hid
        rw [← horg] at this
        exact this
      · exact hhome baseClassId d q hd hq
  · cases h

theorem home_deleteProvider (hhome : DefaultsAtHome s) {orgId providerId : Id}
    (h : deleteProvider s orgId providerId = some s') : DefaultsAtHome s' := by
  simp only [deleteProvider] at h
  split at h
  · rename_i p _ hp
    cases h
    intro baseClassId d q hd hq
    rw [usable?_update hp _ OrganizationProvider.softDelete_id] at hq
    split at hq
    · cases hq
    · exact hhome baseClassId d q hd hq
  · cases h

theorem home_setDefault (hhome : DefaultsAtHome s) {orgId providerId : Id} {target : DefaultTarget}
    {model : Str} (h : setDefault s orgId providerId target model = some s') :
    DefaultsAtHome s' ↔ KeepsHome s (.setDefault orgId providerId target model) := by
  simp only [setDefault] at h
  split at h
  · rename_i p _ hp
    cases target with
    | systemHub =>
      cases h
      exact iff_of_true hhome trivial
    | cerebellum =>
      cases h
      exact iff_of_true hhome trivial
    | baseClasses ids =>
      simp only at h
      split at h
      · cases h
        rw [home_rebind hhome (q := (· ∈ ids)) (fun _ h => if_pos (List.contains_iff_mem.mpr h))
          fun _ h => if_neg fun hmem => h (List.contains_iff_mem.mp hmem)]
        obtain ⟨hfind, horg, -⟩ := provider?_find hp
        constructor
        · intro h husable baseClassId hid
          obtain ⟨q, hq⟩ := Option.isSome_iff_exists.mp husable
          cases hfind.symm.trans (usable?_find hq)
          exact horg ▸ h p hq baseClassId hid
        · intro h q hq baseClassId hid
          cases hfind.symm.trans (usable?_find hq)
          rw [horg]
          exact h (by rw [hq]; rfl) baseClassId hid
      · cases h
  · cases h

theorem home_updateProviderDefault (hhome : DefaultsAtHome s) {baseClassId : Id}
    {providerId : Option (Option Id)} {model : Option (Option Str)}
    (h : updateProviderDefault s baseClassId providerId model = some s') :
    DefaultsAtHome s' ↔ KeepsHome s (.updateProviderDefault baseClassId providerId model) := by
  obtain ⟨id, name, rfl, hid⟩ := updateProviderDefault_eq_some h
  have hnew : ∀ b, b = baseClassId →
      setAt s.baseClassDefault baseClassId (some ⟨id, name⟩) b = some ⟨id, name⟩ := by
    rintro _ rfl
    exact Function.update_self ..
  rw [home_rebind hhome hnew fun _ hne => Function.update_of_ne hne ..]
  rcases hid with ⟨rfl, -⟩ | ⟨rfl, d, hd, rfl⟩
  · constructor
    · intro h p hp
      exact h p hp baseClassId rfl
    · rintro h p hp _ rfl
      exact h p hp
  · apply iff_of_true _ trivial
    rintro p hp _ rfl
    exact hhome _ d p hd hp

theorem home_serve? (hs : Rooted s) (hhome : DefaultsAtHome s) {r : ProviderRequest}
    (h : s.serve? r = some s') : DefaultsAtHome s' ↔ KeepsHome s r := by
  cases r with
  | change w =>
    cases h
    exact Iff.rfl
  | createProvider orgId p => exact iff_of_true ((home_createProvider hs h).mpr hhome) trivial
  | updateProvider orgId providerId patch => exact home_updateProvider hhome h
  | deleteProvider orgId providerId => exact iff_of_true (home_deleteProvider hhome h) trivial
  | setDefault orgId providerId target model => exact home_setDefault hhome h
  | updateSystemHub orgId providerId model =>
    simp only [Registry.serve?, updateSystemHub] at h
    split at h <;> cases h
    exact iff_of_true hhome trivial
  | updateCerebellumDefaults orgId providerId model =>
    simp only [Registry.serve?, updateCerebellumDefaults] at h
    split at h <;> cases h
    exact iff_of_true hhome trivial
  | updateProviderDefault baseClassId providerId model => exact home_updateProviderDefault hhome h

theorem rooted_serve (s : Registry) (r : ProviderRequest) (hs : Rooted s) :
    Rooted (s.serve r) := by
  unfold Registry.serve
  cases h : s.serve? r with
  | none => exact hs
  | some s' => exact rooted_serve? hs h

theorem isolated_serve (s : Registry) (r : ProviderRequest) (hs : Rooted s) (hi : Isolated s) :
    Isolated (s.serve r) ↔ ((s.serve? r).isSome → KeepsHome s r) := by
  rw [isolated_iff_defaultsAtHome (rooted_serve s r hs)]
  rw [isolated_iff_defaultsAtHome hs] at hi
  unfold Registry.serve
  cases h : s.serve? r with
  | none => exact iff_of_true hi nofun
  | some s' =>
    rw [Option.getD_some, home_serve? hs hi h]
    exact ⟨fun hr _ => hr, fun hr => hr rfl⟩

theorem isolated_empty (w : World) : Isolated (.empty w) := by
  rw [isolated_iff_defaultsAtHome (rooted_empty w)]
  intro _ _ _ h
  cases h

/-- Instances run on their own organization's providers for as long as no base class with
instances elsewhere is given one, or gets such an instance. -/
theorem providersIsolated_iff (w : World) (rs : List ProviderRequest) :
    Run.Always Registry.serve Isolated (.empty w) rs ↔
      Run.Meets Registry.serve (fun s r => (s.serve? r).isSome → KeepsHome s r) (.empty w) rs :=
  Run.always_iff_meets rooted_serve isolated_serve (rooted_empty w) (isolated_empty w) rs

theorem shared_nodup : ["acme", "globex"].Nodup := by decide

/-- A base class of the system, and a fox of globex. -/
def shared : World where
  organizations :=
    ⟨[⟨"acme", "acme".toList, false⟩, ⟨"globex", "globex".toList, false⟩], shared_nodup⟩
  namespaces := .single ⟨"ops", "globex", false⟩
  entities := .single ⟨"scout", "ops", "scout".toList, some "fox".toList, false⟩
  instances := .single ⟨"scout-1", "scout", "den", .running, none⟩
  baseClasses := .single ⟨"fox", "fox".toList, .system, none, false⟩

/-- It runs on the key of acme. -/
theorem not_isolated_shared :
    ¬Run.Always Registry.serve Isolated (.empty shared)
      [.createProvider "acme" ⟨"llm", "acme", none, "llm".toList, "key".toList, "m".toList, true,
          false⟩,
        .setDefault "acme" "llm" (.baseClasses ["fox"]) "m".toList] := by
  intro h
  obtain ⟨e, he, howner⟩ := h.exec "scout-1"
    ⟨"llm", "acme", none, "llm".toList, "key".toList, "m".toList, true, false⟩
    (some "m".toList) rfl
  cases he
  exact absurd howner (of_decide_eq_false rfl)

end Eyot.Tenancy
