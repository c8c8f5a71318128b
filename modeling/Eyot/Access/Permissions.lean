import Eyot.Access.Rows

/-! `require_permission`, and whose grants it goes by. -/

namespace Eyot.Access

/-- The ids that come with a request, from its path, its query, its body or a header. -/
structure ResourceIds where
  organizationId : Option Id
  namespaceId : Option Id
  workspaceId : Option Id

def userNotFound (userId : Id) : Refusal :=
  .api (ForbiddenError "auth.user_not_found" "errors.auth.user_not_found"
    s!"User '{userId}' not found") [("user_id", some userId)]

def workspaceNotFound (id : Id) : Refusal :=
  .api (NotFoundError "workspace.not_found" "errors.workspace.not_found"
    s!"Workspace '{id}' not found") []

def namespaceNotFound (id : Id) : Refusal :=
  .api (NotFoundError "namespace.not_found" "errors.namespace.not_found"
    s!"Namespace '{id}' not found") []

def organizationMismatch (expected got : Id) : Refusal :=
  .api (ForbiddenError "organization.mismatch" "errors.organization.mismatch"
    "X-Organization-Id does not match the resource's organization")
    [("expected", some expected), ("got", some got)]

def permissionDenied (userId : Id) (permissionKey : Str) (orgId nsId workspaceId : Option Id) :
    Refusal :=
  .api (ForbiddenError "permission.denied" "errors.permission.denied"
    s!"User '{userId}' lacks permission '{String.ofList permissionKey}'")
    [("user_id", some userId), ("permission_key", some (String.ofList permissionKey)),
      ("organization_id", orgId), ("namespace_id", nsId), ("workspace_id", workspaceId)]

section

variable (s : Db)

/-- A namespace id that is sent beside a workspace id stays, whatever the workspace is in. -/
def resolveNs (ids : ResourceIds) : Except Refusal (Option Id) :=
  match ids.workspaceId with
  | none => .ok ids.namespaceId
  | some id =>
    match s.activeWorkspace? id with
    | none => .error (workspaceNotFound id)
    | some w => .ok (ids.namespaceId.or (some w.namespaceId))

def resolveOrg (organizationId : Option Id) : Option Id → Except Refusal (Option Id)
  | none => .ok organizationId
  | some nsId =>
    match s.activeNamespace? nsId with
    | none => .error (namespaceNotFound nsId)
    | some n =>
      match organizationId with
      | none => .ok (some n.orgId)
      | some got =>
        if got = n.orgId then .ok (some n.orgId) else .error (organizationMismatch n.orgId got)

def resolveOrgNs (ids : ResourceIds) : Except Refusal (Option Id × Option Id) := do
  let nsId ← resolveNs s ids
  let orgId ← resolveOrg s ids.organizationId nsId
  pure (orgId, nsId)

def listGrantSlugs (userId : Id) (organizationId namespaceId : Option Id) : List Str :=
  organizationId.toList.flatMap (s.organization.grantSlugs s.userGenes · userId) ++
    namespaceId.toList.flatMap (s.namespaced.grantSlugs s.userGenes · userId)

def requirePermission (userId : Id) (permissionKey : Str) (ids : ResourceIds) :
    Except Refusal Unit :=
  match s.activeUser? userId with
  | none => .error (userNotFound userId)
  | some user =>
    if user.isSuperAdmin then .ok ()
    else do
      let (orgId, nsId) ← resolveOrgNs s ids
      if (listGrantSlugs s userId orgId nsId).contains permissionKey then pure ()
      else throw (permissionDenied userId permissionKey orgId nsId ids.workspaceId)

end

/-! Whom a permission should be for. -/

/-- The organization that the deepest resource belongs to, and its namespace. -/
def Db.home? (s : Db) (ids : ResourceIds) : Option (Id × Option Id) :=
  match ids.workspaceId, ids.namespaceId with
  | some id, _ => (s.activeWorkspace? id).bind fun w =>
      (s.activeNamespace? w.namespaceId).map fun n => (n.orgId, some w.namespaceId)
  | none, some id => (s.activeNamespace? id).map fun n => (n.orgId, some id)
  | none, none => ids.organizationId.map fun id => (id, none)

section

variable (s : Db) (userId : Id) (permissionKey : Str)

/-- The user holds the atom there, and no other organization is named. -/
def GrantedAt (organizationId : Option Id) : Id × Option Id → Prop
  | (orgId, nsId) => (∀ got, organizationId = some got → got = orgId) ∧
      (Holds s.organization s.userGenes orgId userId permissionKey ∨
        ∃ id, nsId = some id ∧ Holds s.namespaced s.userGenes id userId permissionKey)

def Granted (ids : ResourceIds) : Prop :=
  ∃ home, s.home? ids = some home ∧ GrantedAt s userId permissionKey ids.organizationId home

def MayPass (ids : ResourceIds) : Prop :=
  ∃ user, s.activeUser? userId = some user ∧
    (user.isSuperAdmin = true ∨ Granted s userId permissionKey ids)

/-- A namespace id beside the id of a workspace leads to what the workspace leads to. -/
def Agrees (ids : ResourceIds) : Prop :=
  ∀ user workspaceId w, s.activeUser? userId = some user → user.isSuperAdmin = false →
    ids.workspaceId = some workspaceId → s.activeWorkspace? workspaceId = some w →
    ∀ nsId, ids.namespaceId = some nsId →
      (Granted s userId permissionKey ⟨ids.organizationId, some nsId, none⟩ ↔
        Granted s userId permissionKey ⟨ids.organizationId, some w.namespaceId, none⟩)

end

variable {s : Db} {userId : Id} {permissionKey : Str} {ids : ResourceIds}

theorem mem_listGrantSlugs {orgId nsId : Option Id} :
    permissionKey ∈ listGrantSlugs s userId orgId nsId ↔
      (∃ id, orgId = some id ∧ Holds s.organization s.userGenes id userId permissionKey) ∨
        ∃ id, nsId = some id ∧ Holds s.namespaced s.userGenes id userId permissionKey := by
  simp only [listGrantSlugs, List.mem_append, List.mem_flatMap, Option.mem_toList,
    mem_grantSlugs]

/-- Without a workspace the check goes by what is sent. -/
theorem resolveOrg_granted {organizationId nsId : Option Id} :
    (∃ orgId, resolveOrg s organizationId nsId = .ok orgId ∧
      permissionKey ∈ listGrantSlugs s userId orgId nsId) ↔
      Granted s userId permissionKey ⟨organizationId, nsId, none⟩ := by
  simp only [mem_listGrantSlugs, Granted, Db.home?, GrantedAt]
  cases nsId with
  | none => cases organizationId <;> simp [resolveOrg]
  | some nsId =>
    cases hn : s.activeNamespace? nsId with
    | none => simp [resolveOrg, hn]
    | some n =>
      cases organizationId with
      | none => simp [resolveOrg, hn]
      | some got =>
        by_cases hgot : got = n.orgId <;> simp [resolveOrg, hn, hgot]

/-- A workspace is where its namespace is. -/
theorem granted_workspace {workspaceId : Id} {w : Workspace}
    (hids : ids.workspaceId = some workspaceId) (hw : s.activeWorkspace? workspaceId = some w) :
    Granted s userId permissionKey ids ↔
      Granted s userId permissionKey ⟨ids.organizationId, some w.namespaceId, none⟩ := by
  simp only [Granted, Db.home?, hids, hw, Option.bind_some]

theorem requirePermission_eq_ok :
    requirePermission s userId permissionKey ids = .ok () ↔
      ∃ user, s.activeUser? userId = some user ∧ (user.isSuperAdmin = true ∨
        ∃ nsId, resolveNs s ids = .ok nsId ∧
          Granted s userId permissionKey ⟨ids.organizationId, nsId, none⟩) := by
  unfold requirePermission
  cases huser : s.activeUser? userId with
  | none => simp
  | some user =>
    cases hsuper : user.isSuperAdmin with
    | true => simp [hsuper]
    | false =>
      simp only [hsuper, Bool.false_eq_true, if_false, Option.some.injEq, exists_eq_left', false_or,
        resolveOrgNs, ← resolveOrg_granted]
      cases hns : resolveNs s ids with
      | error e => simp [bind, Except.bind]
      | ok nsId =>
        cases horg : resolveOrg s ids.organizationId nsId with
        | error e => simp [bind, Except.bind, horg]
        | ok orgId => simp [bind, Except.bind, pure, Except.pure, throw, throwThe,
            MonadExceptOf.throw, horg]

/-- The namespace the check goes by is the one of the deepest resource, or beside its workspace. -/
theorem requirePermission_iff_mayPass
    (h : ∀ user, s.activeUser? userId = some user → user.isSuperAdmin = false →
      ((∃ nsId, resolveNs s ids = .ok nsId ∧
        Granted s userId permissionKey ⟨ids.organizationId, nsId, none⟩) ↔
          Granted s userId permissionKey ids)) :
    requirePermission s userId permissionKey ids = .ok () ↔ MayPass s userId permissionKey ids := by
  rw [requirePermission_eq_ok]
  apply exists_congr
  intro user
  apply and_congr_right
  intro huser
  cases hsuper : user.isSuperAdmin with
  | true => simp
  | false => simp only [Bool.false_eq_true, false_or, h user huser hsuper]

theorem not_granted_missing {workspaceId : Id} (hids : ids.workspaceId = some workspaceId)
    (hw : s.activeWorkspace? workspaceId = none) : ¬Granted s userId permissionKey ids := by
  rintro ⟨home, hhome, -⟩
  simp only [Db.home?, hids, hw, Option.bind_none, reduceCtorEq] at hhome

/-- The check lets through whom it should, but for a namespace id that leads elsewhere than the
workspace it is sent with. -/
theorem passes_iff_mayPass (s : Db) (userId : Id) (permissionKey : Str) (ids : ResourceIds) :
    (requirePermission s userId permissionKey ids = .ok () ↔
      MayPass s userId permissionKey ids) ↔ Agrees s userId permissionKey ids := by
  obtain ⟨organizationId, namespaceId, workspaceId⟩ := ids
  cases workspaceId with
  | none =>
    apply iff_of_true
    · apply requirePermission_iff_mayPass
      intro _ _ _
      simp only [resolveNs, Except.ok.injEq, exists_eq_left']
    · intro _ _ _ _ _ hids
      cases hids
  | some workspaceId =>
    cases hw : s.activeWorkspace? workspaceId with
    | none =>
      apply iff_of_true
      · apply requirePermission_iff_mayPass
        intro _ _ _
        apply iff_of_false
        · simp [resolveNs, hw]
        · exact not_granted_missing rfl hw
      · intro _ _ w _ _ hids hw'
        cases hids
        cases hw.symm.trans hw'
    | some w =>
      have hown : Granted s userId permissionKey ⟨organizationId, namespaceId, some workspaceId⟩ ↔
          Granted s userId permissionKey ⟨organizationId, some w.namespaceId, none⟩ :=
        granted_workspace rfl hw
      cases namespaceId with
      | none =>
        apply iff_of_true
        · apply requirePermission_iff_mayPass
          intro _ _ _
          simp only [resolveNs, hw, Option.none_or, Except.ok.injEq, exists_eq_left', hown]
        · intro _ _ _ _ _ _ _ nsId hns
          cases hns
      | some nsId =>
        constructor
        · intro h user workspaceId' w' huser hsuper hids hw' nsId' hns
          cases hids
          cases hns
          cases hw.symm.trans hw'
          rw [requirePermission_eq_ok, MayPass, huser] at h
          simpa only [Option.some.injEq, exists_eq_left', hsuper, Bool.false_eq_true, false_or,
            resolveNs, hw, Option.some_or, Except.ok.injEq, hown] using h
        · intro h
          apply requirePermission_iff_mayPass
          intro user huser hsuper
          simp only [resolveNs, hw, Option.some_or, Except.ok.injEq, exists_eq_left', hown]
          exact h user workspaceId w huser hsuper rfl hw nsId rfl

/-- Acme's knowledge manager, and a workspace of globex. -/
def neighbours : Db where
  users := .single ⟨"wei", "wei".toList, none, "wei@acme".toList, false, false⟩
  organizations := ⟨[⟨"acme", "acme".toList, false⟩, ⟨"globex", "globex".toList, false⟩], by decide⟩
  namespaces := ⟨[⟨"lab", "acme", false⟩, ⟨"ops", "globex", false⟩], by decide⟩
  workspaces := .single ⟨"den", "ops", none⟩
  userGenes := .single ⟨"atom", "can_manage_knowledge".toList, "knowledge".toList, false⟩
  organization :=
    ⟨.single ⟨"seal", "acme", "wei", 0, false⟩, .single ⟨"grant", "seal", "atom", false⟩⟩
  namespaced := ⟨.empty, .empty⟩

/-- Who sends the namespace of acme along gets into the workspace of globex. -/
theorem passes_elsewhere :
    ¬(requirePermission neighbours "wei" "can_manage_knowledge".toList
        ⟨some "acme", some "lab", some "den"⟩ = .ok () ↔
      MayPass neighbours "wei" "can_manage_knowledge".toList
        ⟨some "acme", some "lab", some "den"⟩) := by
  intro h
  obtain ⟨user, huser, hsuper | ⟨home, hhome, hown, -⟩⟩ := h.mp rfl
  · cases huser
    cases hsuper
  · cases hhome
    exact absurd (hown "acme" rfl) (of_decide_eq_false rfl)

end Eyot.Access
