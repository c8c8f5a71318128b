import Eyot.Fornix.Confinement
import Eyot.Library.FailingFold
import Eyot.Library.Keeps

/-! The hub as the agents' pods read and write it: there is one token for all of them, and the
workspace is the one that the request names. -/

namespace Eyot.Fornix

open FailingFold (bind_eq_ok)
open PosixPath
open Routing (scalarOneOrNone)

structure Instance where
  id : Id
  workspaceId : Id
  deletedAt : Option Time

structure CentralHub where
  id : Id
  workspaceId : Id
  deletedAt : Option Time

structure FileRow where
  file : FornixFile
  workspaceId : Id
  centralHubId : Id
  fileSize : Nat
  uploaderInstanceId : Id

def FileRow.key (r : FileRow) : Id := r.file.id

/-- `fornix.file_written`, `fornix.file_created` and `fornix.sync_failed`. -/
inductive HubEvent where
  | fileWritten (instanceId workspaceId : Id) (path : Str) (contentLength : Nat)
  | fileCreated (instanceId workspaceId fileId : Id) (name : Str) (parentPath : Option Str)
  | syncFailed (workspaceId fileId : Id)

/-- `workspaces` are the ids that a foreign key finds. -/
structure Store where
  instances : Table Instance.id
  workspaces : List Id
  hubs : Table CentralHub.id
  files : Table FileRow.key
  events : List HubEvent
  disk : Disk

/-- A backend and where the shared mount is to it. -/
structure Server where
  cwd : Path
  fornixRoot : Str

def Server.mount (S : Server) (workspaceId : Id) : Mount :=
  ⟨S.cwd, S.fornixRoot, workspaceId.toList⟩

structure HubDraw where
  fileId : Id
  storageKey : Str
  hubId : Id

inductive RefScope where
  | hub
  | inst

def RefScope.word : RefScope → String
  | .hub => "hub"
  | .inst => "instance"

structure ContentRef where
  scope : RefScope
  path : Str

structure HubReadRequest where
  workspaceId : Id
  refs : List ContentRef
  nonempty : refs ≠ []

inductive WriteScope where
  | work
  | shared

structure HubWriteRequest where
  workspaceId : Id
  instanceId : Id
  scope : WriteScope
  path : Str
  content : Str

inductive HubRequest where
  | read (body : HubReadRequest)
  | write (body : HubWriteRequest)

def HubRequest.workspaceId : HubRequest → Id
  | .read body => body.workspaceId
  | .write body => body.workspaceId

inductive HubReply where
  | contents (files : List (Str × Str))
  | audited (path : Str)
  | stored (fileId : Id) (path : Str)

/-- A workspace id with a `..` in it is a `ValueError` to a reader. -/
inductive HubRefusal where
  | refusal (r : Refusal)
  | valueError

def badRequest (errorCode messageKey message : String) : EyotError :=
  ⟨errorCode, messageKey, message, 400, []⟩

def invalidScope (scope : RefScope) : EyotError :=
  badRequest "internal.hub.invalid_scope" "errors.internal.hub.invalid_scope"
    s!"hub/read only supports scope='hub', got '{scope.word}'"

def workPathInvalid (path : Str) : EyotError :=
  badRequest "internal.hub.work_path_invalid" "errors.internal.hub.work_path_invalid"
    s!"work scope requires a path under 'work/', got '{String.ofList path}'"

def hubFileNotFound (path : Str) : EyotError :=
  NotFoundError "internal.hub.file_not_found" "errors.internal.hub.file_not_found"
    s!"Hub file '{String.ofList path}' not found"

def instanceNotFound (instanceId : Id) : EyotError :=
  NotFoundError "internal.hub.instance_not_found" "errors.internal.hub.instance_not_found"
    s!"Instance '{instanceId}' not found"

/-- `os.path.isfile`, and what is in the file; a path that ends in a dot is no file's. -/
def readFile (m : Mount) (t : Disk) (name target : Str) : Option Str :=
  if name = ['.'] then none
  else match t.node (m.resolve target) with
    | some (.file text) => some text
    | _ => none

namespace Store

variable (S : Server) (s : Store) (d : HubDraw)

def hubsOf (workspaceId : Id) : List CentralHub :=
  s.hubs.rows.filter fun r => r.workspaceId = workspaceId

def filesOf (workspaceId : Id) : List FileRow :=
  s.files.rows.filter fun r => r.workspaceId = workspaceId

theorem nodup_filesOf (workspaceId : Id) :
    (((s.filesOf workspaceId).map FileRow.file).map FornixFile.id).Nodup := by
  rw [List.map_map]
  exact s.files.keys_nodup.sublist (List.filter_sublist.map FileRow.key)

/-- What a query with `FornixFile.workspace_id == workspace_id` goes over. -/
def hub (workspaceId : Id) : Hub :=
  ⟨⟨(s.filesOf workspaceId).map FileRow.file, s.nodup_filesOf workspaceId⟩, .empty⟩

def readRef (workspaceId : Id) (ref : ContentRef) : Except HubRefusal (Str × Str) :=
  match ref.scope with
  | .inst => .error (.refusal (.failure (.eyot (invalidScope ref.scope))))
  | .hub =>
    match hubRead ref.path with
    | none => .error (.refusal (.failure (.eyot (pathInvalid ref.path))))
    | some (parentPath, name) =>
      match mirrorAbsPath (S.mount workspaceId) parentPath name with
      | none => .error .valueError
      | some target =>
        match readFile (S.mount workspaceId) s.disk name target with
        | none => .error (.refusal (.failure (.eyot (hubFileNotFound ref.path))))
        | some content => .ok (ref.path, content)

def internalHubRead (body : HubReadRequest) : Except HubRefusal (List (Str × Str)) :=
  body.refs.mapM (s.readRef S body.workspaceId)

/-- The hub of the workspace, or one that is made for it. -/
def centralHub (workspaceId : Id) : Except Refusal (Id × Store) := do
  match ← ofFailure (scalarOneOrNone ((s.hubsOf workspaceId).filter (·.deletedAt.isNone))) with
  | some r => .ok (r.id, s)
  | none =>
    if s.workspaces.contains workspaceId then
      match s.hubs.insert? ⟨d.hubId, workspaceId, none⟩ with
      | none => .error (.failure .integrityError)
      | some hubs => .ok (d.hubId, { s with hubs := hubs })
    else .error (.failure .integrityError)

def insertFile (row : FileRow) : Except Refusal Store := do
  (s.hub row.workspaceId).check row.file
  if s.files.rows.any fun r => r.file.storageKey = row.file.storageKey then
    .error (.failure .integrityError)
  else
    match s.files.insert? row with
    | none => .error (.failure .integrityError)
    | some files => .ok { s with files := files }

/-- All that `_hub_write_shared` does in the session up to its second flush. -/
def flushShared (body : HubWriteRequest) : Except Refusal (FornixFile × Store) :=
  match splitHubPath body.path with
  | none => refuse (pathInvalid body.path)
  | some (parentPath, name) => do
    validateParentDirectory (S.mount body.workspaceId) (s.hub body.workspaceId) parentPath
    refuseDuplicate ((s.hub body.workspaceId).at parentPath name) parentPath name
    let (hubId, s) ← s.centralHub d body.workspaceId
    let file : FornixFile := {
      id := d.fileId
      name := name
      parentPath := parentPath
      storageKey := d.storageKey
      content := some body.content
      isDirectory := false
      deletedAt := none }
    let s ← s.insertFile ⟨file, body.workspaceId, hubId, body.content.length, body.instanceId⟩
    .ok (file, s)

def emit (e : HubEvent) : Store := { s with events := s.events ++ [e] }

/-- A session that is not committed is rolled back; the disk is not. -/
def hubWriteShared (fault : Fault) (body : HubWriteRequest) : Except Refusal HubReply × Store :=
  match s.flushShared S d body with
  | .error e => (.error e, s)
  | .ok (file, s') =>
    match fault with
    | .before => (.error (.failure .connectionLost), s)
    | _ =>
      match syncWrite (S.mount body.workspaceId) file.parentPath file.name body.content false with
      | none => (refuse (syncFailed file.id), s.emit (.syncFailed body.workspaceId file.id))
      | some calls =>
        match runCalls s.disk calls fault.call? with
        | (false, disk) =>
          (refuse (syncFailed file.id),
            { s with disk := disk }.emit (.syncFailed body.workspaceId file.id))
        | (true, disk) =>
          match fault with
          | .after => (.error (.failure .connectionLost), { s with disk := disk })
          | _ => (.ok (.stored file.id body.path),
              { s' with disk := disk }.emit (.fileCreated body.instanceId body.workspaceId file.id
                file.name file.parentPath))

def hubWriteWork (fault : Fault) (body : HubWriteRequest) : Except Refusal HubReply × Store :=
  if "work/".toList <+: body.path ∧ "work/".toList.length < body.path.length then
    match fault with
    | .before | .after => (.error (.failure .connectionLost), s)
    | _ => (.ok (.audited body.path),
        s.emit (.fileWritten body.instanceId body.workspaceId body.path body.content.length))
  else (refuse (workPathInvalid body.path), s)

/-- The instance has to be there; which workspace it is in is not asked. -/
def internalHubWrite (fault : Fault) (body : HubWriteRequest) : Except Refusal HubReply × Store :=
  if !validateNoTraversal body.path then (refuse (pathTraversal body.path), s)
  else
    match (s.instances.find? body.instanceId).filter (·.deletedAt.isNone) with
    | none => (refuse (instanceNotFound body.instanceId), s)
    | some _ =>
      match body.scope with
      | .work => s.hubWriteWork fault body
      | .shared => s.hubWriteShared S d fault body

/-- One request that has shown the token. -/
def handle (fault : Fault) : HubRequest → Except HubRefusal HubReply × Store
  | .read body => ((s.internalHubRead S body).map .contents, s)
  | .write body =>
    let out := s.internalHubWrite S d fault body
    (out.1.mapError .refusal, out.2)

end Store

/-! What belongs to a workspace. -/

/-- On the way to the mirror of the workspace, or in it. -/
def Server.Mirror (S : Server) (workspaceId : Id) (p : Path) : Prop :=
  p <+: (S.mount workspaceId).root ∨ (S.mount workspaceId).root <+: p

/-- The disks are the same at these places. -/
def AgreeOn (P : Path → Prop) (t u : Disk) : Prop := ∀ p, P p → t.node p = u.node p

/-- The stores are the same but for what other workspaces have in their hubs. -/
structure Alike (S : Server) (workspaceId : Id) (s t : Store) : Prop where
  instances : s.instances = t.instances
  workspaces : s.workspaces = t.workspaces
  hubs : s.hubsOf workspaceId = t.hubsOf workspaceId
  files : s.filesOf workspaceId = t.filesOf workspaceId
  disk : AgreeOn (S.Mirror workspaceId) s.disk t.disk

/-- The rows of other workspaces' hubs are the same, and all files that are not in the mirror of
this one. -/
structure Frame (S : Server) (workspaceId : Id) (s s' : Store) : Prop where
  instances : s'.instances = s.instances
  workspaces : s'.workspaces = s.workspaces
  hubs : ∀ other, other ≠ workspaceId → s'.hubsOf other = s.hubsOf other
  files : ∀ other, other ≠ workspaceId → s'.filesOf other = s.filesOf other
  disk : ∀ p, ¬ (S.mount workspaceId).root <+: p → ∀ text,
    s'.disk.node p = some (.file text) ↔ s.disk.node p = some (.file text)

def SameRows (s s' : Store) : Prop :=
  s'.instances = s.instances ∧ s'.workspaces = s.workspaces ∧ s'.hubs = s.hubs ∧ s'.files = s.files

/-- What `uuid4` draws has not been drawn before. -/
structure Fresh (d : HubDraw) (s : Store) : Prop where
  hub : ∀ r ∈ s.hubs.rows, r.id ≠ d.hubId
  file : ∀ r ∈ s.files.rows, r.key ≠ d.fileId
  storageKey : ∀ r ∈ s.files.rows, r.file.storageKey ≠ d.storageKey

/-! Where the paths of a hub lead. -/

theorem isAbsolute_hubPath {path name : Str} {parentPath : Option Str}
    (h : splitHubPath path = some (parentPath, name)) :
    isAbsolute (mirrorRel parentPath name) = false := by
  unfold splitHubPath at h
  dsimp only at h
  split at h
  · cases h
  · obtain ⟨rfl, rfl⟩ := Prod.mk.inj (Option.some.inj h)
    split
    · exact isAbsolute_basename _
    · rename_i hne
      have hstrip : strip (dirname (strip path)) ≠ [] :=
        strip_ne_nil (isAbsolute_dirname (isAbsolute_strip path)) hne
      rw [mirrorRel, strip_cons_slash, isAbsolute_append hstrip]
      exact isAbsolute_strip _
      · simp

theorem root_isPrefix {m : Mount} {path name target : Str} {parentPath : Option Str}
    (h : splitHubPath path = some (parentPath, name))
    (htarget : mirrorAbsPath m parentPath name = some target) : m.root <+: m.resolve target := by
  rw [resolve_mirrorAbsPath htarget, mirrorPath, isAbsolute_hubPath h]
  exact List.prefix_append _ _

theorem mirror_of_prefix {S : Server} {workspaceId : Id} {p q : Path}
    (hp : S.Mirror workspaceId p) (hqp : q <+: p) : S.Mirror workspaceId q := by
  obtain hp | hp := hp
  · exact .inl (hqp.trans hp)
  · exact List.prefix_or_prefix_of_prefix hqp hp

/-! Calls that only make directories and write. -/

section Writes

variable {P : Path → Prop} {c : Call} {cs : List Call} {t u t' : Disk}

def WritesIn (P : Path → Prop) : Call → Prop
  | .makedirs d => P d
  | .write p _ => P p
  | _ => False

theorem agreeOn_perform (hP : ∀ p q, P p → q <+: p → P q) (hc : WritesIn P c)
    (h : AgreeOn P t u) :
    (c.perform t = none ∧ c.perform u = none) ∨
      ∃ t' u', c.perform t = some t' ∧ c.perform u = some u' ∧ AgreeOn P t' u' := by
  cases c with
  | makedirs d =>
    have hcan : t.canMkdirs d = u.canMkdirs d := by
      rw [Bool.eq_iff_iff, FileTree.canMkdirs_iff, FileTree.canMkdirs_iff]
      exact forall₂_congr fun q hq => by rw [h q (hP d q hc hq)]
    simp only [Call.perform, FileTree.mkdirs, hcan]
    split
    · refine .inr ⟨_, _, rfl, rfl, fun q hq => ?_⟩
      simp only [FileTree.mkdirsNode, h q hq]
    · exact .inl ⟨rfl, rfl⟩
  | write p text =>
    have hcan : t.canWrite p = u.canWrite p := by
      rw [Bool.eq_iff_iff, FileTree.canWrite_iff, FileTree.canWrite_iff, h p hc,
        h p.dropLast (hP p _ hc (List.dropLast_prefix p))]
    by_cases hu : u.canWrite p = true
    · refine .inr ⟨_, _, dif_pos (hcan.trans hu), dif_pos hu, fun q hq => ?_⟩
      simp only [FileTree.writeNode, h q hq]
    · exact .inl ⟨dif_neg (hcan ▸ hu), dif_neg hu⟩
  | check src dst => cases hc
  | move src dst => cases hc
  | remove p => cases hc

theorem agreeOn_runCalls (hP : ∀ p q, P p → q <+: p → P q) (hcs : ∀ c ∈ cs, WritesIn P c)
    (h : AgreeOn P t u) (fault : Option Nat) :
    (runCalls t cs fault).1 = (runCalls u cs fault).1 ∧
      AgreeOn P (runCalls t cs fault).2 (runCalls u cs fault).2 := by
  induction cs generalizing t u fault with
  | nil => exact ⟨rfl, h⟩
  | cons c cs ih =>
    rw [runCalls, runCalls]
    split
    · exact ⟨rfl, h⟩
    · obtain ⟨ht, hu⟩ | ⟨t', u', ht, hu, h'⟩ :=
        agreeOn_perform hP (hcs c List.mem_cons_self) h
      · rw [ht, hu]
        exact ⟨rfl, h⟩
      · rw [ht, hu]
        exact ih (fun c hc => hcs c (List.mem_cons_of_mem _ hc)) h' _

end Writes

theorem writesIn_syncWrite {S : Server} {workspaceId : Id} {path name content : Str}
    {parentPath : Option Str} {cs : List Call}
    (h : splitHubPath path = some (parentPath, name))
    (hcs : syncWrite (S.mount workspaceId) parentPath name content false = some cs) :
    ∀ c ∈ cs, WritesIn (S.Mirror workspaceId) c := by
  obtain ⟨target, htarget, rfl⟩ := Option.map_eq_some_iff.mp hcs
  have hplace : S.Mirror workspaceId ((S.mount workspaceId).resolve target) :=
    .inr (root_isPrefix h htarget)
  have hdir : S.Mirror workspaceId ((S.mount workspaceId).resolve (dirnameOrDot target)) :=
    mirror_of_prefix hplace ⟨_, resolve_dirnameOrDot _ target⟩
  simpa [WritesIn] using And.intro hdir hplace

theorem targets_syncWrite {m : Mount} {path name content : Str} {parentPath : Option Str}
    {cs : List Call} (h : splitHubPath path = some (parentPath, name))
    (hcs : syncWrite m parentPath name content false = some cs) :
    ∀ c ∈ cs, ∀ p ∈ c.targets, m.root <+: p := by
  obtain ⟨target, htarget, rfl⟩ := Option.map_eq_some_iff.mp hcs
  simpa [Call.targets] using root_isPrefix h htarget

namespace Store

variable {S : Server} {s s' t : Store} {d : HubDraw} {body : HubWriteRequest} {workspaceId : Id}

theorem hub_congr (h : s.filesOf workspaceId = t.filesOf workspaceId) :
    s.hub workspaceId = t.hub workspaceId := by
  have hfiles : (s.hub workspaceId).files = (t.hub workspaceId).files :=
    Table.eq_of_rows_eq (congrArg (List.map FileRow.file) h)
  rw [hub, hub, Hub.mk.injEq]
  exact ⟨hfiles, rfl⟩

/-- What the two runs of a flush end in. -/
def SameFlush {α : Type} (S : Server) (workspaceId : Id) (a b : α × Store) : Prop :=
  a.1 = b.1 ∧ Alike S workspaceId a.2 b.2

theorem filter_insert? {κ α : Type} [DecidableEq κ] {key : α → κ} {t t' : Table key} {r : α}
    (h : t.insert? r = some t') (p : α → Bool) :
    t'.rows.filter p = t.rows.filter p ++ [r].filter p := by
  rw [Table.insert?_rows h, List.filter_append]

theorem insertHub_fresh (workspaceId : Id) (hs : Fresh d s) :
    ∃ hubs, s.hubs.insert? ⟨d.hubId, workspaceId, none⟩ = some hubs ∧
      hubs.rows = s.hubs.rows ++ [⟨d.hubId, workspaceId, none⟩] := by
  refine Table.insert?_of_not_mem fun hmem => ?_
  obtain ⟨r, hr, hid⟩ := List.mem_map.mp hmem
  exact hs.hub r hr hid

theorem centralHub_alike (hs : Fresh d s) (ht : Fresh d t) (h : Alike S workspaceId s t) :
    SameEnd (fun a b => SameFlush S workspaceId a b ∧ a.2.files = s.files ∧ b.2.files = t.files)
      (s.centralHub d workspaceId) (t.centralHub d workspaceId) := by
  rw [centralHub, centralHub, h.hubs]
  refine .bind_refl _ fun found => ?_
  cases found with
  | some r => exact .ok ⟨⟨rfl, h⟩, rfl, rfl⟩
  | none =>
    obtain ⟨hubs, hinsert, hrows⟩ := insertHub_fresh workspaceId hs
    obtain ⟨hubs', hinsert', hrows'⟩ := insertHub_fresh workspaceId ht
    have hcontains : s.workspaces.contains workspaceId = t.workspaces.contains workspaceId := by
      rw [h.workspaces]
    dsimp only
    rw [hinsert, hinsert', hcontains]
    split
    · refine .ok ⟨⟨rfl, { h with hubs := ?_ }⟩, rfl, rfl⟩
      change hubs.rows.filter _ = hubs'.rows.filter _
      rw [hrows, hrows', List.filter_append, List.filter_append]
      exact congrArg (· ++ _) h.hubs
    · exact .error _

theorem insertFile_alike {row : FileRow} (hrow : row.workspaceId = workspaceId)
    (hs : ∀ r ∈ s.files.rows, r.key ≠ row.key ∧ r.file.storageKey ≠ row.file.storageKey)
    (ht : ∀ r ∈ t.files.rows, r.key ≠ row.key ∧ r.file.storageKey ≠ row.file.storageKey)
    (h : Alike S workspaceId s t) :
    SameEnd (Alike S workspaceId) (s.insertFile row) (t.insertFile row) := by
  have hkeys : ∀ {u : Store}, (∀ r ∈ u.files.rows, r.key ≠ row.key ∧
      r.file.storageKey ≠ row.file.storageKey) →
        (u.files.rows.any fun r => r.file.storageKey = row.file.storageKey) = false ∧
        ∃ files, u.files.insert? row = some files ∧ files.rows = u.files.rows ++ [row] := by
    intro u hu
    constructor
    · simpa using fun r hr => (hu r hr).2
    · refine Table.insert?_of_not_mem fun hmem => ?_
      obtain ⟨r, hr, hkey⟩ := List.mem_map.mp hmem
      exact (hu r hr).1 hkey
  obtain ⟨hany, files, hinsert, hrows⟩ := hkeys hs
  obtain ⟨hany', files', hinsert', hrows'⟩ := hkeys ht
  rw [insertFile, insertFile, hrow, hub_congr h.files, hany, hany', hinsert, hinsert']
  refine .bind_refl _ fun _ => .ok { h with files := ?_ }
  change files.rows.filter _ = files'.rows.filter _
  rw [hrows, hrows', List.filter_append, List.filter_append]
  exact congrArg (· ++ _) h.files

theorem flushShared_alike (hs : Fresh d s) (ht : Fresh d t)
    (h : Alike S body.workspaceId s t) :
    SameEnd (SameFlush S body.workspaceId) (s.flushShared S d body) (t.flushShared S d body) := by
  rw [flushShared, flushShared, hub_congr h.files]
  split
  · exact .error _
  · refine .bind_refl _ fun _ => .bind_refl _ fun _ => (centralHub_alike hs ht h).bind ?_
    rintro ⟨hubId, s'⟩ ⟨_, t'⟩ ⟨⟨rfl, h'⟩, hfiles, hfiles'⟩
    dsimp only at hfiles hfiles' ⊢
    refine (insertFile_alike rfl ?_ ?_ h').bind fun _ _ h'' => .ok ⟨rfl, h''⟩
    · rw [hfiles]
      exact fun r hr => ⟨hs.file r hr, hs.storageKey r hr⟩
    · rw [hfiles']
      exact fun r hr => ⟨ht.file r hr, ht.storageKey r hr⟩

end Store

namespace Frame

variable {S : Server} {s s' s'' : Store} {workspaceId : Id}

theorem refl (s : Store) : Frame S workspaceId s s :=
  ⟨rfl, rfl, fun _ _ => rfl, fun _ _ => rfl, fun _ _ _ => Iff.rfl⟩

theorem trans (h : Frame S workspaceId s s') (h' : Frame S workspaceId s' s'') :
    Frame S workspaceId s s'' where
  instances := h'.instances.trans h.instances
  workspaces := h'.workspaces.trans h.workspaces
  hubs other hne := (h'.hubs other hne).trans (h.hubs other hne)
  files other hne := (h'.files other hne).trans (h.files other hne)
  disk p hp text := (h'.disk p hp text).trans (h.disk p hp text)

end Frame

namespace Store

variable {S : Server} {s s' t : Store} {d : HubDraw} {body : HubWriteRequest} {workspaceId : Id}

theorem filter_other {α : Type} {place : α → Id} {r : α} (hr : place r = workspaceId) {other : Id}
    (hne : other ≠ workspaceId) (rows : List α) :
    ((rows ++ [r]).filter fun r => decide (place r = other)) =
      rows.filter fun r => decide (place r = other) := by
  have hnot : place r ≠ other := fun heq => hne (heq.symm.trans hr)
  simp [List.filter_append, hnot]

theorem centralHub_frame {hubId : Id} (h : s.centralHub d workspaceId = .ok (hubId, s')) :
    Frame S workspaceId s s' ∧ s'.disk = s.disk := by
  obtain ⟨found, -, h⟩ := bind_eq_ok.mp h
  cases found with
  | some r =>
    cases h
    exact ⟨.refl s, rfl⟩
  | none =>
    dsimp only at h
    split at h
    · split at h
      · cases h
      · rename_i hubs hinsert
        cases h
        refine ⟨{ Frame.refl s with hubs := fun other hne => ?_ }, rfl⟩
        change hubs.rows.filter _ = s.hubs.rows.filter _
        rw [Table.insert?_rows hinsert]
        exact filter_other rfl hne s.hubs.rows
    · cases h

theorem insertFile_frame {row : FileRow} (h : s.insertFile row = .ok s') :
    Frame S row.workspaceId s s' ∧ s'.disk = s.disk := by
  obtain ⟨_, -, h⟩ := bind_eq_ok.mp h
  split at h
  · cases h
  · split at h
    · cases h
    · rename_i files hinsert
      cases h
      refine ⟨{ Frame.refl s with files := fun other hne => ?_ }, rfl⟩
      change files.rows.filter _ = s.files.rows.filter _
      rw [Table.insert?_rows hinsert]
      exact filter_other rfl hne s.files.rows

/-- A flush puts rows under the workspace that the request names. -/
theorem flushShared_frame {file : FornixFile} (h : s.flushShared S d body = .ok (file, s')) :
    Frame S body.workspaceId s s' ∧ s'.disk = s.disk ∧
      splitHubPath body.path = some (file.parentPath, file.name) := by
  unfold flushShared at h
  split at h
  · cases h
  · rename_i parentPath name hsplit
    obtain ⟨_, -, h⟩ := bind_eq_ok.mp h
    obtain ⟨_, -, h⟩ := bind_eq_ok.mp h
    obtain ⟨⟨hubId, s₁⟩, hhub, h⟩ := bind_eq_ok.mp h
    obtain ⟨s₂, hfile, h⟩ := bind_eq_ok.mp h
    cases h
    obtain ⟨hframe, hdisk⟩ := centralHub_frame (S := S) hhub
    obtain ⟨hframe', hdisk'⟩ := insertFile_frame (S := S) hfile
    exact ⟨hframe.trans hframe', hdisk'.trans hdisk, hsplit⟩

/-- What runs on the disk only, with what is noted of it. -/
theorem frame_disk (s : Store) {disk : Disk} (events : List HubEvent)
    (hdisk : ∀ p, ¬ (S.mount workspaceId).root <+: p → ∀ text,
      disk.node p = some (.file text) ↔ s.disk.node p = some (.file text)) :
    Frame S workspaceId s { s with disk := disk, events := events } :=
  ⟨rfl, rfl, fun _ _ => rfl, fun _ _ => rfl, hdisk⟩

theorem sameRows_disk (s : Store) (disk : Disk) (events : List HubEvent) :
    SameRows s { s with disk := disk, events := events } :=
  ⟨rfl, rfl, rfl, rfl⟩

theorem hubWriteShared_frame (S : Server) (s : Store) (d : HubDraw) (fault : Fault)
    (body : HubWriteRequest) :
    Frame S body.workspaceId s (s.hubWriteShared S d fault body).2 ∧
      ∀ e, (s.hubWriteShared S d fault body).1 = .error e →
        SameRows s (s.hubWriteShared S d fault body).2 := by
  have hstay : ∀ events, Frame S body.workspaceId s { s with events := events } := fun events =>
    frame_disk s events fun _ _ _ => Iff.rfl
  unfold hubWriteShared
  cases hflush : s.flushShared S d body with
  | error e => exact ⟨hstay s.events, fun _ _ => sameRows_disk s s.disk s.events⟩
  | ok out =>
    obtain ⟨file, s'⟩ := out
    obtain ⟨hframe, hdisk, hsplit⟩ := flushShared_frame hflush
    dsimp only
    split
    · exact ⟨hstay s.events, fun _ _ => sameRows_disk s s.disk s.events⟩
    · cases hcalls : syncWrite (S.mount body.workspaceId) file.parentPath file.name body.content
          false with
      | none => exact ⟨hstay _, fun _ _ => sameRows_disk s s.disk _⟩
      | some calls =>
        have hfiles : ∀ p, ¬ (S.mount body.workspaceId).root <+: p → ∀ text,
            (runCalls s.disk calls fault.call?).2.node p = some (.file text) ↔
              s.disk.node p = some (.file text) := fun p hp text =>
          runCalls_file fun c hc q hq hqp =>
            hp ((targets_syncWrite hsplit hcalls c hc q hq).trans hqp)
        dsimp only
        split
        · rename_i disk hrun
          rw [hrun] at hfiles
          exact ⟨frame_disk s _ hfiles, fun _ _ => sameRows_disk s disk _⟩
        · rename_i disk hrun
          rw [hrun] at hfiles
          split
          · exact ⟨frame_disk s _ hfiles, fun _ _ => sameRows_disk s disk _⟩
          · refine ⟨hframe.trans (frame_disk s' _ ?_), nofun⟩
            rw [hdisk]
            exact hfiles

theorem internalHubWrite_frame (S : Server) (s : Store) (d : HubDraw) (fault : Fault)
    (body : HubWriteRequest) :
    Frame S body.workspaceId s (s.internalHubWrite S d fault body).2 ∧
      ∀ e, (s.internalHubWrite S d fault body).1 = .error e →
        SameRows s (s.internalHubWrite S d fault body).2 := by
  have hstay : ∀ events, Frame S body.workspaceId s { s with events := events } := fun events =>
    frame_disk s events fun _ _ _ => Iff.rfl
  have hrows := sameRows_disk s s.disk
  unfold internalHubWrite
  split
  · exact ⟨hstay s.events, fun _ _ => hrows s.events⟩
  · split
    · exact ⟨hstay s.events, fun _ _ => hrows s.events⟩
    · split
      · unfold hubWriteWork
        split
        · split
          · exact ⟨hstay s.events, fun _ _ => hrows s.events⟩
          · exact ⟨hstay s.events, fun _ _ => hrows s.events⟩
          · exact ⟨hstay _, fun e he => by cases he⟩
        · exact ⟨hstay s.events, fun _ _ => hrows s.events⟩
      · exact hubWriteShared_frame S s d fault body

/-- A request changes nothing but what is of the workspace it names, and no row if it fails. -/
theorem handle_frame (S : Server) (s : Store) (d : HubDraw) (fault : Fault) (r : HubRequest) :
    Frame S r.workspaceId s (s.handle S d fault r).2 ∧
      ∀ e, (s.handle S d fault r).1 = .error e → SameRows s (s.handle S d fault r).2 := by
  cases r with
  | read body => exact ⟨.refl s, fun _ _ => sameRows_disk s s.disk s.events⟩
  | write body =>
    obtain ⟨hframe, hrows⟩ := internalHubWrite_frame S s d fault body
    refine ⟨hframe, fun e he => ?_⟩
    cases hout : (s.internalHubWrite S d fault body).1 with
    | error e' => exact hrows e' hout
    | ok reply =>
      change (s.internalHubWrite S d fault body).1.mapError _ = _ at he
      rw [hout] at he
      cases he

/-! Two stores that differ in other workspaces only. -/

theorem emit_alike (h : Alike S workspaceId s t) {disk disk' : Disk}
    (hdisk : AgreeOn (S.Mirror workspaceId) disk disk') (events events' : List HubEvent) :
    Alike S workspaceId { s with disk := disk, events := events }
      { t with disk := disk', events := events' } :=
  { h with disk := hdisk }

theorem hubWriteShared_alike (hs : Fresh d s) (ht : Fresh d t)
    (h : Alike S body.workspaceId s t) (fault : Fault) :
    (s.hubWriteShared S d fault body).1 = (t.hubWriteShared S d fault body).1 ∧
      Alike S body.workspaceId (s.hubWriteShared S d fault body).2
        (t.hubWriteShared S d fault body).2 := by
  have hflush := flushShared_alike hs ht h
  have hsplit : ∀ out, s.flushShared S d body = .ok out →
      splitHubPath body.path = some (out.1.parentPath, out.1.name) := fun out hout =>
    (flushShared_frame hout).2.2
  unfold hubWriteShared
  generalize s.flushShared S d body = x at hflush hsplit ⊢
  generalize t.flushShared S d body = y at hflush ⊢
  cases hflush with
  | error e => exact ⟨rfl, h⟩
  | @ok a b hab =>
    obtain ⟨file, s'⟩ := a
    obtain ⟨_, t'⟩ := b
    obtain ⟨rfl, hst⟩ := hab
    have hpath := hsplit _ rfl
    dsimp only at hpath hst ⊢
    cases hcalls : syncWrite (S.mount body.workspaceId) file.parentPath file.name body.content
        false with
    | none => cases fault <;> exact ⟨rfl, emit_alike h h.disk _ _⟩
    | some calls =>
      have hrun := agreeOn_runCalls (fun _ _ => mirror_of_prefix)
        (writesIn_syncWrite hpath hcalls) h.disk fault.call?
      dsimp only
      generalize runCalls s.disk calls fault.call? = ran at hrun ⊢
      generalize runCalls t.disk calls fault.call? = ran' at hrun ⊢
      obtain ⟨done, disk⟩ := ran
      obtain ⟨_, disk'⟩ := ran'
      obtain ⟨rfl, hagree⟩ := hrun
      cases done with
      | false =>
        cases fault with
        | before => exact ⟨rfl, h⟩
        | none | call | after => exact ⟨rfl, emit_alike h hagree _ _⟩
      | true =>
        cases fault with
        | before => exact ⟨rfl, h⟩
        | after => exact ⟨rfl, emit_alike h hagree _ _⟩
        | none | call => exact ⟨rfl, emit_alike hst hagree _ _⟩

theorem internalHubWrite_alike (hs : Fresh d s) (ht : Fresh d t)
    (h : Alike S body.workspaceId s t) (fault : Fault) :
    (s.internalHubWrite S d fault body).1 = (t.internalHubWrite S d fault body).1 ∧
      Alike S body.workspaceId (s.internalHubWrite S d fault body).2
        (t.internalHubWrite S d fault body).2 := by
  unfold internalHubWrite
  rw [h.instances]
  split
  · exact ⟨rfl, h⟩
  · split
    · exact ⟨rfl, h⟩
    · split
      · unfold hubWriteWork
        split
        · cases fault <;> exact ⟨rfl, emit_alike h h.disk _ _⟩
        · exact ⟨rfl, h⟩
      · exact hubWriteShared_alike hs ht h fault

theorem readFile_alike {path name target : Str} {parentPath : Option Str}
    (h : Alike S workspaceId s t) (hsplit : splitHubPath path = some (parentPath, name))
    (htarget : mirrorAbsPath (S.mount workspaceId) parentPath name = some target) :
    readFile (S.mount workspaceId) s.disk name target =
      readFile (S.mount workspaceId) t.disk name target := by
  rw [readFile, readFile, h.disk _ (.inr (root_isPrefix hsplit htarget))]

theorem readRef_alike (h : Alike S workspaceId s t) (ref : ContentRef) :
    s.readRef S workspaceId ref = t.readRef S workspaceId ref := by
  unfold readRef
  cases ref.scope with
  | inst => rfl
  | hub =>
    dsimp only
    cases hread : hubRead ref.path with
    | none => rfl
    | some place =>
      obtain ⟨parentPath, name⟩ := place
      have hsplit : splitHubPath ref.path = some (parentPath, name) := by
        unfold hubRead at hread
        split at hread
        · exact hread
        · cases hread
      dsimp only
      cases htarget : mirrorAbsPath (S.mount workspaceId) parentPath name with
      | none => rfl
      | some target =>
        dsimp only
        rw [readFile_alike h hsplit htarget]

/-- What other workspaces have in their hubs makes no difference to a request. -/
theorem handle_alike {r : HubRequest} (hs : Fresh d s) (ht : Fresh d t)
    (h : Alike S r.workspaceId s t) (fault : Fault) :
    (s.handle S d fault r).1 = (t.handle S d fault r).1 ∧
      Alike S r.workspaceId (s.handle S d fault r).2 (t.handle S d fault r).2 := by
  cases r with
  | read body =>
    have hread : s.internalHubRead S body = t.internalHubRead S body :=
      congrArg (List.mapM · body.refs) (funext (readRef_alike h))
    exact ⟨congrArg (Except.map HubReply.contents) hread, h⟩
  | write body =>
    obtain ⟨hout, hstore⟩ := internalHubWrite_alike hs ht h fault
    exact ⟨congrArg (Except.mapError HubRefusal.refusal) hout, hstore⟩

end Store

/-- What a request reads and changes is of the workspace it names, and if it fails it changes no
row. -/
structure HubConfined (S : Server) (d : HubDraw) (fault : Fault) (r : HubRequest) : Prop where
  frame : ∀ s : Store, Frame S r.workspaceId s (s.handle S d fault r).2
  refused : ∀ (s : Store) e, (s.handle S d fault r).1 = .error e →
    SameRows s (s.handle S d fault r).2
  alike : ∀ s t : Store, Fresh d s → Fresh d t → Alike S r.workspaceId s t →
    (s.handle S d fault r).1 = (t.handle S d fault r).1 ∧
      Alike S r.workspaceId (s.handle S d fault r).2 (t.handle S d fault r).2

theorem hub_confined (S : Server) (d : HubDraw) (fault : Fault) (r : HubRequest) :
    HubConfined S d fault r where
  frame s := (Store.handle_frame S s d fault r).1
  refused s := (Store.handle_frame S s d fault r).2
  alike _ _ hs ht h := Store.handle_alike hs ht h fault

namespace OtherHub

def server : Server := ⟨[], "/var/eyot/workspaces".toList⟩

/-- Two workspaces, and an agent in the first. -/
def store : Store := ⟨.single ⟨"i1", "w1", none⟩, ["w1", "w2"], .empty, .empty, [], .empty⟩

def body : HubWriteRequest := ⟨"w2", "i1", .shared, "plan.md".toList, "mine".toList⟩

/-- The agent writes into the hub of the other one. -/
theorem not_own_hub :
    ¬ ∀ (S : Server) (s : Store) (d : HubDraw) (fault : Fault) (body : HubWriteRequest)
      (i : Instance), s.instances.find? body.instanceId = some i →
      i.workspaceId ≠ body.workspaceId → SameRows s (s.handle S d fault (.write body)).2 := by
  intro h
  obtain ⟨-, -, -, hfiles⟩ := h server store ⟨"f1", "k1".toList, "h2"⟩ .none body
    ⟨"i1", "w1", none⟩ rfl (by decide)
  have hlength := congrArg (fun files => files.rows.length) hfiles
  exact absurd hlength (by decide)

end OtherHub

end Eyot.Fornix
