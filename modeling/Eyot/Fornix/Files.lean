import Eyot.Data.Errors
import Eyot.Data.Rows
import Eyot.Fornix.Mirror
import Eyot.Library.Run
import Eyot.Routing.Effects

/-! The files of a workspace's hub: their rows and those of its vault, and the requests that write
them. Every write is made twice, in the rows and in the mirror. -/

namespace Eyot.Fornix

open Routing (scalarOneOrNone)

structure FornixFile where
  id : Id
  name : Str
  parentPath : Option Str
  storageKey : Str
  content : Option Str
  isDirectory : Bool
  deletedAt : Option Time
  deriving DecidableEq

/-- `VaultEntry.value`. -/
structure ArchivedValue where
  name : Str
  parentPath : Option Str
  isDirectory : Bool
  content : Option Str

structure VaultEntry where
  id : Id
  sourceRef : Option Id
  archivedKey : Option Str
  value : Option ArchivedValue
  deletedAt : Option Time

/-- The rows of one workspace. -/
structure Hub where
  files : Table FornixFile.id
  entries : Table VaultEntry.id

/-- Where a request gives up before it writes: an API error or one of the database, a value that
does not fit its column included. -/
inductive Refusal where
  | failure (e : Failure)
  | dataError
  deriving DecidableEq

def refuse {α : Type} (e : EyotError) : Except Refusal α := .error (.failure (.eyot e))

def ofFailure {α : Type} (x : Except Failure α) : Except Refusal α := x.mapError .failure

def parentDirectoryNotFound (m : Mount) (parentPath : Str) : EyotError :=
  NotFoundError "central_hub.parent_directory_not_found"
    "errors.central_hub.parent_directory_not_found"
    (s!"Parent directory '{String.ofList parentPath}' not found in workspace " ++
      s!"'{String.ofList m.workspaceId}'")

def directoryCannotHaveContent : EyotError :=
  ConflictError "central_hub.directory_cannot_have_content"
    "errors.central_hub.directory_cannot_have_content"
    "Directory entries cannot have content_type or file_size"

/-- `or '/'` also stands in for an empty parent. -/
def duplicatePath (parentPath : Option Str) (name : Str) : EyotError :=
  let place := match parentPath with
    | none | some [] => "/"
    | some p => String.ofList p
  ConflictError "central_hub.fornix.duplicate_path" "errors.central_hub.fornix.duplicate_path"
    s!"A file or directory named '{String.ofList name}' already exists at '{place}'"

def fileNotFound (fileId : Id) : EyotError :=
  NotFoundError "central_hub.fornix.file_not_found" "errors.central_hub.file_not_found"
    s!"FornixFile '{fileId}' not found"

def directoryNotEmpty (targetPath : Str) : EyotError :=
  ConflictError "central_hub.directory_not_empty" "errors.central_hub.directory_not_empty"
    s!"Cannot delete directory '{String.ofList targetPath}' — it still contains files"

def cannotArchiveDirectory (fileId : Id) : EyotError :=
  ConflictError "central_hub.fornix.cannot_archive_directory"
    "errors.central_hub.fornix.cannot_archive_directory" s!"Cannot archive directory '{fileId}'"

def entryNotFound (entryId : Id) : EyotError :=
  NotFoundError "central_hub.vault.entry_not_found" "errors.central_hub.vault.entry_not_found"
    s!"VaultEntry '{entryId}' not found"

def pathTraversal (path : Str) : EyotError :=
  ⟨"internal.hub.path_traversal", "errors.internal.hub.path_traversal",
    s!"path traversal rejected: '{String.ofList path}'", 400, []⟩

def pathInvalid (path : Str) : EyotError :=
  ⟨"internal.hub.path_invalid", "errors.internal.hub.path_invalid",
    s!"invalid hub path '{String.ofList path}'", 400, []⟩

def syncFailed (fileId : Id) : EyotError :=
  InternalError "central_hub.fornix.sync_failed" "errors.central_hub.fornix.sync_failed"
    s!"Failed to sync FornixFile '{fileId}' to the shared mount"

/-! Rows. -/

def FornixFile.isActive (f : FornixFile) : Bool := f.deletedAt.isNone

/-- An update assigns every column but the key. -/
def FornixFile.overwrite (f r : FornixFile) : FornixFile := { f with id := r.id }

theorem FornixFile.overwrite_id (f r : FornixFile) : (f.overwrite r).id = r.id := rfl

def VaultEntry.softDelete (now : Time) (e : VaultEntry) : VaultEntry :=
  { e with deletedAt := some now }

theorem VaultEntry.softDelete_id (now : Time) (e : VaultEntry) : (e.softDelete now).id = e.id := rfl

def Hub.active (h : Hub) : List FornixFile := h.files.rows.filter FornixFile.isActive

/-- A column that is null is equal to nothing, so `None` is looked for as `IS NULL`. -/
def Hub.at (h : Hub) (parentPath : Option Str) (name : Str) : List FornixFile :=
  h.active.filter fun f => f.parentPath = parentPath && f.name = name

def Hub.find? (h : Hub) (fileId : Id) : Option FornixFile :=
  (h.files.find? fileId).filter FornixFile.isActive

def FornixFile.fits (f : FornixFile) : Bool :=
  f.name.length ≤ 255 && f.parentPath.all (·.length ≤ 1024) && f.storageKey.length ≤ 36

/-- `uq_fornix_files_storage_key` is over all rows, `uq_fornix_files_path` over the active ones; a
null parent is never equal to another. -/
def Hub.isUnique (h : Hub) (f : FornixFile) : Bool :=
  h.files.rows.all fun r => r.id = f.id ||
    r.storageKey ≠ f.storageKey &&
      (!(r.isActive && f.isActive) || f.parentPath.isNone || r.parentPath ≠ f.parentPath ||
        r.name ≠ f.name)

def Hub.check (h : Hub) (f : FornixFile) : Except Refusal Unit :=
  if !f.fits then .error .dataError
  else if !h.isUnique f then .error (.failure .integrityError)
  else .ok ()

def Hub.insert (h : Hub) (f : FornixFile) : Except Refusal Hub := do
  h.check f
  match h.files.insert? f with
  | none => .error (.failure .integrityError)
  | some files => .ok { h with files := files }

def Hub.update (h : Hub) (f : FornixFile) : Except Refusal Hub := do
  h.check f
  .ok { h with files := h.files.update f.id f.overwrite f.overwrite_id }

/-! Requests. -/

/-- What is done to the mirror; nothing can be done with a name that is null. -/
inductive Change where
  | stay (f : FornixFile)
  | put (f : FornixFile)
  | drop (f : FornixFile)
  | move (f f' : FornixFile)
  | broken

/-- What a request is going to do once it has found nothing wrong. `hub` is what it commits, or how
that fails. -/
structure Plan where
  fileId : Id
  change : Change
  hub : Except Refusal Hub

def validateParentDirectory (m : Mount) (h : Hub) : Option Str → Except Refusal Unit
  | none => .ok ()
  | some p => do
    let split := splitParentPath (some p)
    match ← ofFailure (scalarOneOrNone ((h.at split.1 split.2).filter (·.isDirectory))) with
    | none => refuse (parentDirectoryNotFound m p)
    | some _ => .ok ()

def refuseDuplicate (others : List FornixFile) (parentPath : Option Str) (name : Str) :
    Except Refusal Unit := do
  match ← ofFailure (scalarOneOrNone others) with
  | none => .ok ()
  | some _ => refuse (duplicatePath parentPath name)

/-- The identifiers drawn for a request, and the time it is served. -/
structure Draw where
  fileId : Id
  entryId : Id
  storageKey : Str
  now : Time

structure FornixFileCreate where
  name : Str
  parentPath : Option Str
  storageKey : Str
  contentType : Option Str
  fileSize : Option Int
  isDirectory : Bool
  content : Option Str
  nameMaxLength : name.length ≤ 255

/-- A field that is not set is left alone; one that is set may be null. -/
structure FornixFileUpdate where
  name : Option (Option Str)
  parentPath : Option (Option Str)

def createFile (m : Mount) (h : Hub) (d : Draw) (body : FornixFileCreate) :
    Except Refusal Plan := do
  validateParentDirectory m h body.parentPath
  if body.isDirectory && (body.contentType.isSome || body.fileSize.isSome) then
    refuse directoryCannotHaveContent
  else do
    refuseDuplicate (h.at body.parentPath body.name) body.parentPath body.name
    let file : FornixFile := {
      id := d.fileId
      name := body.name
      parentPath := body.parentPath
      storageKey := if body.storageKey = [] then d.storageKey else body.storageKey
      content := body.content
      isDirectory := body.isDirectory
      deletedAt := none }
    let hub ← h.insert file
    .ok ⟨file.id, .put file, .ok hub⟩

def validateNewParent (m : Mount) (h : Hub) (file : FornixFile) (parentPath : Option Str) :
    Except Refusal Unit :=
  if parentPath ≠ none ∧ parentPath ≠ file.parentPath then validateParentDirectory m h parentPath
  else .ok ()

/-- The row is only written after the mirror. -/
def updateFile (m : Mount) (h : Hub) (fileId : Id) (body : FornixFileUpdate) :
    Except Refusal Plan :=
  match h.find? fileId with
  | none => refuse (fileNotFound fileId)
  | some file => do
    validateNewParent m h file body.parentPath.join
    match body.name with
    | some none => .ok ⟨file.id, .broken, .ok h⟩
    | name =>
      let file' := { file with
        name := name.join.getD file.name
        parentPath := body.parentPath.getD file.parentPath }
      let moved := file'.parentPath ≠ file.parentPath ∨ file'.name ≠ file.name
      .ok ⟨file.id, if moved then .move file file' else .stay file, h.update file'⟩

def deletionTarget (file : FornixFile) : Str :=
  match file.parentPath with
  | none | some [] => '/' :: file.name
  | some p => p ++ '/' :: file.name

def deleteFile (h : Hub) (d : Draw) (fileId : Id) : Except Refusal Plan :=
  match h.find? fileId with
  | none => refuse (fileNotFound fileId)
  | some file =>
    let targetPath := deletionTarget file
    if file.isDirectory && h.active.any (fun f => f.parentPath = some targetPath) then
      refuse (directoryNotEmpty targetPath)
    else .ok ⟨file.id, .drop file, h.update { file with deletedAt := some d.now }⟩

def Hub.enter (h : Hub) (entry : VaultEntry) : Except Refusal Hub :=
  match h.entries.insert? entry with
  | none => .error (.failure .integrityError)
  | some entries => .ok { h with entries := entries }

def archiveFileToVault (h : Hub) (d : Draw) (fileId : Id) : Except Refusal Plan :=
  match h.find? fileId with
  | none => refuse (fileNotFound fileId)
  | some file =>
    if file.isDirectory then refuse (cannotArchiveDirectory fileId)
    else
      let entry : VaultEntry := {
        id := d.entryId
        sourceRef := some file.id
        archivedKey := some file.storageKey
        value := some ⟨file.name, file.parentPath, file.isDirectory, file.content⟩
        deletedAt := none }
      let hub := do
        let hub ← h.update { file with deletedAt := some d.now }
        hub.enter entry
      .ok ⟨file.id, .drop file, hub⟩

def Hub.retire (h : Hub) (d : Draw) (entryId : Id) : Hub :=
  { h with
    entries := h.entries.update entryId (VaultEntry.softDelete d.now)
      (VaultEntry.softDelete_id d.now) }

/-- The name of what comes back when its row is gone. -/
def restoredName (entry : VaultEntry) : Str :=
  match (entry.value.map (·.name)).getD [], entry.archivedKey.getD [] with
  | [], [] => "restored.txt".toList
  | [], key => key
  | name, _ => name

def restoreVaultEntry (h : Hub) (d : Draw) (entryId : Id) : Except Refusal Plan :=
  match (h.entries.find? entryId).filter (·.deletedAt.isNone) with
  | none => refuse (entryNotFound entryId)
  | some entry =>
    match entry.sourceRef.bind h.files.find? with
    | some source => do
      refuseDuplicate ((h.at source.parentPath source.name).filter (·.id ≠ source.id))
        source.parentPath source.name
      let source' := { source with
        content := (entry.value.bind (·.content)).or source.content
        deletedAt := none }
      let hub := (h.update source').map (·.retire d entryId)
      .ok ⟨source.id, .put source', hub⟩
    | none => do
      let parentPath := entry.value.bind (·.parentPath)
      refuseDuplicate (h.at parentPath (restoredName entry)) parentPath (restoredName entry)
      let file : FornixFile := {
        id := d.fileId
        name := restoredName entry
        parentPath := parentPath
        storageKey := match entry.archivedKey with
          | none | some [] => d.storageKey
          | some key => key
        content := entry.value.bind (·.content)
        isDirectory := (entry.value.map (·.isDirectory)).getD false
        deletedAt := none }
      let hub ← h.insert file
      .ok ⟨file.id, .put file, .ok (hub.retire d entryId)⟩

def hubWriteShared (m : Mount) (h : Hub) (d : Draw) (path content : Str) : Except Refusal Plan :=
  if !validateNoTraversal path then refuse (pathTraversal path)
  else
    match splitHubPath path with
    | none => refuse (pathInvalid path)
    | some (parentPath, name) => do
      validateParentDirectory m h parentPath
      refuseDuplicate (h.at parentPath name) parentPath name
      let file : FornixFile := {
        id := d.fileId
        name := name
        parentPath := parentPath
        storageKey := d.storageKey
        content := some content
        isDirectory := false
        deletedAt := none }
      let hub ← h.insert file
      .ok ⟨file.id, .put file, .ok hub⟩

inductive Request where
  | createFile (body : FornixFileCreate)
  | updateFile (fileId : Id) (body : FornixFileUpdate)
  | deleteFile (fileId : Id)
  | archiveFileToVault (fileId : Id)
  | restoreVaultEntry (entryId : Id)
  | hubWriteShared (path content : Str)

def Request.plan (m : Mount) (h : Hub) (d : Draw) : Request → Except Refusal Plan
  | .createFile body => Fornix.createFile m h d body
  | .updateFile fileId body => Fornix.updateFile m h fileId body
  | .deleteFile fileId => Fornix.deleteFile h d fileId
  | .archiveFileToVault fileId => Fornix.archiveFileToVault h d fileId
  | .restoreVaultEntry entryId => Fornix.restoreVaultEntry h d entryId
  | .hubWriteShared path content => Fornix.hubWriteShared m h d path content

def Change.calls (m : Mount) : Change → Option (List Call)
  | .stay _ => some []
  | .put f => syncWrite m f.parentPath f.name (f.content.getD []) f.isDirectory
  | .drop f => syncRemove m f.parentPath f.name
  | .move f f' => syncMove m f.parentPath f.name f'.parentPath f'.name
  | .broken => none

/-- Where a request is hit: in the database before it comes to the mirror or after, or at one of the
calls that keep the mirror. -/
inductive Fault where
  | none
  | before
  | call (n : Nat)
  | after

def Fault.call? : Fault → Option Nat
  | .call n => some n
  | _ => Option.none

structure State where
  hub : Hub
  disk : Disk

/-- A session that is not committed is rolled back. -/
def serve (m : Mount) (s : State) (r : Request) (d : Draw) (fault : Fault) :
    Except Refusal Unit × State :=
  match r.plan m s.hub d with
  | .error e => (.error e, s)
  | .ok plan =>
    match fault with
    | .before => (.error (.failure .connectionLost), s)
    | _ =>
      match plan.change.calls m with
      | none => (refuse (syncFailed plan.fileId), s)
      | some calls =>
        match runCalls s.disk calls fault.call? with
        | (false, disk) => (refuse (syncFailed plan.fileId), { s with disk := disk })
        | (true, disk) =>
          match fault, plan.hub with
          | .after, _ => (.error (.failure .connectionLost), { s with disk := disk })
          | _, .error e => (.error e, { s with disk := disk })
          | _, .ok hub => (.ok (), ⟨hub, disk⟩)

end Eyot.Fornix
