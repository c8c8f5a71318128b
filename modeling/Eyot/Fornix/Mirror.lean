import Eyot.Data.Text
import Eyot.Library.FileTree
import Eyot.Library.PosixPath

/-! The mirror of a workspace's hub on the shared mount, and the calls that keep it. -/

namespace Eyot.Fornix

open PosixPath

abbrev Path := List Str

abbrev Disk := FileTree Str Str

/-- Where a backend finds the mirror of a workspace. -/
structure Mount where
  cwd : Path
  fornixRoot : Str
  workspaceId : Str

def Mount.resolve (m : Mount) (p : Str) : Path := PosixPath.resolve m.cwd p

def validateNoTraversal (value : Str) : Bool := !(parts value).contains ['.', '.']

def sharedHostPath (workspaceId root : Str) : Option Str :=
  if validateNoTraversal workspaceId then
    some (rstrip root ++ '/' :: workspaceId ++ "/shared".toList)
  else none

def mirrorRoot (m : Mount) : Option Str := sharedHostPath m.workspaceId m.fornixRoot

def mirrorRel (parentPath : Option Str) (name : Str) : Str :=
  match parentPath with
  | none | some [] => name
  | some p => strip p ++ '/' :: name

/-- `none` where a `..` is refused. -/
def mirrorAbsPath (m : Mount) (parentPath : Option Str) (name : Str) : Option Str :=
  if validateNoTraversal m.workspaceId && parentPath.all validateNoTraversal &&
      validateNoTraversal name then
    (mirrorRoot m).map fun root => join root (mirrorRel parentPath name)
  else none

def splitParentPath (parentPath : Option Str) : Option Str × Str :=
  match parentPath with
  | none => (none, [])
  | some p =>
    let clean := strip p
    if clean = [] then (none, [])
    else
      (if dirname clean = [] then none else some ('/' :: dirname clean), basename clean)

/-- `none` where the path is empty. -/
def splitHubPath (path : Str) : Option (Option Str × Str) :=
  let clean := strip path
  if clean = [] then none
  else some (if dirname clean = [] then none else some ('/' :: dirname clean), basename clean)

/-- What is asked of the file system. `open` with `"w"` and the write that follows it are two
writes, the first of an empty text. -/
inductive Call where
  | check (src dst : Path)
  | makedirs (d : Path)
  | write (p : Path) (text : Str)
  | move (src dst : Path)
  | remove (p : Path)

/-- `shutil.move` puts what it moves into a directory that is there, and moves nothing onto
itself. -/
def shutilMove (t : Disk) (src dst : Path) : Option Disk :=
  if src = dst then
    if (t.node src).isSome then some t else none
  else if t.isDirectory dst then
    let realDst := dst ++ src.getLast?.toList
    if (t.node realDst).isSome then none else t.rename src realDst
  else t.rename src dst

/-- `none` where it raises. -/
def Call.perform (t : Disk) : Call → Option Disk
  | .check src dst =>
    if t.isDirectory src && (t.node dst).isSome && !t.isDirectory dst then none else some t
  | .makedirs d => t.mkdirs d
  | .write p text => t.write p text
  | .move src dst => shutilMove t src dst
  | .remove p => if (t.node p).isNone then some t else t.remove p

/-- The calls in turn, up to one that raises. The one that a fault hits does nothing. -/
def runCalls (t : Disk) : List Call → Option Nat → Bool × Disk
  | [], _ => (true, t)
  | c :: cs, fault =>
    if fault = some 0 then (false, t)
    else
      match c.perform t with
      | none => (false, t)
      | some t' => runCalls t' cs (fault.map (· - 1))

def dirnameOrDot (p : Str) : Str := if dirname p = [] then ['.'] else dirname p

def syncWrite (m : Mount) (parentPath : Option Str) (name content : Str) (isDirectory : Bool) :
    Option (List Call) :=
  (mirrorAbsPath m parentPath name).map fun target =>
    if isDirectory then [.makedirs (m.resolve target)]
    else [.makedirs (m.resolve (dirnameOrDot target)), .write (m.resolve target) [],
      .write (m.resolve target) content]

def syncMove (m : Mount) (srcParentPath : Option Str) (srcName : Str) (dstParentPath : Option Str)
    (dstName : Str) : Option (List Call) :=
  (mirrorAbsPath m srcParentPath srcName).bind fun src =>
    (mirrorAbsPath m dstParentPath dstName).map fun dst =>
      [.check (m.resolve src) (m.resolve dst), .makedirs (m.resolve (dirnameOrDot dst)),
        .move (m.resolve src) (m.resolve dst)]

def syncRemove (m : Mount) (parentPath : Option Str) (name : Str) : Option (List Call) :=
  (mirrorAbsPath m parentPath name).map fun target => [.remove (m.resolve target)]

/-- A move finds both ends the same, or goes into the directory it finds, or to a new place. -/
theorem shutilMove_eq_some {t t' : Disk} {src dst : Path} (h : shutilMove t src dst = some t') :
    src = dst ∧ t' = t ∨
      src ≠ dst ∧ t.isDirectory dst = true ∧
        t.node (dst ++ src.getLast?.toList) = none ∧
          t.rename src (dst ++ src.getLast?.toList) = some t' ∨
      src ≠ dst ∧ t.isDirectory dst = false ∧ t.rename src dst = some t' := by
  unfold shutilMove at h
  split at h
  · rename_i heq
    split at h
    · cases h
      exact .inl ⟨heq, rfl⟩
    · cases h
  · rename_i hne
    split at h
    · rename_i hdirectory
      dsimp only at h
      split at h
      · cases h
      · rename_i hnone
        rw [Bool.not_eq_true, Option.isSome_eq_false_iff, Option.isNone_iff_eq_none] at hnone
        exact .inr (.inl ⟨hne, hdirectory, hnone, h⟩)
    · rename_i hdirectory
      rw [Bool.not_eq_true] at hdirectory
      exact .inr (.inr ⟨hne, hdirectory, h⟩)

/-! Where a path of the mirror leads. -/

variable {m : Mount} {parentPath : Option Str} {name : Str}

/-- The directory of the mirror. -/
def Mount.root (m : Mount) : Path :=
  m.resolve (rstrip m.fornixRoot ++ '/' :: m.workspaceId ++ "/shared".toList)

theorem mirrorRoot_eq_some {root : Str} (h : mirrorRoot m = some root) :
    m.resolve root = m.root := by
  unfold mirrorRoot sharedHostPath at h
  split at h
  · cases h
    rfl
  · cases h

theorem mirrorAbsPath_eq_some {target : Str} (h : mirrorAbsPath m parentPath name = some target) :
    validateNoTraversal name = true ∧ parentPath.all validateNoTraversal = true ∧
      ∃ root, mirrorRoot m = some root ∧ join root (mirrorRel parentPath name) = target := by
  unfold mirrorAbsPath at h
  split at h
  · rename_i hvalid
    rw [Bool.and_eq_true, Bool.and_eq_true] at hvalid
    obtain ⟨root, hroot, rfl⟩ := Option.map_eq_some_iff.mp h
    exact ⟨hvalid.2, hvalid.1.2, root, hroot, rfl⟩
  · cases h

def mirrorPath (m : Mount) (parentPath : Option Str) (name : Str) : Path :=
  if isAbsolute (mirrorRel parentPath name) then parts (mirrorRel parentPath name)
  else m.root ++ parts (mirrorRel parentPath name)

theorem resolve_mirrorAbsPath {target : Str} (h : mirrorAbsPath m parentPath name = some target) :
    m.resolve target = mirrorPath m parentPath name := by
  obtain ⟨_, _, root, hroot, rfl⟩ := mirrorAbsPath_eq_some h
  unfold mirrorPath
  split
  · rename_i habsolute
    rw [join_of_absolute habsolute, Mount.resolve, resolve, if_pos habsolute]
  · rename_i hrelative
    rw [Bool.not_eq_true] at hrelative
    rw [Mount.resolve, resolve_join hrelative]
    exact congrArg (· ++ _) (mirrorRoot_eq_some hroot)

/-- The directory of a path is where the path leads, short of its last name. -/
theorem resolve_dirnameOrDot (m : Mount) (p : Str) :
    m.resolve (dirnameOrDot p) ++ parts (basename p) = m.resolve p := by
  have hsplit := parts_dirname_basename p
  unfold dirnameOrDot
  split
  · rename_i hdirname
    rw [hdirname, parts_nil, List.nil_append] at hsplit
    have hdot : m.resolve ['.'] = m.cwd := List.append_nil m.cwd
    rw [hdot, hsplit, Mount.resolve, PosixPath.resolve,
      if_neg (Bool.not_eq_true _ ▸ isAbsolute_of_dirname_eq_nil hdirname)]
  · rename_i hdirname
    obtain ⟨l, hl⟩ := dirname_prefix p
    have habsolute : isAbsolute (dirname p) = isAbsolute p := by
      conv_rhs => rw [← hl]
      exact (isAbsolute_append hdirname l).symm
    rw [Mount.resolve, Mount.resolve, PosixPath.resolve, PosixPath.resolve, habsolute]
    split
    · exact hsplit
    · rw [List.append_assoc, hsplit]

end Eyot.Fornix
