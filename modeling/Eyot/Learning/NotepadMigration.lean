import Eyot.Data.PyUuid
import Eyot.Data.Rows
import Eyot.Library.Dict

/-! The notepads of the loop states, which are files, are made into memories. -/

namespace Eyot.Learning.Notepad

/-- A decoded JSON column: no object of it has a key twice. -/
abbrev Refs := {v : Json PyStr // ∀ kvs, v = .obj kvs → Dict.Distinct kvs}

structure LoopState where
  id : Id
  instanceId : Id
  notepadRefs : Option Refs
  deletedAt : Option Time

def LoopState.withRefs (ls : LoopState) (refs : Refs) : LoopState :=
  { ls with notepadRefs := some refs }

/-- A memory but for its id. -/
structure Note where
  entityId : Id
  kind : String
  key : PyStr
  content : PyStr
  sourceInstanceId : Id

structure Memory extends Note where
  id : PyStr

/-- An audit event but for its id. -/
structure Orphan where
  type : String
  actorType : String
  resourceType : String
  loopStateId : Id
  instanceId : Id
  notepadName : PyStr
  path : PyStr

structure OrphanEvent extends Orphan where
  id : PyStr

/-- Memories and events are logs; what is drawn for an id is taken to be new. -/
structure Db where
  loopStates : Table LoopState.id
  instances : Table Instance.id
  memories : List Memory
  events : List OrphanEvent

def Db.setRefs (db : Db) (id : Id) (refs : Refs) : Db :=
  { db with loopStates := db.loopStates.update id (·.withRefs refs) fun _ => rfl }

/-- What comes of opening a file and reading it; `valueError` is for a path that no file system
takes, as one with a NUL. -/
inductive Reading where
  | text (t : PyStr)
  | osError
  | unicodeDecodeError
  | valueError

inductive Raised where
  | valueError
  | dataError

def ORPHAN_EVENT_TYPE : String := "learning.notepad_migration_orphan"

def NOTEPAD_KIND : String := "notepad"

def MAX_CONTENT_CHARS : Nat := 2000

def readText (fs : PyStr → Reading) (path : PyStr) : Except Raised (Option PyStr) :=
  match fs path with
  | .text t => .ok (some (t.take MAX_CONTENT_CHARS))
  | .osError | .unicodeDecodeError => .ok none
  | .valueError => .error .valueError

/-- The parts of a path are what is between the slashes. -/
def hasTraversal (path : PyStr) : Bool := (path.splitOnP fun c => c.val = 0x2F).contains (py "..")

def nonEmptyText? : Json PyStr → Option PyStr
  | .str t => if t = [] then none else some t
  | _ => none

def iterPaths : Json PyStr → List PyStr
  | .arr vs => vs.filterMap nonEmptyText?
  | v => (nonEmptyText? v).toList

/-- A text for a `VARCHAR(n)` column: spaces past its end are cut off. -/
def varchar (n : Nat) (t : PyStr) : Option PyStr :=
  if (t.drop n).all fun c => c.val = 32 then some (t.take n) else none

structure Report where
  scanned : Nat
  memoriesCreated : Nat
  refsRewritten : Nat
  orphaned : Nat
  skippedNoEntity : Nat
  skippedTraversal : Nat
  unparseable : Nat

/-- The database, how many ids have been drawn, and the report. -/
structure State where
  db : Db
  drawn : Nat
  report : Report

/-- `new_refs` -/
abbrev NewRefs := {d : List (PyStr × PyStr) // Dict.Distinct d}

def NewRefs.set (refs : NewRefs) (name value : PyStr) : NewRefs :=
  ⟨Dict.set refs.1 name value, Dict.distinct_set refs.2⟩

/-- `json.dumps(new_refs)` in the column. -/
def NewRefs.column (refs : NewRefs) : Refs :=
  ⟨.obj (refs.1.map fun kv => (kv.1, .str kv.2)), by
    intro kvs h
    obtain rfl := Json.obj.inj h
    rw [Dict.Distinct, List.map_map]
    exact refs.2⟩

section

variable (fs : PyStr → Reading) (draw : Nat → Nat)

namespace State

variable (st : State)

/-- A JSONB column takes the texts that a text column takes. -/
def recordOrphan (ls : LoopState) (name path : PyStr) : Except Raised State :=
  let event : OrphanEvent :=
    { type := ORPHAN_EVENT_TYPE
      actorType := "system"
      resourceType := "memory"
      loopStateId := ls.id
      instanceId := ls.instanceId
      notepadName := name
      path := path
      id := PyUuid.uuidText (draw st.drawn) }
  if name.isStorable && path.isStorable then
    .ok
      { db := { st.db with events := st.db.events ++ [event] }
        drawn := st.drawn + 1
        report := { st.report with orphaned := st.report.orphaned + 1 } }
  else .error .dataError

/-- The text of a file, or its path where there is none. -/
def contentOr (ls : LoopState) (name path : PyStr) : Option PyStr → Except Raised (State × PyStr)
  | some text => .ok (st, text)
  | none => (st.recordOrphan draw ls name path).map fun st => (st, path)

/-- The new id is given too. -/
def insertMemory (note : Note) : Except Raised (State × PyStr) :=
  match varchar 255 note.key with
  | none => .error .dataError
  | some key =>
    if key.isStorable && note.content.isStorable then
      let memory : Memory := { note with key := key, id := PyUuid.uuidText (draw st.drawn) }
      .ok ({ db := { st.db with memories := st.db.memories ++ [memory] }
             drawn := st.drawn + 1
             report := { st.report with memoriesCreated := st.report.memoriesCreated + 1 } },
        memory.id)
    else .error .dataError

end State

def newNote (ls : LoopState) (entityId : Id) (name content : PyStr) : Note where
  entityId := entityId
  kind := NOTEPAD_KIND
  key := py "notepad/" ++ name
  content := content
  sourceInstanceId := ls.instanceId

/-- The body of the loop over the paths; the id is the `memory_id`. -/
def migratePath (ls : LoopState) (entityId : Id) (name : PyStr) (acc : State × Option PyStr)
    (path : PyStr) : Except Raised (State × Option PyStr) :=
  let (st, memoryId) := acc
  if hasTraversal path then
    .ok ({ st with report.skippedTraversal := st.report.skippedTraversal + 1 }, memoryId)
  else do
    let text ← readText fs path
    let (st, content) ← st.contentOr draw ls name path text
    let (st, id) ← st.insertMemory draw (newNote ls entityId name content)
    return (st, some id)

def setRef (refs : NewRefs) (name : PyStr) : Option PyStr → NewRefs
  | none => refs
  | some id => refs.set name id

/-- A text that is the id of a memory. -/
def uuidRef? : Json PyStr → Option PyStr
  | .str t => if PyUuid.isUuid t then some t else none
  | _ => none

/-- The body of the loop over the refs. -/
def migrateRef (ls : LoopState) (entityId : Id) (acc : State × NewRefs) (ref : PyStr × Json PyStr) :
    Except Raised (State × NewRefs) :=
  let (st, newRefs) := acc
  match uuidRef? ref.2 with
  | some id => .ok (st, newRefs.set ref.1 id)
  | none =>
    if iterPaths ref.2 = [] then
      .ok ({ st with report.unparseable := st.report.unparseable + 1 }, newRefs)
    else do
      let (st, memoryId) ← (iterPaths ref.2).foldlM (migratePath fs draw ls entityId ref.1) (st, none)
      return (st, setRef newRefs ref.1 memoryId)

/-- The refs of a row that has some. -/
def refsOf (ls : LoopState) : List (PyStr × Json PyStr) :=
  match ls.notepadRefs with
  | some ⟨.obj kvs, _⟩ => kvs
  | _ => []

def entityOf (db : Db) (ls : LoopState) : Option Id :=
  ((db.instances.find? ls.instanceId).filter fun i => i.deletedAt.isNone && i.entityId ≠ "").map
    Instance.entityId

/-- The body of the loop over the rows; the instances are those of `db₀`. -/
def migrateRow (db₀ : Db) (st : State) (ls : LoopState) : Except Raised State :=
  if refsOf ls = [] then .ok st
  else
    let st := { st with report.scanned := st.report.scanned + 1 }
    match entityOf db₀ ls with
    | none => .ok { st with report.skippedNoEntity := st.report.skippedNoEntity + 1 }
    | some entityId => do
      let (st, newRefs) ← (refsOf ls).foldlM (migrateRef fs draw ls entityId)
        (st, ⟨[], Dict.distinct_nil⟩)
      return { st with
        db := st.db.setRefs ls.id newRefs.column
        report.refsRewritten := st.report.refsRewritten + 1 }

def selectRows (db : Db) : List LoopState :=
  db.loopStates.rows.filter fun ls => ls.notepadRefs.isSome && ls.deletedAt.isNone

def migrateNotepadRefs (db : Db) : Except Raised (Db × Report) := do
  let st ← (selectRows db).foldlM (migrateRow fs draw db) ⟨db, 0, ⟨0, 0, 0, 0, 0, 0, 0⟩⟩
  return (st.db, st.report)

end

end Eyot.Learning.Notepad
