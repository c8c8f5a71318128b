import Eyot.Knowledge.Winners
import Eyot.Library.IndexedWrites
import Eyot.Library.Run

/-! Requests that create and update knowledge entries, each in a transaction of its own: the check
query, the flush against the unique index and the commit come one after the other, with those of
other requests in between. -/

namespace Eyot.Knowledge

def SCOPE_NULL_SENTINEL : Id := "00000000-0000-0000-0000-000000000000"

/-- `COALESCE(column, sentinel)`; ids are never empty. -/
def coalesce (column : Option Id) : Id := column.getD SCOPE_NULL_SENTINEL

structure Owner where
  scope : Scope
  organizationId : Id
  namespaceId : Id
  workspaceId : Id
  deriving DecidableEq

namespace KnowledgeEntry

/-- The effective scope, in which a key is taken once. -/
def owner (e : KnowledgeEntry) : Owner :=
  ⟨e.scope, coalesce e.organizationId, coalesce e.namespaceId, coalesce e.workspaceId⟩

/-- `uq_knowledge_entries_active_key` -/
def indexKey (e : KnowledgeEntry) : Owner × Id × Str := (e.owner, coalesce e.dimensionId, e.key)

end KnowledgeEntry

/-! The requests. -/

structure KnowledgeEntryCreate where
  key : Str
  title : Str
  body : Str
  dimensionId : Option Id
  scope : Scope
  organizationId : Option Id
  namespaceId : Option Id
  workspaceId : Option Id
  entityId : Option Id
  instanceId : Option Id

/-- A field that is not sent is `none`; any may be sent as null. -/
structure KnowledgeEntryUpdate where
  key : Option (Option Str)
  title : Option (Option Str)
  body : Option (Option Str)
  dimensionId : Option (Option Id)
  entityId : Option (Option Id)
  instanceId : Option (Option Id)

inductive Request where
  | create (newId : Id) (body : KnowledgeEntryCreate)
  | update (entryId : Id) (body : KnowledgeEntryUpdate)

/-- What a request that has passed its check will write. An update only sends the columns in which
it differs from the row that was loaded. -/
inductive Write where
  | insert (entry : KnowledgeEntry)
  | update (entryId : Id) (changes : KnowledgeEntryUpdate)

/-- An update that changes nothing sends no statement. -/
def Write.isEmpty : Write → Bool
  | .insert _ => false
  | .update _ c => c.key.isNone && c.title.isNone && c.body.isNone && c.dimensionId.isNone &&
      c.entityId.isNone && c.instanceId.isNone

structure State where
  ledger : Ledger KnowledgeEntry.id KnowledgeEntry.isActive KnowledgeEntry.indexKey
  checked : List (Nat × Write)

inductive Move where
  | check (n : Nat) (r : Request)
  | flush (n : Nat) (now : Time)
  | commit (n : Nat)
  | rollback (n : Nat)

/-! The check. -/

def validateScopeFks : Scope → Option Id → Option Id → Option Id → Bool
  | .system, orgId, nsId, wsId => orgId.isNone && nsId.isNone && wsId.isNone
  | .org, orgId, nsId, wsId => orgId.isSome && nsId.isNone && wsId.isNone
  | .namespaced, orgId, nsId, wsId => orgId.isSome && nsId.isSome && wsId.isNone
  | .workspace, orgId, nsId, wsId => orgId.isSome && nsId.isSome && wsId.isSome

section

variable (rows : List KnowledgeEntry)

def entryKeyTaken (owner : Owner) (key : Str) (excludeId : Option Id) : Bool :=
  rows.any fun e =>
    e.isActive && e.owner = owner && e.key = key && excludeId.all fun id => e.id ≠ id

-- `value.strip().lower()`
variable (lowerKey : Str → Str)

/-- `create_knowledge_entry` up to the flush; `none` where it is refused. -/
def checkCreate (newId : Id) (body : KnowledgeEntryCreate) : Option Write :=
  let entry : KnowledgeEntry :=
    ⟨newId, lowerKey body.key, body.title, body.body, body.dimensionId, body.scope,
      body.organizationId, body.namespaceId, body.workspaceId, body.entityId, body.instanceId, 0,
      none⟩
  if !validateScopeFks body.scope body.organizationId body.namespaceId body.workspaceId ||
      body.scope = .system || entryKeyTaken rows entry.owner entry.key none then none
  else some (.insert entry)

/-- A field that is sent and differs from the row. -/
def changed {α : Type} [DecidableEq α] (sent : Option α) (current : α) : Option α :=
  sent.filter fun v => v ≠ current

def changes (entry : KnowledgeEntry) (body : KnowledgeEntryUpdate) : KnowledgeEntryUpdate where
  key := changed (body.key.map fun key => key.map lowerKey) (some entry.key)
  title := changed body.title (some entry.title)
  body := changed body.body (some entry.body)
  dimensionId := changed body.dimensionId entry.dimensionId
  entityId := changed body.entityId entry.entityId
  instanceId := changed body.instanceId entry.instanceId

/-- `update_knowledge_entry` up to the flush. -/
def checkUpdate (entryId : Id) (body : KnowledgeEntryUpdate) : Option Write :=
  match rows.find? fun e => e.id = entryId && e.isActive with
  | none => none
  | some entry =>
    if entry.scope = .system ||
        (body.key.join.any fun key =>
          entryKeyTaken rows entry.owner (lowerKey key) (some entry.id)) then none
    else some (.update entry.id (changes lowerKey entry body))

def check : Request → Option Write
  | .create newId body => checkCreate rows lowerKey newId body
  | .update entryId body => checkUpdate rows lowerKey entryId body

end

/-! The flush. -/

/-- The row with the columns that are sent; `none` where one of them must not be null. -/
def KnowledgeEntryUpdate.apply (c : KnowledgeEntryUpdate) (now : Time) (e : KnowledgeEntry) :
    Option KnowledgeEntry := do
  let key ← c.key.getD (some e.key)
  let title ← c.title.getD (some e.title)
  let body ← c.body.getD (some e.body)
  return { e with
    key := key
    title := title
    body := body
    dimensionId := c.dimensionId.getD e.dimensionId
    entityId := c.entityId.getD e.entityId
    instanceId := c.instanceId.getD e.instanceId
    updatedAt := now }

/-- The row that a flush writes, over what is committed; `none` where a constraint of the row
itself or its primary key refuses it. -/
def Write.row? (committed : Table KnowledgeEntry.id) (now : Time) : Write → Option KnowledgeEntry
  | .insert entry =>
    if (committed.find? entry.id).isSome then none else some { entry with updatedAt := now }
  | .update entryId changes => (committed.find? entryId).bind (changes.apply now)

namespace State

variable (s : State)

def write? (n : Nat) : Option Write := (s.checked.find? fun w => w.1 = n).map Prod.snd

def drop (n : Nat) : State :=
  { ledger := s.ledger.rollback n, checked := s.checked.filter fun w => w.1 ≠ n }

/-- A row of another transaction in its way keeps it waiting; one that is committed makes it fail,
and it is rolled back. -/
def flush (n : Nat) (now : Time) : State :=
  match s.write? n with
  | none => s
  | some w =>
    match w.row? s.ledger.committed now with
    | none => s.drop n
    | some r =>
      if hwaits : s.ledger.Waits r then s
      else if hrefuses : s.ledger.Refuses r then s.drop n
      else
        { ledger := s.ledger.stage n r hwaits hrefuses
          checked := s.checked.filter fun w => w.1 ≠ n }

def step (lowerKey : Str → Str) : Move → State
  | .check n r =>
    match check s.ledger.committed.rows lowerKey r with
    | none => s
    | some w => if w.isEmpty then s else { s with checked := (n, w) :: s.checked }
  | .flush n now => s.flush n now
  | .commit n => { s with ledger := s.ledger.commit n }
  | .rollback n => s.drop n

end State

end Eyot.Knowledge
