import Eyot.Data.Cursors
import Eyot.Data.Errors
import Eyot.Library.Paging
import Eyot.Routing.DirectiveRouter

/-! The memory of an entity as `GET /memory/entries` lists it. -/

namespace Eyot.Learning

open Paging

structure MemoryEntry where
  id : Str
  entityId : Id
  kind : Str
  key : Option Str
  content : Option Str
  createdAt : Datetime
  deleted : Bool

structure MemoryBook where
  entities : Table Entity.id
  memories : List MemoryEntry

/-- What `ORDER BY created_at` makes of rows; those of one time come in any order. -/
structure Arrangement where
  arrange : List MemoryEntry → List MemoryEntry
  perm : ∀ rows, (arrange rows).Perm rows
  sorted : ∀ rows, (arrange rows).Pairwise fun a b => a.createdAt ≤ b.createdAt

/-- An API error, or the `ValueError` of a cursor that cannot be read. -/
inductive PageFailure where
  | eyot (e : EyotError)
  | valueError
  deriving DecidableEq

structure CursorPage where
  items : List MemoryEntry
  nextCursor : Option Str

/-- `paginate_cursor`, by `created_at`. -/
def paginateCursor (O : Arrangement) (query : List MemoryEntry) (limit : Nat)
    (decoder : Str → Option Datetime) (cursor : Option Str) : Except PageFailure CursorPage := do
  let query ← match cursor with
    | none => .ok query
    | some cursor =>
      match decoder cursor with
      | none => .error .valueError
      | some decoded => .ok (query.filter fun m => decoded < m.createdAt)
  let allItems := (O.arrange query).take (limit + 1)
  let items := allItems.take limit
  let next := items.getLast?.map fun m => m.createdAt.str
  .ok ⟨items, if limit < allItems.length then next else none⟩

/-- `_decode_cursor` of this endpoint, which drops the id. -/
def decodeMemoryCursor (cursor : Str) : Option Datetime :=
  (Cursor.decodeCursor cursor).map Prod.fst

namespace MemoryBook

variable (book : MemoryBook)

def activeEntity? (id : Id) : Option Entity :=
  (book.entities.find? id).filter fun e => e.deletedAt.isNone

def activeMemories (entityId : Id) (kind : Option Str) : List MemoryEntry :=
  book.memories.filter fun m =>
    decide (m.entityId = entityId) && !m.deleted && kind.all fun k => m.kind = k

end MemoryBook

/-- `list_memories` -/
def listMemories (O : Arrangement) (book : MemoryBook) (entityId : Id) (limit : Nat)
    (cursor : Option Str) (kind key : Option Str) : Except PageFailure CursorPage :=
  match book.activeEntity? entityId with
  | none => .error (.eyot (NotFoundError "entity.not_found" "errors.entity.not_found"
      s!"Entity '{entityId}' not found"))
  | some _ =>
    match key with
    | some key =>
      let stmt := (book.activeMemories entityId none).filter fun m => m.key = some key
      .ok ⟨(O.arrange stmt).reverse.take 1, none⟩
    | none =>
      let stmt := book.activeMemories entityId kind
      match cursor with
      | none => paginateCursor O stmt limit decodeMemoryCursor none
      | some cursor => do
        let page ← paginateCursor O stmt limit decodeMemoryCursor (some cursor)
        if page.nextCursor.isSome then
          .ok { page with nextCursor := page.items.getLast?.map fun last =>
            Cursor.encodeCursor last.createdAt last.id }
        else .ok page

/-- What a client makes of an answer. -/
def CursorPage.parts (page : CursorPage) : List MemoryEntry × Option Str :=
  (page.items, page.nextCursor)

/-- Every page that there is, one after the other. -/
def readMemories (O : Arrangement) (book : MemoryBook) (entityId : Id) (limit : Nat)
    (kind : Option Str) : Reading MemoryEntry Str → Loop.Turn (Reading MemoryEntry Str)
      (Option (List MemoryEntry)) :=
  follow fun _ cursor =>
    (listMemories O book entityId limit cursor kind none).toOption.map CursorPage.parts

variable {O : Arrangement} {book : MemoryBook} {entityId : Id} {limit : Nat} {kind : Option Str}
  {e : Entity}

theorem listMemories_first (he : book.activeEntity? entityId = some e) :
    listMemories O book entityId limit none kind none =
      .ok ⟨(O.arrange (book.activeMemories entityId kind)).take limit,
        if limit < (O.arrange (book.activeMemories entityId kind)).length then
          ((O.arrange (book.activeMemories entityId kind)).take limit).getLast?.map
            fun m => m.createdAt.str
        else none⟩ := by
  have hpage : listMemories O book entityId limit none kind none =
      paginateCursor O (book.activeMemories entityId kind) limit decodeMemoryCursor none := by
    rw [listMemories, he]
  rw [hpage, paginateCursor]
  change Except.ok (CursorPage.mk _ _) = _
  rw [List.take_take, min_eq_left (Nat.le_succ limit), List.length_take]
  by_cases hmore : limit < (O.arrange (book.activeMemories entityId kind)).length
  · rw [if_pos (by omega), if_pos hmore]
  · rw [if_neg (by omega), if_neg hmore]

theorem listMemories_str (he : book.activeEntity? entityId = some e) (d : Datetime) :
    listMemories O book entityId limit (some d.str) kind none = .error .valueError := by
  have hread : decodeMemoryCursor d.str = none := by
    rw [decodeMemoryCursor, Cursor.decodeCursor_str]
    rfl
  rw [listMemories, he]
  dsimp only
  rw [paginateCursor, hread]
  rfl

/-- All of the rows have room on one page. -/
theorem read_of_few (he : book.activeEntity? entityId = some e)
    (hfew : (book.activeMemories entityId kind).length ≤ limit) :
    Loop.Returns (readMemories O book entityId limit kind) start
      (some (O.arrange (book.activeMemories entityId kind))) := by
  have hlen := (O.perm (book.activeMemories entityId kind)).length_eq
  have honly : (listMemories O book entityId limit none kind none).toOption.map CursorPage.parts =
      some (O.arrange (book.activeMemories entityId kind), none) := by
    rw [listMemories_first he, if_neg (by omega), List.take_of_length_le (by omega)]
    rfl
  exact Loop.returns_done (follow_last (s := start) honly)

/-- The first page hands out a time as its cursor, which the second request cannot read. -/
theorem read_of_more (he : book.activeEntity? entityId = some e) (hlimit : 1 ≤ limit)
    (hmore : limit < (book.activeMemories entityId kind).length) :
    Loop.Returns (readMemories O book entityId limit kind) start none := by
  have hlen := (O.perm (book.activeMemories entityId kind)).length_eq
  obtain ⟨last, hlast⟩ : ∃ last,
      ((O.arrange (book.activeMemories entityId kind)).take limit).getLast? = some last := by
    rw [← Option.isSome_iff_exists, List.getLast?_isSome, ne_eq, List.take_eq_nil_iff]
    rintro (hzero | hnil)
    · omega
    · rw [hnil] at hlen
      rw [← hlen] at hmore
      cases hmore
  have hfirst : (listMemories O book entityId limit none kind none).toOption.map CursorPage.parts =
      some ((O.arrange (book.activeMemories entityId kind)).take limit,
        some last.createdAt.str) := by
    rw [listMemories_first he, if_pos (by omega), hlast]
    rfl
  have hsecond : (listMemories O book entityId limit (some last.createdAt.str) kind
      none).toOption.map CursorPage.parts = none := by
    rw [listMemories_str he]
    rfl
  exact Loop.returns_again (follow_again hfirst) (Loop.returns_done (follow_fails hsecond))

/-- Following the cursors of the list hands out every active row once, in the order of time, if
and only if there is no second page. -/
theorem reads_memories_iff (O : Arrangement) (book : MemoryBook) (kind : Option Str)
    (he : book.activeEntity? entityId = some e) (hlimit : 1 ≤ limit) :
    (∃ ms, Loop.Returns (readMemories O book entityId limit kind) start (some ms) ∧
      ms.Perm (book.activeMemories entityId kind) ∧
      ms.Pairwise fun a b => a.createdAt ≤ b.createdAt) ↔
    (book.activeMemories entityId kind).length ≤ limit := by
  constructor
  · rintro ⟨ms, hreturns, -, -⟩
    by_contra hmore
    cases hreturns.unique (read_of_more he hlimit (not_le.mp hmore))
  · intro hfew
    exact ⟨_, read_of_few he hfew, O.perm _, O.sorted _⟩

/-! A bittern with one memory, or two. -/

def byTime : Arrangement where
  arrange := sortBy MemoryEntry.createdAt
  perm := sortBy_perm _
  sorted := pairwise_sortBy _

def bittern : Entity := ⟨"bittern", "reedbed", "bittern".toList, none⟩

theorem dawn_valid : (DatetimeFields.mk 2024 5 1 4 30 0 0).Valid := by decide

def boom (id : String) : MemoryEntry :=
  ⟨id.toList, "bittern", "experience".toList, none, none, ⟨_, dawn_valid⟩, false⟩

def reedbed (memories : List MemoryEntry) : MemoryBook :=
  ⟨⟨[bittern], List.nodup_singleton _⟩, memories⟩

theorem reads_memories_reedbed :
    ∃ ms, Loop.Returns (readMemories byTime (reedbed [boom "one"]) "bittern" 50 none)
        start (some ms) ∧
      ms.Perm ((reedbed [boom "one"]).activeMemories "bittern" none) ∧
      ms.Pairwise fun a b => a.createdAt ≤ b.createdAt :=
  (reads_memories_iff (e := bittern) byTime (reedbed [boom "one"]) none rfl
    (by decide)).mpr (by decide)

/-- Two rows in pages of one. -/
theorem not_reads_memories : ¬ ∀ (O : Arrangement) (book : MemoryBook) (entityId : Id)
    (limit : Nat), (book.activeEntity? entityId).isSome → 1 ≤ limit →
    ∃ ms, Loop.Returns (readMemories O book entityId limit none) start (some ms) ∧
      ms.Perm (book.activeMemories entityId none) := by
  intro h
  obtain ⟨ms, hreturns, -⟩ := h byTime (reedbed [boom "one", boom "two"])
    "bittern" 1 rfl (by decide)
  have hfails : Loop.Returns (readMemories byTime
      (reedbed [boom "one", boom "two"]) "bittern" 1 none) start none :=
    read_of_more (e := bittern) rfl (by decide) (by decide)
  cases hreturns.unique hfails

end Eyot.Learning
