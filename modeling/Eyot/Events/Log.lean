import Eyot.Data.Cursors
import Eyot.Data.Utf16
import Eyot.Events.Watcher
import Eyot.Library.Paging
import Mathlib.Data.Char
import Mathlib.Data.List.Lex
import Mathlib.Data.Prod.Lex
import Mathlib.Data.Set.Finite.List

/-! The log of events as `GET /events` lists it: newest first, page by page. -/

namespace Eyot.Events

open Fnmatch Paging

/-- The id is a `VARCHAR(36)`. -/
structure LoggedEvent extends Event where
  createdAt : Datetime
  id_length : id.length ≤ 36

/-- A pattern of `LIKE`, with the backslash as its escape. -/
def likePattern : Str → List Glob
  | [] => []
  | '%' :: cs => .star :: likePattern cs
  | '_' :: cs => .one :: likePattern cs
  | '\\' :: c :: cs => .char c :: likePattern cs
  | c :: cs => .char c :: likePattern cs

def like (text pattern : Str) : Bool := fullmatch (likePattern pattern) text

/-- What a request asks for, the cursor aside. -/
structure EventsQuery where
  typePrefix : Option Str
  resourceType : Option Str
  resourceId : Option Str
  requestId : Option Str
  since : Option Datetime
  «until» : Option Datetime
  limit : Nat
  one_le_limit : 1 ≤ limit
  limit_le : limit ≤ 200

def EventsQuery.matches (q : EventsQuery) (e : LoggedEvent) : Bool :=
  (q.typePrefix.all fun p => like e.type (p ++ ['%'])) &&
  (q.resourceType.all fun t => e.resourceType = some t) &&
  (q.resourceId.all fun i => e.resourceId = some i) &&
  (q.requestId.all fun i => e.requestId = some i) &&
  (q.since.all fun d => d ≤ e.createdAt) &&
  (q.until.all fun d => e.createdAt ≤ d)

/-- A text as the database compares it. -/
structure Collated where
  text : Str

section Paged

variable [LinearOrder Collated]

/-- `tuple_(Event.created_at, Event.id)` -/
def rowValue (createdAt : Datetime) (id : Str) : Datetime ×ₗ Collated := toLex (createdAt, ⟨id⟩)

/-- The rows are sorted by their values, the other way round. -/
abbrev Key : Type := (Datetime ×ₗ Collated)ᵒᵈ

def LoggedEvent.key (e : LoggedEvent) : Key := .toDual (rowValue e.createdAt e.id)

/-- The first rows of what was selected, with a cursor if there are more. -/
def pageOf (q : EventsQuery) (stmt : List LoggedEvent) : List LoggedEvent × Option Str :=
  let allItems := (sortBy LoggedEvent.key stmt).take (q.limit + 1)
  let items := allItems.take q.limit
  let next := items.getLast?.map fun last => Cursor.encodeCursor last.createdAt last.id
  (items, if q.limit < allItems.length then next else none)

/-- `list_events`; `none` where the cursor cannot be read. -/
def listEvents (rows : List LoggedEvent) (q : EventsQuery) (cursor : Option Str) :
    Option (List LoggedEvent × Option Str) :=
  let stmt := rows.filter q.matches
  match cursor with
  | none => some (pageOf q stmt)
  | some cursor => do
    let (createdAt, id) ← Cursor.decodeCursor cursor
    some (pageOf q (stmt.filter fun e => rowValue e.createdAt e.id < rowValue createdAt id))

/-- The cursor that stands for a key. -/
def cursorOf (c : Key) : Str := Cursor.encodeCursor (ofLex c.ofDual).1 (ofLex c.ofDual).2.text

/-- A key whose cursor can be read. -/
def Key.Bare (c : Key) : Prop := Cursor.Bare (ofLex c.ofDual).2.text

variable {rows : List LoggedEvent} {q : EventsQuery}

theorem pageOf_eq (stmt : List LoggedEvent) :
    pageOf q stmt = ((sortBy LoggedEvent.key stmt).take q.limit,
      (if q.limit < (sortBy LoggedEvent.key stmt).length then
        ((sortBy LoggedEvent.key stmt).take q.limit).getLast?.map LoggedEvent.key
      else none).map cursorOf) := by
  rw [pageOf, List.take_take, min_eq_left (Nat.le_succ _), List.length_take]
  by_cases hmore : q.limit < (sortBy LoggedEvent.key stmt).length
  · rw [if_pos (by omega), if_pos hmore, Option.map_map]
    rfl
  · rw [if_neg (by omega), if_neg hmore]
    rfl

theorem listEvents_some {cursor : Str} {createdAt : Datetime} {id : Str}
    (h : Cursor.decodeCursor cursor = some (createdAt, id)) :
    listEvents rows q (some cursor) = some (pageOf q ((rows.filter q.matches).filter fun e =>
      rowValue e.createdAt e.id < rowValue createdAt id)) := by
  simp only [listEvents, h, Option.bind_eq_bind, Option.bind_some]

theorem listEvents_none {cursor : Str} (h : Cursor.decodeCursor cursor = none) :
    listEvents rows q (some cursor) = none := by
  simp only [listEvents, h, Option.bind_eq_bind, Option.bind_none]

/-- One request reads the page behind the key. -/
theorem listEvents_eq {after : Option Key} (h : ∀ c, after = some c → c.Bare) :
    listEvents rows q (after.map cursorOf) =
      some ((page LoggedEvent.key q.limit (rows.filter q.matches) after).1,
        (page LoggedEvent.key q.limit (rows.filter q.matches) after).2.map cursorOf) := by
  cases after with
  | none =>
    have hall : rowsAfter LoggedEvent.key (rows.filter q.matches) none = rows.filter q.matches :=
      List.filter_eq_self.mpr fun _ _ => rfl
    rw [page, hall]
    exact congrArg some (pageOf_eq _)
  | some c =>
    have hread := Cursor.decodeCursor_encodeCursor (ofLex c.ofDual).1 (h c rfl)
    have hvalue : rowValue (ofLex c.ofDual).1 (ofLex c.ofDual).2.text = c.ofDual := rfl
    have hafter : (rows.filter q.matches).filter
          (fun e => decide (rowValue e.createdAt e.id < c.ofDual)) =
        rowsAfter LoggedEvent.key (rows.filter q.matches) (some c) := by
      rw [rowsAfter_some]
      exact List.filter_congr fun e _ => decide_eq_decide.mpr OrderDual.lt_toDual.symm
    rw [Option.map_some, cursorOf, listEvents_some hread, hvalue, hafter, pageOf_eq]
    rfl

/-! Page after page. -/

/-- What the log holds at each request. Nothing is ever changed or taken out. -/
structure AppendOnly (world : Nat → List LoggedEvent) : Prop where
  mono : ∀ k, world k ⊆ world (k + 1)
  nodup : ∀ k, ((world k).map fun e => e.id).Nodup

omit [LinearOrder Collated] in
/-- There is no end of times and ids, but for the width of the columns. -/
theorem exists_keys : ∃ keys : Finset Key, ∀ e : LoggedEvent, e.key ∈ keys := by
  have hkeys : (Set.image2 (fun d id => (.toDual (rowValue d id) : Key)) Set.univ
      {id : Str | id.length ≤ 36}).Finite :=
    Set.finite_univ.image2 _ (List.finite_length_le Char 36)
  refine ⟨hkeys.toFinset, fun e => ?_⟩
  rw [Set.Finite.mem_toFinset]
  exact Set.mem_image2_of_mem (Set.mem_univ _) e.id_length

variable {world : Nat → List LoggedEvent}

omit [LinearOrder Collated] in
theorem AppendOnly.growing (h : AppendOnly world) (q : EventsQuery) :
    Growing LoggedEvent.key fun k => (world k).filter q.matches where
  mono k := List.filter_subset _ (h.mono k)
  stock := by
    obtain ⟨keys, hkeys⟩ := exists_keys
    exact ⟨keys, fun _ e _ => hkeys e⟩
  nodup k := by
    have hids : ((world k).filter q.matches).Pairwise fun a b => a.id ≠ b.id :=
      List.pairwise_map.mp ((List.filter_sublist.map _).nodup (h.nodup k))
    refine List.pairwise_map.mpr (hids.imp fun hne heq => hne ?_)
    exact congrArg (fun c : Key => (ofLex c.ofDual).2.text) heq

/-- A client that has got as far, with the cursor in the form it travels in. -/
def sent (s : Reading LoggedEvent Key) : Reading LoggedEvent Str :=
  ⟨s.round, s.cursor.map cursorOf, s.items⟩

theorem follow_listEvents {s : Reading LoggedEvent Key} (h : ∀ c, s.cursor = some c → c.Bare) :
    follow (fun k => listEvents (world k) q) (sent s) =
      match turn LoggedEvent.key q.limit (fun k => (world k).filter q.matches) s with
      | .again s' => .again (sent s')
      | .done es => .done (some es) := by
  rw [follow, sent]
  dsimp only
  rw [listEvents_eq h, turn]
  dsimp only
  cases (page LoggedEvent.key q.limit ((world s.round).filter q.matches) s.cursor).2 <;> rfl

theorem bare_again (hworld : AppendOnly world) (hids : ∀ k, ∀ e ∈ world k, Cursor.Bare e.id)
    {s s' : Reading LoggedEvent Key}
    (hturn : turn LoggedEvent.key q.limit (fun k => (world k).filter q.matches) s = .again s') :
    ∀ c, s'.cursor = some c → c.Bare := by
  obtain ⟨c, hc, rfl⟩ := turn_eq_again hturn
  obtain ⟨⟨e, he, rfl⟩, -⟩ := cursor_lt ((hworld.growing q).nodup s.round) hc
  intro c' hc'
  cases hc'
  exact hids s.round e (List.mem_of_mem_filter he)

/-- Following `next_cursor` comes to an end, with the events that matched at the start, each of
them once and newest first. -/
theorem listEvents_follow (q : EventsQuery) (hworld : AppendOnly world)
    (hids : ∀ k, ∀ e ∈ world k, Cursor.Bare e.id) :
    ∃ es, Loop.Returns (follow fun k => listEvents (world k) q) Paging.start (some es) ∧
      es.Pairwise (fun a b => rowValue b.createdAt b.id < rowValue a.createdAt a.id) ∧
      es.Nodup ∧ (∀ e ∈ world 0, q.matches e = true → e ∈ es) ∧
      ∀ e ∈ es, q.matches e = true ∧ ∃ k, e ∈ world k := by
  obtain ⟨es, hreturns, hsorted, hall, hsound⟩ := reads_all (hworld.growing q) q.one_le_limit
  refine ⟨es, ?_, hsorted, hsorted.imp ?_, ?_, ?_⟩
  · refine hreturns.simulate
      (fun s s' => (∀ c, s.cursor = some c → c.Bare) ∧ s' = sent s) ?_ ?_ ⟨?_, rfl⟩
    · rintro s t s' ⟨hbare, rfl⟩ hturn
      exact ⟨sent t, by rw [follow_listEvents hbare, hturn], bare_again hworld hids hturn, rfl⟩
    · rintro s es s' ⟨hbare, rfl⟩ hturn
      rw [follow_listEvents hbare, hturn]
    · intro c hc
      cases hc
  · rintro a b hlt rfl
    exact lt_irrefl _ hlt
  · intro e he hmatch
    exact hall e (List.mem_filter.mpr ⟨he, hmatch⟩)
  · intro e he
    obtain ⟨k, hk⟩ := hsound e he
    exact ⟨(List.mem_filter.mp hk).2, k, (List.mem_filter.mp hk).1⟩

end Paged

/-! A marsh with a log, in a database that compares ids by their code points. -/

theorem text_injective : Function.Injective Collated.text := fun a b h => by
  cases a
  cases b
  exact congrArg Collated.mk h

@[reducible] def codePoints : LinearOrder Collated := .lift' Collated.text text_injective

theorem noon_valid : (DatetimeFields.mk 2024 5 1 12 0 0 0).Valid := by decide

def noon : Datetime := ⟨_, noon_valid⟩

def sighting (id : String) : LoggedEvent :=
  ⟨⟨id.toList.take 36, "entity.updated".toList, "user".toList, none, none, none, .obj [], none⟩,
    noon, List.length_take_le 36 _⟩

def anyEvents : EventsQuery :=
  ⟨none, none, none, none, none, none, 1, Nat.le_refl 1, Nat.le_add_left 1 199⟩

def heron : LoggedEvent := sighting "heron"

def egret : LoggedEvent := sighting "egret"

/-- The egret comes in after the first request. -/
def sightings : Nat → List LoggedEvent
  | 0 => [heron]
  | _ + 1 => [heron, egret]

theorem appendOnly_sightings : AppendOnly sightings where
  mono
    | 0 => by simp [sightings]
    | _ + 1 => List.Subset.refl _
  nodup
    | 0 => by decide
    | k + 1 => by
      rw [sightings]
      decide

theorem listEvents_follow_sightings :
    ∃ es, Loop.Returns (follow fun k => @listEvents codePoints (sightings k) anyEvents)
        Paging.start (some es) ∧ heron ∈ es := by
  have hids : ∀ k, ∀ e ∈ sightings k, Cursor.Bare e.id := by
    intro k e he
    cases k with
    | zero =>
      obtain rfl := List.mem_singleton.mp he
      decide
    | succ k =>
      obtain rfl | rfl : e = heron ∨ e = egret := by simpa [sightings] using he
      · decide
      · decide
  obtain ⟨es, hreturns, -, -, hall, -⟩ :=
    @listEvents_follow codePoints sightings anyEvents appendOnly_sightings hids
  exact ⟨es, hreturns, hall heron (by simp [sightings]) (by decide)⟩

/-- An id in two parts, and one to come after it. -/
def owls : List LoggedEvent := [sighting "owl", sighting "owl::barn"]

/-- The cursor behind the id in two parts cannot be read. -/
theorem not_listEvents_follow : ¬ ∀ (collation : LinearOrder Collated) (q : EventsQuery)
    (world : Nat → List LoggedEvent), AppendOnly world →
    ∃ es, Loop.Returns (follow fun k => @listEvents collation (world k) q) Paging.start (some es) ∧
      ∀ e ∈ world 0, q.matches e = true → e ∈ es := by
  intro h
  obtain ⟨es, hreturns, -⟩ := h codePoints anyEvents (fun _ => owls)
    ⟨fun _ => List.Subset.refl _, fun _ => by decide⟩
  have hfails : Loop.Returns (follow fun _ => @listEvents codePoints owls anyEvents)
      Paging.start none := by
    have hfirst : @listEvents codePoints owls anyEvents none =
        some ([sighting "owl::barn"], some (Cursor.encodeCursor noon "owl::barn".toList)) := rfl
    have hsplit : rsplit Cursor.separator (noon.isoformat ++ Cursor.separator ++
        "owl::barn".toList) = some (noon.isoformat ++ "::owl".toList, "barn".toList) := by
      decide +kernel
    have hread : Cursor.decodeCursor (Cursor.encodeCursor noon "owl::barn".toList) = none := by
      rw [Cursor.decodeCursor_encodeCursor_eq, hsplit]
      rfl
    have hsecond := @listEvents_none codePoints owls anyEvents _ hread
    exact Loop.returns_again (follow_again hfirst) (Loop.returns_done (follow_fails hsecond))
  cases hfails.unique hreturns

end Eyot.Events
