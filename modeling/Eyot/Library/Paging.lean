import Eyot.Library.Loop
import Eyot.Library.StableSort
import Mathlib.Data.Finset.Card
import Mathlib.Data.List.Sort

/-! Reading a table page by page, in the order of a key: each page starts behind the key of the
last row of the page before, whatever rows have come in since. -/

universe u v

namespace Eyot.Paging

variable {α : Type u} {κ : Type v} [LinearOrder κ] (key : α → κ) (limit : Nat)

def rowsAfter (rows : List α) (after : Option κ) : List α :=
  rows.filter fun r => after.all fun c => c < key r

/-- One row more than the page holds is looked for, to tell whether another page follows. -/
def page (rows : List α) (after : Option κ) : List α × Option κ :=
  let all := sortBy key (rowsAfter key rows after)
  let items := all.take limit
  (items, if limit < all.length then items.getLast?.map key else none)

variable {key limit} {rows : List α} {after : Option κ} {c : κ}

theorem rowsAfter_some :
    rowsAfter key rows (some c) = rows.filter fun r => decide (c < key r) := rfl

theorem mem_rowsAfter {r : α} :
    r ∈ rowsAfter key rows after ↔ r ∈ rows ∧ ∀ c, after = some c → c < key r := by
  cases after <;> simp [rowsAfter]

variable (after) in
theorem pairwise_lt_of_nodup (hnodup : (rows.map key).Nodup) :
    (sortBy key (rowsAfter key rows after)).Pairwise fun a b => key a < key b := by
  have hkeys : ((rowsAfter key rows after).map key).Nodup :=
    (List.filter_sublist.map key).nodup hnodup
  have hne : (sortBy key (rowsAfter key rows after)).Pairwise fun a b => key a ≠ key b :=
    List.pairwise_map.mp (((sortBy_perm key _).map key).nodup_iff.mpr hkeys)
  exact ((pairwise_sortBy key _).and hne).imp fun h => lt_of_le_of_ne h.1 h.2

variable (limit after) in
/-- What a page holds: rows behind the cursor, in order. -/
theorem page_items (hnodup : (rows.map key).Nodup) :
    (page key limit rows after).1.Pairwise (fun a b => key a < key b) ∧
      ∀ r ∈ (page key limit rows after).1, r ∈ rows ∧ ∀ c, after = some c → c < key r := by
  refine ⟨(pairwise_lt_of_nodup after hnodup).sublist (List.take_sublist _ _), ?_⟩
  intro r hr
  exact mem_rowsAfter.mp (mem_sortBy.mp (List.mem_of_mem_take hr))

/-- The last page holds all rows behind the cursor. -/
theorem mem_page_of_none (hlast : (page key limit rows after).2 = none) (hlimit : 0 < limit)
    {r : α} (hr : r ∈ rows) (hafter : ∀ c, after = some c → c < key r) :
    r ∈ (page key limit rows after).1 := by
  have hmem : r ∈ sortBy key (rowsAfter key rows after) :=
    mem_sortBy.mpr (mem_rowsAfter.mpr ⟨hr, hafter⟩)
  rw [page] at hlast ⊢
  dsimp only at hlast ⊢
  rw [List.take_of_length_le]
  · exact hmem
  · by_contra hlong
    rw [if_pos (by omega), Option.map_eq_none_iff, List.getLast?_eq_none_iff,
      List.take_eq_nil_iff] at hlast
    obtain hzero | hnil := hlast
    · omega
    · rw [hnil] at hmem
      cases hmem

/-- Any other page ends in a row with the next cursor, and leaves none out up to there. -/
theorem page_next (hnodup : (rows.map key).Nodup)
    (hnext : (page key limit rows after).2 = some c) :
    (∃ r ∈ (page key limit rows after).1, key r = c) ∧
      (∀ r ∈ (page key limit rows after).1, key r ≤ c) ∧
      ∀ r ∈ rows, (∀ c', after = some c' → c' < key r) → key r ≤ c →
        r ∈ (page key limit rows after).1 := by
  rw [page] at hnext ⊢
  dsimp only at hnext ⊢
  have hsorted := pairwise_lt_of_nodup after hnodup
  split at hnext
  · obtain ⟨last, hlast, rfl⟩ := Option.map_eq_some_iff.mp hnext
    obtain ⟨before, hitems⟩ := List.getLast?_eq_some_iff.mp hlast
    have hall : sortBy key (rowsAfter key rows after) =
        before ++ last :: (sortBy key (rowsAfter key rows after)).drop limit := by
      rw [← List.singleton_append, ← List.append_assoc, ← hitems, List.take_append_drop]
    rw [hall, List.pairwise_append, List.pairwise_cons] at hsorted
    rw [hitems]
    refine ⟨⟨last, by simp, rfl⟩, ?_, ?_⟩
    · intro r hr
      obtain hr | hr := List.mem_append.mp hr
      · exact (hsorted.2.2 r hr last List.mem_cons_self).le
      · rw [List.mem_singleton.mp hr]
    · intro r hr hafter hle
      have hmem : r ∈ sortBy key (rowsAfter key rows after) :=
        mem_sortBy.mpr (mem_rowsAfter.mpr ⟨hr, hafter⟩)
      rw [hall, List.mem_append, List.mem_cons] at hmem
      obtain hmem | rfl | hmem := hmem
      · exact List.mem_append_left _ hmem
      · simp
      · exact absurd (hsorted.2.1.1 r hmem) (not_lt.mpr hle)
  · cases hnext

/-! Page after page. -/

/-- The number of the request, the cursor that it sends, and what has been read before it. -/
structure Reading (α : Type u) (γ : Type v) where
  round : Nat
  cursor : Option γ
  items : List α

def start {γ : Type v} : Reading α γ := ⟨0, none, []⟩

/-- Request after request, with the cursor that came with the page before, until there is none. A
request may fail. -/
def follow {γ : Type v} (request : Nat → Option γ → Option (List α × Option γ)) (s : Reading α γ) :
    Loop.Turn (Reading α γ) (Option (List α)) :=
  match request s.round s.cursor with
  | none => .done none
  | some (items, none) => .done (some (s.items ++ items))
  | some (items, some c) => .again ⟨s.round + 1, some c, s.items ++ items⟩

section Follow

variable {γ : Type v} {request : Nat → Option γ → Option (List α × Option γ)} {s : Reading α γ}
  {items : List α}

theorem follow_again {c : γ} (h : request s.round s.cursor = some (items, some c)) :
    follow request s = .again ⟨s.round + 1, some c, s.items ++ items⟩ := by
  rw [follow, h]

theorem follow_last (h : request s.round s.cursor = some (items, none)) :
    follow request s = .done (some (s.items ++ items)) := by
  rw [follow, h]

theorem follow_fails (h : request s.round s.cursor = none) : follow request s = .done none := by
  rw [follow, h]

end Follow

variable (key limit) in
/-- `world k` is what the table holds at the `k`-th request. -/
def turn (world : Nat → List α) (s : Reading α κ) : Loop.Turn (Reading α κ) (List α) :=
  let (items, next) := page key limit (world s.round) s.cursor
  match next with
  | none => .done (s.items ++ items)
  | some c => .again ⟨s.round + 1, some c, s.items ++ items⟩

/-- Rows come in, one or many at a time, under keys of a finite stock; none is changed or goes
away. -/
structure Growing (key : α → κ) (world : Nat → List α) : Prop where
  mono : ∀ k, world k ⊆ world (k + 1)
  stock : ∃ keys : Finset κ, ∀ k, ∀ r ∈ world k, key r ∈ keys
  nodup : ∀ k, ((world k).map key).Nodup

omit [LinearOrder κ] in
theorem Growing.mem_of_mem_zero {world : Nat → List α} (h : Growing key world) {r : α}
    (hr : r ∈ world 0) (k : Nat) : r ∈ world k := by
  induction k with
  | zero => exact hr
  | succ k ih => exact h.mono k ih

theorem turn_eq_again {world : Nat → List α} {s s' : Reading α κ}
    (h : turn key limit world s = .again s') :
    ∃ c, (page key limit (world s.round) s.cursor).2 = some c ∧
      s' = ⟨s.round + 1, some c, s.items ++ (page key limit (world s.round) s.cursor).1⟩ := by
  rw [turn] at h
  dsimp only at h
  split at h
  · cases h
  · rename_i c hc
    exact ⟨c, hc, (Loop.Turn.again.inj h).symm⟩

theorem turn_eq_done {world : Nat → List α} {s : Reading α κ} {rs : List α}
    (h : turn key limit world s = .done rs) :
    (page key limit (world s.round) s.cursor).2 = none ∧
      rs = s.items ++ (page key limit (world s.round) s.cursor).1 := by
  rw [turn] at h
  dsimp only at h
  split at h
  · rename_i hnone
    exact ⟨hnone, (Loop.Turn.done.inj h).symm⟩
  · cases h

variable (key limit) in
theorem exists_turn (world : Nat → List α) (s : Reading α κ) :
    (∃ s', turn key limit world s = .again s') ∨ ∃ rs, turn key limit world s = .done rs := by
  cases turn key limit world s with
  | again s' => exact .inl ⟨s', rfl⟩
  | done rs => exact .inr ⟨rs, rfl⟩

/-- Each cursor lies behind the one before. -/
theorem cursor_lt (hnodup : (rows.map key).Nodup)
    (hnext : (page key limit rows after).2 = some c) :
    (∃ r ∈ rows, key r = c) ∧ ∀ c', after = some c' → c' < c := by
  obtain ⟨⟨last, hlast, rfl⟩, -, -⟩ := page_next hnodup hnext
  obtain ⟨hrow, hafter⟩ := (page_items limit after hnodup).2 last hlast
  exact ⟨⟨last, hrow, rfl⟩, hafter⟩

variable (limit) in
theorem exists_returns {world : Nat → List α} (h : Growing key world) (s : Reading α κ) :
    ∃ rs, Loop.Returns (turn key limit world) s rs := by
  obtain ⟨keys, hkeys⟩ := h.stock
  -- on the number of keys behind the cursor
  generalize hn : (keys.filter fun k => s.cursor.all fun c => c < k).card = n
  induction n using Nat.strong_induction_on generalizing s with
  | _ n ih =>
    obtain ⟨s', hs'⟩ | ⟨rs, hrs⟩ := exists_turn key limit world s
    · obtain ⟨c, hc, rfl⟩ := turn_eq_again hs'
      obtain ⟨⟨r, hr, rfl⟩, hlt⟩ := cursor_lt (h.nodup s.round) hc
      have hfewer : keys.filter (fun k => (some (key r)).all fun c => c < k) ⊂
          keys.filter fun k => s.cursor.all fun c => c < k := by
        rw [Finset.ssubset_iff_of_subset]
        · refine ⟨key r, Finset.mem_filter.mpr ⟨hkeys s.round r hr, ?_⟩, by simp⟩
          rw [Option.all_eq_true]
          exact fun c hc => decide_eq_true (hlt c hc)
        · intro k hk
          rw [Finset.mem_filter] at hk ⊢
          refine ⟨hk.1, ?_⟩
          rw [Option.all_eq_true]
          exact fun c hc => decide_eq_true ((hlt c hc).trans (of_decide_eq_true hk.2))
      obtain ⟨rs, hrs⟩ := ih _ (hn ▸ Finset.card_lt_card hfewer) ⟨s.round + 1, some (key r), _⟩ rfl
      exact ⟨rs, Loop.returns_again hs' hrs⟩
    · exact ⟨rs, Loop.returns_done hrs⟩

/-- What has been read is in order and ends at the cursor, and of the rows there were at the start
it lacks none up to there. -/
structure Sofar (key : α → κ) (world : Nat → List α) (s : Reading α κ) : Prop where
  sorted : s.items.Pairwise fun a b => key a < key b
  upto : ∀ r ∈ s.items, ∃ c, s.cursor = some c ∧ key r ≤ c
  complete : ∀ r ∈ world 0, ∀ c, s.cursor = some c → key r ≤ c → r ∈ s.items
  sound : ∀ r ∈ s.items, ∃ k, r ∈ world k

theorem Sofar.sorted_append {world : Nat → List α} (h : Growing key world) {s : Reading α κ}
    (hs : Sofar key world s) :
    (s.items ++ (page key limit (world s.round) s.cursor).1).Pairwise fun a b => key a < key b := by
  obtain ⟨hsorted, hbehind⟩ := page_items limit s.cursor (h.nodup s.round)
  refine List.pairwise_append.mpr ⟨hs.sorted, hsorted, ?_⟩
  intro a ha b hb
  obtain ⟨c, hc, hle⟩ := hs.upto a ha
  exact lt_of_le_of_lt hle ((hbehind b hb).2 c hc)

theorem Sofar.sound_append {world : Nat → List α} (h : Growing key world) {s : Reading α κ}
    (hs : Sofar key world s) :
    ∀ r ∈ s.items ++ (page key limit (world s.round) s.cursor).1, ∃ k, r ∈ world k := by
  intro r hr
  obtain hr | hr := List.mem_append.mp hr
  · exact hs.sound r hr
  · exact ⟨s.round, ((page_items limit s.cursor (h.nodup s.round)).2 r hr).1⟩

theorem Sofar.again {world : Nat → List α} (h : Growing key world) {s s' : Reading α κ}
    (hs : Sofar key world s) (hturn : turn key limit world s = .again s') : Sofar key world s' := by
  obtain ⟨c, hc, rfl⟩ := turn_eq_again hturn
  obtain ⟨⟨last, hlast, hkey⟩, hle, hall⟩ := page_next (h.nodup s.round) hc
  have hbehind := (page_items limit s.cursor (h.nodup s.round)).2
  refine ⟨hs.sorted_append h, ?_, ?_, hs.sound_append h⟩
  · intro r hr
    obtain hr | hr := List.mem_append.mp hr
    · obtain ⟨c', hc', hle'⟩ := hs.upto r hr
      exact ⟨c, rfl, hle'.trans (hkey ▸ ((hbehind last hlast).2 c' hc').le)⟩
    · exact ⟨c, rfl, hle r hr⟩
  · intro r hr c' hc' hle'
    cases hc'
    by_cases hread : ∃ c', s.cursor = some c' ∧ key r ≤ c'
    · obtain ⟨c', hc', hle'⟩ := hread
      exact List.mem_append_left _ (hs.complete r hr c' hc' hle')
    · refine List.mem_append_right _ (hall r (h.mem_of_mem_zero hr s.round) ?_ hle')
      intro c' hc'
      exact lt_of_not_ge fun hge => hread ⟨c', hc', hge⟩

/-- Page after page comes to an end, and every row that was there at the start has been read
once, in the order of the keys. -/
theorem reads_all {world : Nat → List α} (h : Growing key world) (hlimit : 0 < limit) :
    ∃ rs, Loop.Returns (turn key limit world) start rs ∧
      rs.Pairwise (fun a b => key a < key b) ∧ (∀ r ∈ world 0, r ∈ rs) ∧
      ∀ r ∈ rs, ∃ k, r ∈ world k := by
  obtain ⟨rs, hrs⟩ := exists_returns limit h start
  have hstart : Sofar key world start :=
    ⟨.nil, fun _ hr => absurd hr List.not_mem_nil, fun _ _ _ hc => absurd hc (by simp [start]),
      fun _ hr => absurd hr List.not_mem_nil⟩
  refine ⟨rs, hrs, ?_⟩
  refine Loop.Returns.of_inv (Sofar key world)
    (fun rs => rs.Pairwise (fun a b => key a < key b) ∧ (∀ r ∈ world 0, r ∈ rs) ∧
      ∀ r ∈ rs, ∃ k, r ∈ world k)
    (fun s s' hs hturn => hs.again h hturn) ?_ hstart hrs
  intro s rs hs hturn
  obtain ⟨hnone, rfl⟩ := turn_eq_done hturn
  refine ⟨hs.sorted_append h, ?_, hs.sound_append h⟩
  intro r hr
  by_cases hread : ∃ c, s.cursor = some c ∧ key r ≤ c
  · obtain ⟨c, hc, hle⟩ := hread
    exact List.mem_append_left _ (hs.complete r hr c hc hle)
  · refine List.mem_append_right _
      (mem_page_of_none hnone hlimit (h.mem_of_mem_zero hr s.round) ?_)
    intro c hc
    exact lt_of_not_ge fun hge => hread ⟨c, hc, hge⟩

end Eyot.Paging

/-! The first `n` of a list by a key: `ORDER BY key LIMIT n`. -/

universe w

namespace Eyot.Window

variable {α : Type u} {κ : Type v} [LinearOrder κ]

def first (key : α → κ) (n : Nat) (l : List α) : List α :=
  (l.insertionSort fun a b => key a ≤ key b).take n

/-- How many of a list come before an item. -/
def rank (key : α → κ) (l : List α) (a : α) : Nat := l.countP fun b => key b < key a

variable {key : α → κ} {n : Nat} {l : List α}

theorem mem_of_mem_first {a : α} (h : a ∈ first key n l) : a ∈ l := by
  have ha := List.mem_of_mem_take h
  rwa [List.mem_insertionSort] at ha

theorem nodup_map_first {β : Type w} {f : α → β} (h : (l.map f).Nodup) :
    ((first key n l).map f).Nodup := by
  have hsub := (List.take_sublist n (l.insertionSort fun a b => key a ≤ key b)).map f
  refine List.Nodup.sublist hsub ?_
  exact ((List.perm_insertionSort _ _).map f).nodup_iff.mpr h

theorem pairwise_insertionSort (key : α → κ) (l : List α) :
    (l.insertionSort fun a b => key a ≤ key b).Pairwise fun a b => key a ≤ key b := by
  have : Std.Total fun a b : α => key a ≤ key b := ⟨fun a b => le_total (key a) (key b)⟩
  have : IsTrans α fun a b => key a ≤ key b := ⟨fun _ _ _ => le_trans⟩
  exact List.pairwise_insertionSort _ _

theorem pairwise_first (key : α → κ) (n : Nat) (l : List α) :
    (first key n l).Pairwise fun a b => key a ≤ key b :=
  (pairwise_insertionSort key l).sublist (List.take_sublist _ _)

theorem mem_take_iff {s : List α} (hs : s.Pairwise fun a b => key a < key b) {a : α}
    (ha : a ∈ s) (n : Nat) : a ∈ s.take n ↔ rank key s a < n := by
  induction s generalizing n with
  | nil => cases ha
  | cons b s ih =>
    rw [List.pairwise_cons] at hs
    cases n with
    | zero => simp
    | succ n =>
      rw [List.take_succ_cons, List.mem_cons, rank, List.countP_cons]
      rcases List.mem_cons.mp ha with rfl | ha
      · have hzero : s.countP (fun c => key c < key a) = 0 := by
          rw [List.countP_eq_zero]
          intro c hc
          simpa using (hs.1 c hc).le
        simp [hzero]
      · have hba : key b < key a := hs.1 a ha
        have hne : a ≠ b := by
          rintro rfl
          exact lt_irrefl _ hba
        rw [if_pos (by simpa using hba), Nat.succ_lt_succ_iff, ← rank, ← ih hs.2 ha n]
        exact or_iff_right hne

/-- An item is among the first `n` when fewer than `n` come before it. -/
theorem mem_first_iff (h : (l.map key).Nodup) {a : α} (ha : a ∈ l) :
    a ∈ first key n l ↔ rank key l a < n := by
  have hperm := List.perm_insertionSort (fun a b => key a ≤ key b) l
  have hnodup : ((l.insertionSort fun a b => key a ≤ key b).map key).Nodup :=
    (hperm.map key).nodup_iff.mpr h
  have hstrict : (l.insertionSort fun a b => key a ≤ key b).Pairwise fun a b => key a < key b := by
    rw [List.Nodup, List.pairwise_map] at hnodup
    exact ((pairwise_insertionSort key l).and hnodup).imp fun hab => lt_of_le_of_ne hab.1 hab.2
  rw [first, mem_take_iff hstrict ((List.mem_insertionSort _).mpr ha), rank, rank,
    hperm.countP_eq]

/-- Items that are added only push others back. -/
theorem rank_le_of_sublist {l' : List α} (h : l.Sublist l') (a : α) : rank key l a ≤ rank key l' a :=
  h.countP_le

end Eyot.Window
