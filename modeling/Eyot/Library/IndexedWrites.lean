import Eyot.Library.Table
import Mathlib.Data.List.Pairwise

/-! Transactions that write one row each into a table with a partial unique index. What a
transaction has written is staged until it commits: nobody reads it before, and whoever would
write the same row, or another one with the same key of the index, has to wait. -/

universe u v w

namespace Eyot

section Put

variable {ι : Type u} {α : Type v} [DecidableEq ι] {key : α → ι}

namespace Table

/-- The row takes the place of the one with its key, or comes last. -/
def put (t : Table key) (r : α) : Table key :=
  match h : t.insert? r with
  | some t' => t'
  | none => t.updateWhere (fun e => key e = key r) (fun e => if key e = key r then r else e)
      fun e => by split <;> simp_all

theorem mem_put {t : Table key} {r e : α} :
    e ∈ (t.put r).rows ↔ e = r ∨ e ∈ t.rows ∧ key e ≠ key r := by
  rw [put]
  split
  · rename_i t' h
    have hnew := key_not_mem_of_insert? h
    rw [insert?_rows h, List.mem_append, List.mem_singleton, or_comm]
    refine or_congr_right ⟨fun he => ⟨he, fun hkey => hnew ?_⟩, And.left⟩
    exact hkey ▸ List.mem_map_of_mem he
  · rename_i h
    obtain ⟨r', hr', hkey'⟩ := List.mem_map.mp (insert?_eq_none.mp h)
    rw [mem_updateWhere]
    constructor
    · rintro ⟨e', he', rfl⟩
      by_cases hkey : key e' = key r
      · exact .inl (by simp [hkey])
      · exact .inr (by simpa [hkey] using he')
    · rintro (rfl | ⟨he, hkey⟩)
      · exact ⟨r', hr', by simp [hkey']⟩
      · exact ⟨e, he, by simp [hkey]⟩

omit [DecidableEq ι] in
/-- Beside a primary key, an index says that rows with one key of it are one row. -/
theorem uniqueOn_iff {κ : Type w} (t : Table key) {live : α → Bool} {index : α → κ} :
    UniqueOn live index t.rows ↔ ∀ r ∈ t.rows, ∀ r' ∈ t.rows, live r = true → live r' = true →
      index r = index r' → key r = key r' := by
  constructor
  · intro h r hr r' hr' hlive hlive' hindex
    exact congrArg key (h.eq hr hr' hlive hlive' hindex)
  · intro h
    have hnodup := (t.keys_nodup.of_map key).filter live
    refine hnodup.map_on ?_
    intro r hr r' hr' hindex
    obtain ⟨hr, hlive⟩ := List.mem_filter.mp hr
    obtain ⟨hr', hlive'⟩ := List.mem_filter.mp hr'
    exact t.eq_of_key_eq hr hr' (h r hr r' hr' hlive hlive' hindex)

end Table

end Put

variable {ι : Type u} {α : Type v} {κ : Type w} {key : α → ι} {live : α → Bool} {index : α → κ}

/-- The index has room for one of the two rows only. -/
def Collide (live : α → Bool) (index : α → κ) (r r' : α) : Prop :=
  live r = true ∧ live r' = true ∧ index r = index r'

instance [DecidableEq κ] (r r' : α) : Decidable (Collide live index r r') :=
  inferInstanceAs (Decidable (_ ∧ _ ∧ _))

theorem Collide.symm {r r' : α} (h : Collide live index r r') : Collide live index r' r :=
  ⟨h.2.1, h.1, h.2.2.symm⟩

/-- The committed rows, and by the number of its transaction each row that is staged. -/
structure Ledger (key : α → ι) (live : α → Bool) (index : α → κ) where
  committed : Table key
  staged : List (Nat × α)
  unique : UniqueOn live index committed.rows
  apart : staged.Pairwise fun w w' => key w.2 ≠ key w'.2 ∧ ¬ Collide live index w.2 w'.2
  clear : ∀ w ∈ staged, ∀ e ∈ committed.rows, key e ≠ key w.2 → ¬ Collide live index e w.2

namespace Ledger

section Staging

variable (L : Ledger key live index)

def find? (n : Nat) : Option α := (L.staged.find? fun w => w.1 = n).map Prod.snd

/-- Another transaction has written that row, or one that collides with it, or over one that
does. -/
def Waits (r : α) : Prop :=
  ∃ w ∈ L.staged, key w.2 = key r ∨ Collide live index w.2 r ∨
    ∃ e ∈ L.committed.rows, key e = key w.2 ∧ Collide live index e r

def Refuses (r : α) : Prop := ∃ e ∈ L.committed.rows, key e ≠ key r ∧ Collide live index e r

instance [DecidableEq ι] [DecidableEq κ] (r : α) : Decidable (L.Waits r) := inferInstanceAs (Decidable (∃ w ∈ _, _))

instance [DecidableEq ι] [DecidableEq κ] (r : α) : Decidable (L.Refuses r) := inferInstanceAs (Decidable (∃ e ∈ _, _))

variable {L}

theorem apart_cons {r : α} (h : ¬ L.Waits r) (n : Nat) :
    ((n, r) :: L.staged).Pairwise fun w w' => key w.2 ≠ key w'.2 ∧ ¬ Collide live index w.2 w'.2 := by
  refine List.pairwise_cons.mpr ⟨?_, L.apart⟩
  intro w hw
  constructor
  · exact fun hkey => h ⟨w, hw, .inl hkey.symm⟩
  · exact fun hcollide => h ⟨w, hw, .inr (.inl hcollide.symm)⟩

theorem clear_cons {r : α} (h : ¬ L.Refuses r) (n : Nat) :
    ∀ w ∈ (n, r) :: L.staged, ∀ e ∈ L.committed.rows, key e ≠ key w.2 →
      ¬ Collide live index e w.2 := by
  intro w hw e he hkey hcollide
  obtain rfl | hw := List.mem_cons.mp hw
  · exact h ⟨e, he, hkey, hcollide⟩
  · exact L.clear w hw e he hkey hcollide

/-- The row is written, where nothing is in its way. -/
def stage (L : Ledger key live index) (n : Nat) (r : α) (hwaits : ¬ L.Waits r)
    (hrefuses : ¬ L.Refuses r) : Ledger key live index :=
  { L with
    staged := (n, r) :: L.staged
    apart := apart_cons hwaits n
    clear := clear_cons hrefuses n }

/-- What a transaction has written is gone. -/
def rollback (L : Ledger key live index) (n : Nat) : Ledger key live index :=
  { L with
    staged := L.staged.filter fun w => w.1 ≠ n
    apart := L.apart.filter _
    clear := fun w hw => L.clear w (List.mem_of_mem_filter hw) }

theorem mem_of_find? {n : Nat} {r : α} (h : L.find? n = some r) : (n, r) ∈ L.staged := by
  obtain ⟨w, hw, rfl⟩ := Option.map_eq_some_iff.mp h
  have hn : w.1 = n := by simpa using List.find?_some hw
  exact hn ▸ List.mem_of_find?_eq_some hw

theorem not_collide_of_find? {n : Nat} {r e : α} (h : L.find? n = some r)
    (he : e ∈ L.committed.rows) (hkey : key e ≠ key r) : ¬ Collide live index e r :=
  L.clear _ (mem_of_find? h) e he hkey

end Staging

variable [DecidableEq ι] {L : Ledger key live index}

theorem unique_put {n : Nat} {r : α} (h : L.find? n = some r) :
    UniqueOn live index (L.committed.put r).rows := by
  rw [Table.uniqueOn_iff]
  intro a ha b hb hlive hlive' hindex
  obtain rfl | ⟨hrow, hkey⟩ := Table.mem_put.mp ha
  · obtain rfl | ⟨hrow, hkey⟩ := Table.mem_put.mp hb
    · rfl
    · exact absurd ⟨hlive', hlive, hindex.symm⟩ (not_collide_of_find? h hrow hkey)
  · obtain rfl | ⟨hrow', _⟩ := Table.mem_put.mp hb
    · exact absurd ⟨hlive, hlive', hindex⟩ (not_collide_of_find? h hrow hkey)
    · exact L.committed.uniqueOn_iff.mp L.unique a hrow b hrow' hlive hlive' hindex

theorem clear_put {n : Nat} {r : α} (h : L.find? n = some r) :
    ∀ w ∈ L.staged.filter fun w => w.1 ≠ n, ∀ e ∈ (L.committed.put r).rows, key e ≠ key w.2 →
      ¬ Collide live index e w.2 := by
  intro w hw e he hkey
  obtain ⟨hw, hne⟩ := List.mem_filter.mp hw
  obtain rfl | ⟨he, -⟩ := Table.mem_put.mp he
  · have hother : (n, e) ≠ w := by
      rintro rfl
      simp at hne
    have hsymm : Std.Symm fun w w' : Nat × α =>
        key w.2 ≠ key w'.2 ∧ ¬ Collide live index w.2 w'.2 :=
      ⟨fun _ _ h => ⟨h.1.symm, fun hcollide => h.2 hcollide.symm⟩⟩
    exact (L.apart.forall (mem_of_find? h) hw hother).2
  · exact L.clear w hw e he hkey

/-- What a transaction has written is there for all. -/
def commit (L : Ledger key live index) (n : Nat) : Ledger key live index :=
  match h : L.find? n with
  | none => L
  | some r =>
    { committed := L.committed.put r
      staged := L.staged.filter fun w => w.1 ≠ n
      unique := unique_put h
      apart := L.apart.filter _
      clear := clear_put h }

theorem commit_of_none {n : Nat} (h : L.find? n = none) : L.commit n = L := by
  rw [commit]
  split
  · rfl
  · rename_i r hr
    rw [h] at hr
    cases hr

theorem commit_committed {n : Nat} {r : α} (h : L.find? n = some r) :
    (L.commit n).committed = L.committed.put r := by
  rw [commit]
  split
  · rename_i hnone
    rw [h] at hnone
    cases hnone
  · rename_i r' hr'
    rw [h] at hr'
    cases hr'
    rfl

end Ledger

end Eyot
