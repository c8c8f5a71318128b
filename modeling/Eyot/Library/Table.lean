import Mathlib.Data.List.Forall2
import Mathlib.Data.List.Nodup

/-! A table is a list of rows in scan order; its primary key never repeats. -/

universe u v

namespace Eyot

structure Table {κ : Type u} {α : Type v} (key : α → κ) where
  rows : List α
  keys_nodup : (rows.map key).Nodup

namespace Table

variable {κ : Type u} {α : Type v} {key : α → κ}

def empty : Table key := ⟨[], List.nodup_nil⟩

def single (r : α) : Table key := ⟨[r], List.nodup_singleton _⟩

theorem eq_of_rows_eq {t t' : Table key} (h : t.rows = t'.rows) : t = t' := by
  obtain ⟨rows, _⟩ := t
  obtain rfl : rows = t'.rows := h
  rfl

theorem eq_of_key_eq (t : Table key) {r s : α} (hr : r ∈ t.rows) (hs : s ∈ t.rows)
    (h : key r = key s) : r = s :=
  List.inj_on_of_nodup_map t.keys_nodup hr hs h

/-- `UPDATE .. SET f WHERE p`; the primary key is not assigned. -/
def updateWhere (t : Table key) (p : α → Bool) (f : α → α) (hf : ∀ r, key (f r) = key r) :
    Table key where
  rows := t.rows.map fun r => if p r then f r else r
  keys_nodup := by
    have h : (t.rows.map fun r => if p r then f r else r).map key = t.rows.map key := by
      rw [List.map_map]
      apply List.map_congr_left
      intro r _
      simp only [Function.comp_apply]
      split
      · exact hf r
      · rfl
    rw [h]
    exact t.keys_nodup

@[simp] theorem updateWhere_rows (t : Table key) (p : α → Bool) (f : α → α)
    (hf : ∀ r, key (f r) = key r) :
    (t.updateWhere p f hf).rows = t.rows.map fun r => if p r then f r else r := rfl

theorem mem_updateWhere {t : Table key} {p : α → Bool} {f : α → α}
    {hf : ∀ r, key (f r) = key r} {s : α} :
    s ∈ (t.updateWhere p f hf).rows ↔ ∃ r ∈ t.rows, (if p r then f r else r) = s := by
  rw [updateWhere_rows, List.mem_map]

section Map

variable {β : Type v} {key' : β → κ} {f : α → β}

theorem map_keys (rows : List α) (hf : ∀ r, key' (f r) = key r) :
    (rows.map f).map key' = rows.map key := by
  rw [List.map_map]
  exact List.map_congr_left fun r _ => hf r

theorem map_keys_nodup (t : Table key) (hf : ∀ r, key' (f r) = key r) :
    ((t.rows.map f).map key').Nodup :=
  map_keys t.rows hf ▸ t.keys_nodup

/-- The same rows with fewer columns. -/
def map (t : Table key) (f : α → β) (hf : ∀ r, key' (f r) = key r) : Table key' :=
  ⟨t.rows.map f, t.map_keys_nodup hf⟩

end Map

/-- `DELETE .. WHERE p`. -/
def deleteWhere (t : Table key) (p : α → Bool) : Table key where
  rows := t.rows.filter fun r => !p r
  keys_nodup := t.keys_nodup.sublist (List.filter_sublist.map key)

theorem mem_deleteWhere {t : Table key} {p : α → Bool} {r : α} :
    r ∈ (t.deleteWhere p).rows ↔ r ∈ t.rows ∧ p r = false := by
  simp [deleteWhere]

variable [DecidableEq κ]

def find? (t : Table key) (k : κ) : Option α :=
  t.rows.find? fun r => key r = k

/-- `INSERT`; refused when the primary key is taken. -/
def insert? (t : Table key) (r : α) : Option (Table key) :=
  if h : key r ∈ t.rows.map key then none
  else some ⟨t.rows ++ [r], by
    rw [List.map_append, List.map_singleton]
    exact List.nodup_append.mpr ⟨t.keys_nodup, List.nodup_singleton _, by
      intro a ha b hb hab
      rw [List.mem_singleton] at hb
      subst hab hb
      exact h ha⟩⟩

/-- `UPDATE` of the one row with key `k`. -/
def update (t : Table key) (k : κ) (f : α → α) (hf : ∀ r, key (f r) = key r) : Table key :=
  t.updateWhere (fun r => key r = k) f hf

theorem find?_mem {t : Table key} {k : κ} {r : α} (h : t.find? k = some r) : r ∈ t.rows :=
  List.mem_of_find?_eq_some h

theorem find?_key {t : Table key} {k : κ} {r : α} (h : t.find? k = some r) : key r = k := by
  simpa using List.find?_some h

theorem find?_of_mem (t : Table key) {r : α} (h : r ∈ t.rows) : t.find? (key r) = some r := by
  cases hf : t.find? (key r) with
  | none =>
    have := List.find?_eq_none.mp hf r h
    simp at this
  | some s => rw [t.eq_of_key_eq (find?_mem hf) h (find?_key hf)]

theorem find?_eq_none {t : Table key} {k : κ} : t.find? k = none ↔ k ∉ t.rows.map key := by
  simp [find?]

theorem insert?_eq_none {t : Table key} {r : α} : t.insert? r = none ↔ key r ∈ t.rows.map key := by
  unfold insert?
  split <;> simp_all

theorem insert?_rows {t t' : Table key} {r : α} (h : t.insert? r = some t') :
    t'.rows = t.rows ++ [r] := by
  unfold insert? at h
  split at h
  · cases h
  · cases h
    rfl

/-- A row is only taken in under a key that no other has. -/
theorem key_not_mem_of_insert? {t t' : Table key} {r : α} (h : t.insert? r = some t') :
    key r ∉ t.rows.map key := by
  rw [← insert?_eq_none, h]
  exact Option.some_ne_none t'

theorem mem_update_self {t : Table key} {k : κ} (f : α → α) (hf : ∀ r, key (f r) = key r) {r : α}
    (hr : r ∈ t.rows) (h : key r = k) : f r ∈ (t.update k f hf).rows :=
  mem_updateWhere.mpr ⟨r, hr, by simp [h]⟩

theorem mem_update_of_ne {t : Table key} {k : κ} (f : α → α) (hf : ∀ r, key (f r) = key r) {r : α}
    (hne : key r ≠ k) : r ∈ (t.update k f hf).rows ↔ r ∈ t.rows := by
  rw [update, mem_updateWhere]
  constructor
  · rintro ⟨r', hr', rfl⟩
    split at hne
    · next hkey => exact absurd ((hf r').trans (of_decide_eq_true hkey)) hne
    · next hkey => rwa [if_neg hkey]
  · exact fun hr => ⟨r, hr, if_neg fun hkey => hne (of_decide_eq_true hkey)⟩

theorem update_eq_self {t : Table key} {k : κ} {f : α → α} {hf : ∀ r, key (f r) = key r}
    (h : ∀ r ∈ t.rows, key r = k → f r = r) : t.update k f hf = t := by
  apply eq_of_rows_eq
  rw [update, updateWhere_rows]
  conv_rhs => rw [← List.map_id t.rows]
  apply List.map_congr_left
  intro r hr
  by_cases hk : key r = k
  · simp [hk, h r hr hk]
  · simp [hk]

/-- An update of a row that is there touches this row and leaves all others in place. -/
theorem update_rows (t : Table key) {r : α} (hr : r ∈ t.rows) (f : α → α)
    (hf : ∀ r, key (f r) = key r) :
    ∃ l₁ l₂, t.rows = l₁ ++ r :: l₂ ∧ (t.update (key r) f hf).rows = l₁ ++ f r :: l₂ := by
  obtain ⟨l₁, l₂, hrows⟩ := List.append_of_mem hr
  have hnodup := t.keys_nodup
  rw [hrows, List.map_append, List.map_cons, List.nodup_middle, List.nodup_cons] at hnodup
  have hother : ∀ s ∈ l₁ ++ l₂, key s ≠ key r := by
    intro s hs h
    apply hnodup.1
    rw [← List.map_append, ← h]
    exact List.mem_map_of_mem hs
  have hid : ∀ l : List α, (∀ s ∈ l, s ∈ l₁ ++ l₂) →
      (l.map fun s => if decide (key s = key r) then f s else s) = l := by
    intro l hl
    conv_rhs => rw [← List.map_id l]
    apply List.map_congr_left
    intro s hs
    simp [hother s (hl s hs)]
  refine ⟨l₁, l₂, hrows, ?_⟩
  rw [update, updateWhere_rows, hrows, List.map_append, List.map_cons,
    hid l₁ fun s hs => List.mem_append_left _ hs, hid l₂ fun s hs => List.mem_append_right _ hs]
  simp

theorem find?_eq_some {t : Table key} {k : κ} {r : α} :
    t.find? k = some r ↔ r ∈ t.rows ∧ key r = k := by
  constructor
  · intro h
    exact ⟨find?_mem h, find?_key h⟩
  · rintro ⟨hr, rfl⟩
    exact t.find?_of_mem hr

theorem filter_key_of_nodup {l : List α} (h : (l.map key).Nodup) (k : κ) :
    (l.filter fun r => key r = k) = (l.find? fun r => key r = k).toList := by
  induction l with
  | nil => rfl
  | cons r l ih =>
    rw [List.map_cons, List.nodup_cons] at h
    by_cases hr : key r = k
    · have hl : (l.filter fun s => decide (key s = k)) = [] := by
        rw [List.filter_eq_nil_iff]
        intro s hs hsk
        rw [decide_eq_true_eq] at hsk
        exact h.1 (List.mem_map.mpr ⟨s, hs, hsk.trans hr.symm⟩)
      simp [hr, hl]
    · simp [hr, ih h.2]

theorem find?_updateWhere (t : Table key) (p : α → Bool) (f : α → α)
    (hf : ∀ r, key (f r) = key r) (k : κ) :
    (t.updateWhere p f hf).find? k = (t.find? k).map fun r => if p r then f r else r := by
  have hkey : ∀ r, key (if p r then f r else r) = key r := by
    intro r
    split
    · exact hf r
    · rfl
  simp only [find?, updateWhere_rows, List.find?_map, Function.comp_def, hkey]

theorem find?_insert? {t t' : Table key} {r : α} (h : t.insert? r = some t') (k : κ) :
    t'.find? k = if key r = k then some r else t.find? k := by
  rw [find?, insert?_rows h, List.find?_append]
  by_cases hk : key r = k
  · have hnone : t.find? k = none := by
      rw [find?_eq_none, ← hk]
      intro hmem
      rw [insert?_eq_none.mpr hmem] at h
      cases h
    rw [find?] at hnone
    simp [hnone, hk]
  · simp [find?, hk]

section Map

variable {β : Type v} {key' : β → κ} {f : α → β}

theorem find?_map (t : Table key) (hf : ∀ r, key' (f r) = key r) (k : κ) :
    (t.map f hf).find? k = (t.find? k).map f := by
  simp only [find?, map, List.find?_map, Function.comp_def, hf]

theorem insert?_of_not_mem {t : Table key} {r : α} (h : key r ∉ t.rows.map key) :
    ∃ t', t.insert? r = some t' ∧ t'.rows = t.rows ++ [r] := by
  rw [insert?, dif_neg h]
  exact ⟨_, rfl, rfl⟩

theorem map_insert? {t t' : Table key} {r : α} (hf : ∀ r, key' (f r) = key r)
    (h : t.insert? r = some t') : (t.map f hf).insert? (f r) = some (t'.map f hf) := by
  have hfresh : key' (f r) ∉ (t.map f hf).rows.map key' := by
    rw [map, map_keys t.rows hf, hf]
    exact key_not_mem_of_insert? h
  obtain ⟨t₁, hinsert, hrows⟩ := insert?_of_not_mem hfresh
  have heq : t₁ = t'.map f hf := by
    apply eq_of_rows_eq
    change t₁.rows = t'.rows.map f
    rw [hrows, insert?_rows h, List.map_append, List.map_singleton]
    rfl
  rw [hinsert, heq]

end Map

end Table

end Eyot

/-! A partial unique index over the rows of a table. -/

universe w

namespace Eyot

variable {α : Type u} {κ : Type v} {γ : Type w} {p : α → Bool} {key : α → κ} {rows more : List α}

/-- `CREATE UNIQUE INDEX .. (key) WHERE p` -/
def UniqueOn (p : α → Bool) (key : α → κ) (rows : List α) : Prop :=
  ((rows.filter p).map key).Nodup

instance [DecidableEq κ] (p : α → Bool) (key : α → κ) (rows : List α) :
    Decidable (UniqueOn p key rows) :=
  inferInstanceAs (Decidable (List.Nodup _))

theorem exists_mem_of_forall₂ {β : Type w} {R : α → β → Prop} {more : List β}
    (h : List.Forall₂ R rows more) {r : α} (hr : r ∈ rows) : ∃ b ∈ more, R r b := by
  induction h with
  | nil => cases hr
  | cons hrow _ ih =>
    obtain rfl | hr := List.mem_cons.mp hr
    · exact ⟨_, List.mem_cons_self, hrow⟩
    · obtain ⟨b, hb, hrow'⟩ := ih hr
      exact ⟨b, List.mem_cons_of_mem _ hb, hrow'⟩

namespace UniqueOn

theorem sublist (h : rows.Sublist more) (hmore : UniqueOn p key more) : UniqueOn p key rows :=
  List.Nodup.sublist ((h.filter p).map key) hmore

theorem singleton (p : α → Bool) (key : α → κ) (r : α) : UniqueOn p key [r] := by
  rw [UniqueOn, List.filter_singleton]
  cases p r with
  | true => exact List.nodup_singleton _
  | false => exact List.nodup_nil

/-- Rows whose keys no row has can be added when they have keys of their own. -/
theorem append (hrows : UniqueOn p key rows) (hmore : UniqueOn p key more)
    (hne : ∀ r ∈ rows, ∀ r' ∈ more, p r = true → p r' = true → key r ≠ key r') :
    UniqueOn p key (rows ++ more) := by
  rw [UniqueOn, List.filter_append, List.map_append]
  refine List.nodup_append.mpr ⟨hrows, hmore, ?_⟩
  intro k hk k' hk' heq
  obtain ⟨r, hr, rfl⟩ := List.mem_map.mp hk
  obtain ⟨r', hr', rfl⟩ := List.mem_map.mp hk'
  obtain ⟨hr, hpr⟩ := List.mem_filter.mp hr
  obtain ⟨hr', hpr'⟩ := List.mem_filter.mp hr'
  exact hne r hr r' hr' hpr hpr' heq

theorem append_right (h : UniqueOn p key (rows ++ more)) : UniqueOn p key more :=
  h.sublist (List.sublist_append_right rows more)

/-- Two rows of the index with one key are one row. -/
theorem eq (h : UniqueOn p key rows) {r r' : α} (hr : r ∈ rows) (hr' : r' ∈ rows)
    (hp : p r = true) (hp' : p r' = true) (hkey : key r = key r') : r = r' :=
  List.inj_on_of_nodup_map h (List.mem_filter.mpr ⟨hr, hp⟩) (List.mem_filter.mpr ⟨hr', hp'⟩) hkey

theorem iff_pairwise :
    UniqueOn p key rows ↔ rows.Pairwise fun r r' => p r = true → p r' = true → key r ≠ key r' := by
  rw [UniqueOn, List.Nodup, List.pairwise_map, List.pairwise_filter]

/-- Rows are told apart by what tells apart the rows they go with. -/
theorem of_forall₂ {β : Type u} {more : List β} {q : β → Bool} {key' : β → γ} {R : α → β → Prop}
    (h : List.Forall₂ R rows more) (hmore : UniqueOn q key' more)
    (hq : ∀ r b, R r b → p r = true → q b = true)
    (hkey : ∀ r r' b b', R r b → R r' b' → p r = true → p r' = true → key r = key r' →
      key' b = key' b') :
    UniqueOn p key rows := by
  rw [iff_pairwise] at hmore ⊢
  induction h with
  | nil => exact .nil
  | cons hrow hrows ih =>
    obtain ⟨hfirst, hrest⟩ := List.pairwise_cons.mp hmore
    refine List.pairwise_cons.mpr ⟨?_, ih hrest⟩
    intro r' hr' hp hp' heq
    obtain ⟨b', hb', hrow'⟩ := exists_mem_of_forall₂ hrows hr'
    exact hfirst b' hb' (hq _ _ hrow hp) (hq _ _ hrow' hp') (hkey _ _ _ _ hrow hrow' hp hp' heq)

/-- Rows made from rows of an index are in one of their own, if what tells them apart is kept. -/
theorem map {β : Type u} {q : β → Bool} {key' : β → γ} {f : α → β}
    (h : UniqueOn p key rows) (hq : ∀ r ∈ rows, q (f r) = true → p r = true)
    (hkey : ∀ r ∈ rows, ∀ r' ∈ rows, q (f r) = true → q (f r') = true →
      key' (f r) = key' (f r') → key r = key r') :
    UniqueOn q key' (rows.map f) := by
  refine of_forall₂ (R := fun b r => r ∈ rows ∧ b = f r) ?_ h ?_ ?_
  · rw [List.forall₂_map_left_iff, List.forall₂_same]
    exact fun r hr => ⟨hr, rfl⟩
  · rintro b r ⟨hr, rfl⟩
    exact hq r hr
  · rintro b b' r r' ⟨hr, rfl⟩ ⟨hr', rfl⟩
    exact hkey r hr r' hr'

end UniqueOn

end Eyot
