import Eyot.Library.Table

/-! Tables that keep their rows, seen through the columns that are never assigned. -/

universe u v w

namespace Eyot.Table

variable {κ : Type u} {α : Type v} {β : Type w} {key : α → κ} [DecidableEq κ] {view : α → β}
  {t t' t'' : Table key}

/-- Every row of `t` is a row of `t'`, with the same view. -/
def Keeps (view : α → β) (t t' : Table key) : Prop :=
  ∀ k b, (t.find? k).map view = some b → (t'.find? k).map view = some b

theorem Keeps.refl (t : Table key) : Keeps view t t := fun _ _ h => h

theorem Keeps.trans (h : Keeps view t t') (h' : Keeps view t' t'') : Keeps view t t'' :=
  fun k b hb => h' k b (h k b hb)

theorem Keeps.view_eq (h : Keeps view t t') {k : κ} {r : α} (hr : t.find? k = some r) :
    (t'.find? k).map view = some (view r) :=
  h k (view r) (by rw [hr, Option.map_some])

theorem keeps_insert? {r : α} (h : t.insert? r = some t') : Keeps view t t' := by
  intro k b hb
  rw [find?_insert? h]
  split
  · rename_i hk
    have hnone : t.find? k = none := by
      rw [find?_eq_none, ← hk]
      exact key_not_mem_of_insert? h
    rw [hnone] at hb
    cases hb
  · exact hb

theorem find?_of_insert? {r : α} (h : t.insert? r = some t') {k : κ} {s : α}
    (hs : t.find? k = some s) : t'.find? k = some s := by
  have hkeeps : Keeps id t t' := keeps_insert? h
  have hkept := hkeeps k s (by rw [hs, Option.map_some, id])
  rwa [Option.map_id_fun, id] at hkept

theorem mem_insert? {r s : α} (h : t.insert? r = some t') : s ∈ t'.rows ↔ s ∈ t.rows ∨ s = r := by
  rw [insert?_rows h, List.mem_append, List.mem_singleton]

omit [DecidableEq κ] in
/-- A row that an update is not about stays as it is. -/
theorem mem_updateWhere_of_not {p : α → Bool} {f : α → α} (hf : ∀ r, key (f r) = key r) {r : α}
    (hr : r ∈ t.rows) (h : p r = false) : r ∈ (t.updateWhere p f hf).rows :=
  mem_updateWhere.mpr ⟨r, hr, if_neg (Bool.not_eq_true _ ▸ h)⟩

theorem keeps_updateWhere (p : α → Bool) {f : α → α} (hf : ∀ r, key (f r) = key r)
    (hview : ∀ r, view (f r) = view r) : Keeps view t (t.updateWhere p f hf) := by
  intro k b hb
  rw [find?_updateWhere, Option.map_map]
  rw [← hb]
  congr 1
  funext r
  simp only [Function.comp_apply]
  split
  · exact hview r
  · rfl

omit [DecidableEq κ] in
/-- What an update has not marked is as it was, and the update was not about it. -/
theorem mem_of_not_marked (marked : α → Bool) {p : α → Bool} {f : α → α}
    (hf : ∀ r, key (f r) = key r) (hmarked : ∀ r, marked (f r) = true) {r : α}
    (hr : r ∈ (t.updateWhere p f hf).rows) (h : marked r = false) : r ∈ t.rows ∧ p r = false := by
  obtain ⟨r₀, hr₀, heq⟩ := mem_updateWhere.mp hr
  cases hp : p r₀ with
  | true =>
    rw [hp, if_pos rfl] at heq
    rw [← heq, hmarked] at h
    cases h
  | false =>
    rw [hp, if_neg Bool.false_ne_true] at heq
    subst heq
    exact ⟨hr₀, hp⟩

theorem find?_updateWhere_iff (marked : α → Bool) {p : α → Bool} {f : α → α}
    {hf : ∀ r, key (f r) = key r} (hmarked : ∀ r, marked (f r) = true) {k : κ} {r : α} :
    (t.updateWhere p f hf).find? k = some r ∧ marked r = false ↔
      t.find? k = some r ∧ marked r = false ∧ p r = false := by
  rw [find?_eq_some, find?_eq_some]
  constructor
  · rintro ⟨⟨hr, hk⟩, h⟩
    obtain ⟨hr, hp⟩ := mem_of_not_marked marked hf hmarked hr h
    exact ⟨⟨hr, hk⟩, h, hp⟩
  · rintro ⟨⟨hr, hk⟩, h, hp⟩
    exact ⟨⟨mem_updateWhere_of_not hf hr hp, hk⟩, h⟩

theorem mem_update_cases {k : κ} {f : α → α} (hf : ∀ r, key (f r) = key r) {s : α}
    (h : s ∈ (t.update k f hf).rows) :
    (s ∈ t.rows ∧ key s ≠ k) ∨ ∃ r ∈ t.rows, key r = k ∧ s = f r := by
  obtain ⟨r, hr, rfl⟩ := mem_updateWhere.mp h
  by_cases hk : key r = k
  · exact .inr ⟨r, hr, hk, by simp [hk]⟩
  · exact .inl (by simp [hk, hr])

theorem find?_update (t : Table key) (k : κ) (f : α → α) (hf : ∀ r, key (f r) = key r) (k' : κ) :
    (t.update k f hf).find? k' = if k' = k then (t.find? k').map f else t.find? k' := by
  rw [update, find?_updateWhere]
  cases h : t.find? k' with
  | none => simp
  | some r =>
    rw [Option.map_some, find?_key h, Option.map_some]
    by_cases hk : k' = k <;> simp [hk]

/-! Tables whose rows are edited in place. -/

section Edited

variable {R : α → α → Prop}

/-- Row for row, with the same key, what an edit may make of it. -/
def Edited (R : α → α → Prop) (t t' : Table key) : Prop :=
  List.Forall₂ (fun r r' => key r' = key r ∧ R r r') t.rows t'.rows

omit [DecidableEq κ] in
theorem Edited.refl (hR : ∀ r, R r r) (t : Table key) : Edited R t t :=
  List.forall₂_same.mpr fun r _ => ⟨rfl, hR r⟩

omit [DecidableEq κ] in
theorem Edited.trans (hR : ∀ r r' r'', R r r' → R r' r'' → R r r'') (h : Edited R t t')
    (h' : Edited R t' t'') : Edited R t t'' := by
  unfold Edited at h h' ⊢
  generalize t.rows = rows at h
  generalize t'.rows = rows' at h h'
  generalize t''.rows = rows'' at h'
  induction h generalizing rows'' with
  | nil =>
    cases h'
    exact .nil
  | cons hrow _ ih =>
    cases h' with
    | cons hrow' hrows' =>
      exact .cons ⟨hrow'.1.trans hrow.1, hR _ _ _ hrow.2 hrow'.2⟩ (ih _ hrows')

theorem edited_update (hR : ∀ r, R r r) {k : κ} {f : α → α} (hf : ∀ r, key (f r) = key r)
    (hedit : ∀ r, t.find? k = some r → R r (f r)) : Edited R t (t.update k f hf) := by
  rw [Edited, update, updateWhere_rows, List.forall₂_map_right_iff, List.forall₂_same]
  intro r hr
  split
  · rename_i hk
    rw [decide_eq_true_eq] at hk
    refine ⟨hf r, hedit r ?_⟩
    rw [← hk]
    exact t.find?_of_mem hr
  · exact ⟨rfl, hR r⟩

omit [DecidableEq κ] in
theorem Edited.map_eq {g : α → β} (hg : ∀ r r', R r r' → g r' = g r) (h : Edited R t t') :
    t'.rows.map g = t.rows.map g := by
  unfold Edited at h
  generalize t.rows = rows at h
  generalize t'.rows = rows' at h
  induction h with
  | nil => rfl
  | cons hrow _ ih => rw [List.map_cons, List.map_cons, ih, hg _ _ hrow.2]

omit [DecidableEq κ] in
theorem Edited.mem (h : Edited R t t') {r' : α} (hr' : r' ∈ t'.rows) :
    ∃ r ∈ t.rows, key r' = key r ∧ R r r' := by
  obtain ⟨i, hi, rfl⟩ := List.getElem_of_mem hr'
  have hlength := List.Forall₂.length_eq h
  exact ⟨t.rows[i], List.getElem_mem _, h.get (hlength ▸ hi) hi⟩

theorem Edited.find? (h : Edited R t t') {k : κ} {r : α} (hr : t.find? k = some r) :
    ∃ r', t'.find? k = some r' ∧ R r r' := by
  obtain ⟨hmem, rfl⟩ := find?_eq_some.mp hr
  obtain ⟨i, hi, rfl⟩ := List.getElem_of_mem hmem
  have hlength := List.Forall₂.length_eq h
  obtain ⟨hkey, hedit⟩ := h.get hi (hlength ▸ hi)
  exact ⟨_, find?_eq_some.mpr ⟨List.get_mem _ _, hkey⟩, hedit⟩

theorem Edited.find?_none (h : Edited R t t') {k : κ} (hr : t.find? k = none) :
    t'.find? k = none := by
  rw [find?_eq_none] at hr ⊢
  intro hmem
  obtain ⟨r', hr', rfl⟩ := List.mem_map.mp hmem
  obtain ⟨r, hr₀, hkey, _⟩ := h.mem hr'
  exact hr (List.mem_map.mpr ⟨r, hr₀, hkey.symm⟩)

/-- A row that no edit changes is found as it was. -/
theorem Edited.find?_eq (h : Edited R t t') {k : κ}
    (hfixed : ∀ r, t.find? k = some r → ∀ r', R r r' → r' = r) : t'.find? k = t.find? k := by
  cases hr : t.find? k with
  | none => exact h.find?_none hr
  | some r =>
    obtain ⟨r', hr', hedit⟩ := h.find? hr
    rw [hr', hfixed r hr r' hedit]

end Edited

end Eyot.Table
