import Eyot.Library.Table

/-! Rows that are looked up by a key, and added where there is none under it. -/

universe u v

namespace Eyot

variable {α : Type u} {κ : Type v} [DecidableEq κ] (p : α → Bool) (key : α → κ)

def firstUnder (rows : List α) (k : κ) : Option α := rows.find? fun r => p r && key r = k

/-- The row under the key of `a`, which is `a` itself if there is none yet, and all rows then. -/
def getOrAdd (rows : List α) (a : α) : α × List α :=
  match firstUnder p key rows (key a) with
  | some r => (r, rows)
  | none => (a, rows ++ [a])

def getOrAddAll (rows : List α) : List α → List α × List α
  | [] => ([], rows)
  | a :: new =>
    let (r, rows) := getOrAdd p key rows a
    let (rs, rows) := getOrAddAll rows new
    (r :: rs, rows)

variable {p key} {rows new : List α} {a r : α} {k : κ}

theorem firstUnder_append :
    firstUnder p key (rows ++ new) k = (firstUnder p key rows k).or (firstUnder p key new k) :=
  List.find?_append

theorem firstUnder_cons_self (ha : p a = true) : firstUnder p key (a :: new) (key a) = some a :=
  List.find?_cons_of_pos (by simp [ha])

theorem firstUnder_cons_of_ne (hne : key a ≠ k) :
    firstUnder p key (a :: new) k = firstUnder p key new k :=
  List.find?_cons_of_neg (by simp [hne])

theorem firstUnder_eq_some (h : firstUnder p key rows k = some r) :
    r ∈ rows ∧ p r = true ∧ key r = k := by
  have htest := List.find?_some h
  rw [Bool.and_eq_true, decide_eq_true_eq] at htest
  exact ⟨List.mem_of_find?_eq_some h, htest⟩

variable (key) in
theorem exists_firstUnder (hr : r ∈ rows) (hp : p r = true) :
    ∃ r', firstUnder p key rows (key r) = some r' := by
  rw [← Option.isSome_iff_exists, firstUnder, List.find?_isSome]
  exact ⟨r, hr, by simp [hp]⟩

theorem firstUnder_map {γ : Type v} {f : γ → α} (hf : ∀ c, p (f c) = true) (l : List γ) :
    firstUnder p key (l.map f) k = (l.find? fun c => key (f c) = k).map f := by
  rw [firstUnder, List.find?_map]
  congr 2
  funext c
  simp [hf]

/-- A row that the index has room for. -/
theorem UniqueOn.getOrAdd (h : UniqueOn p key rows) (a : α) :
    UniqueOn p key (getOrAdd p key rows a).2 := by
  rw [Eyot.getOrAdd]
  split
  · exact h
  · rename_i hnone
    refine h.append (.singleton p key a) ?_
    intro r hr r' hr' hp _ heq
    obtain rfl := List.mem_singleton.mp hr'
    obtain ⟨r', hfound⟩ := exists_firstUnder key hr hp
    rw [heq, hnone] at hfound
    cases hfound

theorem getOrAdd_fst (ha : p a = true) :
    (getOrAdd p key rows a).1 = (firstUnder p key (rows ++ a :: new) (key a)).getD a := by
  rw [getOrAdd, firstUnder_append, firstUnder_cons_self ha]
  cases firstUnder p key rows (key a) <;> rfl

/-- What comes after `a` finds what it would find behind the old rows and `a`. -/
theorem firstUnder_getOrAdd (k : κ) :
    firstUnder p key ((getOrAdd p key rows a).2 ++ new) k =
      firstUnder p key (rows ++ a :: new) k := by
  rw [getOrAdd]
  split
  · rename_i r hr
    by_cases hk : key a = k
    · subst hk
      rw [firstUnder_append, firstUnder_append, hr, Option.some_or, Option.some_or]
    · rw [firstUnder_append, firstUnder_append, firstUnder_cons_of_ne hk]
  · rw [List.append_assoc, List.singleton_append]

theorem getOrAddAll_fst (hnew : ∀ a ∈ new, p a = true) :
    (getOrAddAll p key rows new).1 =
      new.map fun a => (firstUnder p key (rows ++ new) (key a)).getD a := by
  induction new generalizing rows with
  | nil => rfl
  | cons a new ih =>
    have hrest := @ih (getOrAdd p key rows a).2 fun b hb =>
      hnew b (List.mem_cons_of_mem a hb)
    simp only [firstUnder_getOrAdd] at hrest
    rw [getOrAddAll, List.map_cons, ← getOrAdd_fst (hnew a List.mem_cons_self)]
    exact congrArg (_ :: ·) hrest

/-- What is answered is what comes first under each of the keys. -/
theorem mem_getOrAddAll_fst (hnew : ∀ a ∈ new, p a = true) :
    r ∈ (getOrAddAll p key rows new).1 ↔
      key r ∈ new.map key ∧ firstUnder p key (rows ++ new) (key r) = some r := by
  have hfound (a : α) (ha : a ∈ new) : ∃ r, firstUnder p key (rows ++ new) (key a) = some r :=
    exists_firstUnder key (List.mem_append_right rows ha) (hnew a ha)
  rw [getOrAddAll_fst hnew, List.mem_map]
  constructor
  · rintro ⟨a, ha, rfl⟩
    obtain ⟨r, hr⟩ := hfound a ha
    rw [hr, Option.getD_some, (firstUnder_eq_some hr).2.2]
    exact ⟨List.mem_map_of_mem ha, hr⟩
  · rintro ⟨hkey, hr⟩
    obtain ⟨a, ha, heq⟩ := List.mem_map.mp hkey
    exact ⟨a, ha, by rw [heq, hr, Option.getD_some]⟩

/-! What two lists come to, seen through a view that shows the key. -/

variable {β : Type v} {view : α → β} {rows as bs : List α}

theorem exists_firstUnder_of_key (hbs : ∀ b ∈ bs, p b = true) (hk : k ∈ bs.map key) :
    ∃ r, firstUnder p key bs k = some r := by
  obtain ⟨b, hb, rfl⟩ := List.mem_map.mp hk
  exact exists_firstUnder key hb (hbs b hb)

/-- All that the first list comes to is among what the second comes to, if its keys are there, and
the first under each key that the rows do not have yet looks the same. -/
theorem getOrAddAll_views_subset (has : ∀ a ∈ as, p a = true) (hbs : ∀ b ∈ bs, p b = true)
    (hkeys : ∀ k ∈ as.map key, k ∈ bs.map key)
    (hviews : ∀ k r, firstUnder p key rows k = none → firstUnder p key as k = some r →
      ∃ r', firstUnder p key bs k = some r' ∧ view r' = view r) :
    ∀ v ∈ (getOrAddAll p key rows as).1.map view, v ∈ (getOrAddAll p key rows bs).1.map view := by
  intro v hv
  obtain ⟨r, hr, rfl⟩ := List.mem_map.mp hv
  obtain ⟨hkey, hfirst⟩ := (mem_getOrAddAll_fst has).mp hr
  rw [firstUnder_append] at hfirst
  cases hrow : firstUnder p key rows (key r) with
  | some r₀ =>
    rw [hrow, Option.some_or] at hfirst
    refine List.mem_map_of_mem ((mem_getOrAddAll_fst hbs).mpr ⟨hkeys _ hkey, ?_⟩)
    rw [firstUnder_append, hrow, hfirst, Option.some_or]
  | none =>
    rw [hrow, Option.none_or] at hfirst
    obtain ⟨r', hr', hview⟩ := hviews _ r hrow hfirst
    have hkey' : key r' = key r := (firstUnder_eq_some hr').2.2
    rw [← hview]
    refine List.mem_map_of_mem ((mem_getOrAddAll_fst hbs).mpr ⟨hkey' ▸ hkeys _ hkey, ?_⟩)
    rw [hkey', firstUnder_append, hrow, hr', Option.none_or]

theorem keys_subset_of_views (has : ∀ a ∈ as, p a = true) (hbs : ∀ b ∈ bs, p b = true)
    (hview : ∀ r r', view r = view r' → key r = key r')
    (h : ∀ v ∈ (getOrAddAll p key rows as).1.map view,
      v ∈ (getOrAddAll p key rows bs).1.map view) :
    ∀ k ∈ as.map key, k ∈ bs.map key := by
  intro k hk
  obtain ⟨a, ha, rfl⟩ := List.mem_map.mp hk
  obtain ⟨r, hr⟩ := exists_firstUnder key (List.mem_append_right rows ha) (has a ha)
  have hkey : key r = key a := (firstUnder_eq_some hr).2.2
  have hanswer : r ∈ (getOrAddAll p key rows as).1 :=
    (mem_getOrAddAll_fst has).mpr ⟨hkey ▸ hk, hkey ▸ hr⟩
  obtain ⟨r', hr', heq⟩ := List.mem_map.mp (h _ (List.mem_map_of_mem hanswer))
  have hfound := ((mem_getOrAddAll_fst hbs).mp hr').1
  rwa [hview r' r heq, hkey] at hfound

theorem firstUnder_view_of_views (has : ∀ a ∈ as, p a = true) (hbs : ∀ b ∈ bs, p b = true)
    (hview : ∀ r r', view r = view r' → key r = key r')
    (h : ∀ v ∈ (getOrAddAll p key rows as).1.map view,
      v ∈ (getOrAddAll p key rows bs).1.map view)
    (hrow : firstUnder p key rows k = none) (hr : firstUnder p key as k = some r) :
    ∃ r', firstUnder p key bs k = some r' ∧ view r' = view r := by
  obtain ⟨hmem, -, rfl⟩ := firstUnder_eq_some hr
  have hanswer : r ∈ (getOrAddAll p key rows as).1 := by
    refine (mem_getOrAddAll_fst has).mpr ⟨List.mem_map_of_mem hmem, ?_⟩
    rw [firstUnder_append, hrow, hr, Option.none_or]
  obtain ⟨r', hr', heq⟩ := List.mem_map.mp (h _ (List.mem_map_of_mem hanswer))
  have hfound := ((mem_getOrAddAll_fst hbs).mp hr').2
  rw [hview r' r heq, firstUnder_append, hrow, Option.none_or] at hfound
  exact ⟨r', hfound, heq⟩

end Eyot
