import Eyot.Library.StableSort
import Mathlib.Data.List.Induction

/-! Rows that are grouped by a key, and the one of a group that overrides the others: the first of
the least rank. -/

universe u v

namespace Eyot

variable {α : Type u} {κ : Type v} [LinearOrder κ] (key : α → κ)

/-- `groups.setdefault(key, []).append(row)` -/
def addToGroup (groups : List (κ × List α)) (r : α) : List (κ × List α) :=
  if groups.any fun g => g.1 = key r then
    groups.map fun g => if g.1 = key r then (g.1, g.2 ++ [r]) else g
  else groups ++ [(key r, [r])]

def grouped (rows : List α) : List (κ × List α) := rows.foldl (addToGroup key) []

variable {key} {rows : List α} {groups : List (κ × List α)} {k : κ}

theorem grouped_concat (rows : List α) (r : α) :
    grouped key (rows ++ [r]) = addToGroup key (grouped key rows) r := by
  rw [grouped, List.foldl_append]
  rfl

theorem addToGroup_of_mem {r : α} (h : key r ∈ groups.map Prod.fst) :
    addToGroup key groups r =
      groups.map fun g => if g.1 = key r then (g.1, g.2 ++ [r]) else g := by
  obtain ⟨g, hg, hkey⟩ := List.mem_map.mp h
  exact if_pos (List.any_eq_true.mpr ⟨g, hg, decide_eq_true hkey⟩)

theorem addToGroup_of_not_mem {r : α} (h : key r ∉ groups.map Prod.fst) :
    addToGroup key groups r = groups ++ [(key r, [r])] := by
  refine if_neg fun hany => h ?_
  obtain ⟨g, hg, hkey⟩ := List.any_eq_true.mp hany
  exact List.mem_map.mpr ⟨g, hg, of_decide_eq_true hkey⟩

theorem addToGroup_keys_of_mem {r : α} (h : key r ∈ groups.map Prod.fst) :
    (addToGroup key groups r).map Prod.fst = groups.map Prod.fst := by
  rw [addToGroup_of_mem h, List.map_map]
  apply List.map_congr_left
  intro g _
  dsimp only [Function.comp]
  split <;> rfl

theorem grouped_keys_nodup (rows : List α) : ((grouped key rows).map Prod.fst).Nodup := by
  induction rows using List.reverseRecOn with
  | nil => exact List.nodup_nil
  | append_singleton rows r ih =>
    rw [grouped_concat]
    by_cases h : key r ∈ (grouped key rows).map Prod.fst
    · rwa [addToGroup_keys_of_mem h]
    · rw [addToGroup_of_not_mem h, List.map_append]
      refine List.nodup_append.mpr ⟨ih, List.nodup_singleton _, ?_⟩
      intro k hk k' hk' heq
      obtain rfl : k' = key r := List.mem_singleton.mp hk'
      exact h (heq ▸ hk)

theorem mem_grouped_keys : k ∈ (grouped key rows).map Prod.fst ↔ ∃ r ∈ rows, key r = k := by
  induction rows using List.reverseRecOn with
  | nil => simp [grouped]
  | append_singleton rows r ih =>
    rw [grouped_concat]
    have hlast : (∃ r' ∈ rows ++ [r], key r' = k) ↔ (∃ r' ∈ rows, key r' = k) ∨ key r = k := by
      simp [or_and_right, exists_or]
    rw [hlast, ← ih]
    by_cases h : key r ∈ (grouped key rows).map Prod.fst
    · rw [addToGroup_keys_of_mem h, iff_self_or]
      rintro rfl
      exact h
    · rw [addToGroup_of_not_mem h, List.map_append, List.mem_append]
      simp [eq_comm]

/-- A group holds the rows of its key, in the order of the list. -/
theorem group_eq_under {g : κ × List α} (hg : g ∈ grouped key rows) : g.2 = under key g.1 rows := by
  induction rows using List.reverseRecOn generalizing g with
  | nil => cases hg
  | append_singleton rows r ih =>
    rw [grouped_concat] at hg
    have hunder (k : κ) : under key k (rows ++ [r]) = under key k rows ++ under key k [r] :=
      List.filter_append ..
    have hself : under key (key r) [r] = [r] := by simp [under]
    have hother {k : κ} (hne : k ≠ key r) : under key k [r] = [] := by simp [under, hne.symm]
    rw [hunder]
    by_cases h : key r ∈ (grouped key rows).map Prod.fst
    · rw [addToGroup_of_mem h] at hg
      obtain ⟨g', hg', rfl⟩ := List.mem_map.mp hg
      by_cases hkey : g'.1 = key r
      · rw [if_pos hkey, ih hg', hkey, hself]
      · rw [if_neg hkey, ih hg', hother hkey, List.append_nil]
    · rw [addToGroup_of_not_mem h, List.mem_append, List.mem_singleton] at hg
      obtain hg | rfl := hg
      · have hkey : g.1 ≠ key r := fun hkey => h (hkey ▸ List.mem_map_of_mem hg)
        rw [ih hg, hother hkey, List.append_nil]
      · have hnone : under key (key r) rows = [] := by
          rw [under, List.filter_eq_nil_iff]
          intro r' hr' hkey
          exact h (mem_grouped_keys.mpr ⟨r', hr', of_decide_eq_true hkey⟩)
        rw [hnone, hself, List.nil_append]

theorem mem_group {g : κ × List α} (hg : g ∈ grouped key rows) {r : α} :
    r ∈ g.2 ↔ r ∈ rows ∧ key r = g.1 := by
  rw [group_eq_under hg, mem_under]

theorem exists_group {r : α} (hr : r ∈ rows) : ∃ g ∈ grouped key rows, g.1 = key r ∧ r ∈ g.2 := by
  have hmem : key r ∈ (grouped key rows).map Prod.fst := mem_grouped_keys.mpr ⟨r, hr, rfl⟩
  obtain ⟨g, hg, hkey⟩ := List.mem_map.mp hmem
  exact ⟨g, hg, hkey, (mem_group hg).mpr ⟨hr, hkey.symm⟩⟩

theorem group_ne_nil {g : κ × List α} (hg : g ∈ grouped key rows) : g.2 ≠ [] := by
  have hmem : g.1 ∈ (grouped key rows).map Prod.fst := List.mem_map_of_mem hg
  obtain ⟨r, hr, hkey⟩ := mem_grouped_keys.mp hmem
  exact List.ne_nil_of_mem ((mem_group hg).mpr ⟨hr, hkey⟩)

theorem addToGroup_filter (p : κ → Bool) (groups : List (κ × List α)) (r : α) :
    (addToGroup key groups r).filter (fun g => p g.1) =
      if p (key r) then addToGroup key (groups.filter fun g => p g.1) r
      else groups.filter fun g => p g.1 := by
  have hkeys : key r ∈ (groups.filter fun g => p g.1).map Prod.fst ↔
      p (key r) = true ∧ key r ∈ groups.map Prod.fst := by
    simp only [List.mem_map, List.mem_filter]
    constructor
    · rintro ⟨g, ⟨hg, hp⟩, hkey⟩
      exact ⟨hkey ▸ hp, g, hg, hkey⟩
    · rintro ⟨hp, g, hg, hkey⟩
      exact ⟨g, ⟨hg, hkey ▸ hp⟩, hkey⟩
  by_cases h : key r ∈ groups.map Prod.fst
  · have hpart (g : κ × List α) : (if g.1 = key r then (g.1, g.2 ++ [r]) else g).1 = g.1 := by
      split <;> rfl
    rw [addToGroup_of_mem h, List.filter_map]
    simp only [Function.comp_def, hpart]
    split
    · rename_i hp
      rw [addToGroup_of_mem (hkeys.mpr ⟨hp, h⟩)]
    · rename_i hp
      conv_rhs => rw [← List.map_id (groups.filter fun g => p g.1)]
      apply List.map_congr_left
      intro g hg
      refine if_neg fun hkey => hp ?_
      rw [← hkey]
      exact (List.mem_filter.mp hg).2
  · rw [addToGroup_of_not_mem h, List.filter_append]
    split
    · rename_i hp
      rw [addToGroup_of_not_mem fun hmem => h (hkeys.mp hmem).2]
      simp [hp]
    · rename_i hp
      simp [hp]

/-- Of some keys only, the groups are those of the keys. -/
theorem grouped_filter (p : κ → Bool) (rows : List α) :
    grouped key (rows.filter fun r => p (key r)) = (grouped key rows).filter fun g => p g.1 := by
  induction rows using List.reverseRecOn with
  | nil => rfl
  | append_singleton rows r ih =>
    rw [grouped_concat, addToGroup_filter, List.filter_append, ← ih]
    split
    · rename_i hp
      have hlast : [r].filter (fun r => p (key r)) = [r] := by simp [hp]
      rw [hlast, grouped_concat]
    · rename_i hp
      have hlast : [r].filter (fun r => p (key r)) = [] := by simp [hp]
      rw [hlast, List.append_nil]

/-! The first of the least rank. -/

def firstOfLeast (rank : α → Nat) (candidates : List α) : Option α :=
  (candidates.map rank).min?.bind fun best => candidates.find? fun c => rank c = best

theorem firstOfLeast_isSome {rank : α → Nat} {candidates : List α} (h : candidates ≠ []) :
    ∃ w, firstOfLeast rank candidates = some w := by
  obtain ⟨best, hbest⟩ : ∃ best, (candidates.map rank).min? = some best := by
    rw [← Option.isSome_iff_exists, List.isSome_min?_iff]
    simpa using h
  obtain ⟨c, hc, hrank⟩ := List.mem_map.mp (List.min?_mem hbest)
  rw [firstOfLeast, hbest, Option.bind_some, ← Option.isSome_iff_exists, List.find?_isSome]
  exact ⟨c, hc, decide_eq_true hrank⟩

/-- Among rows of which each stands before those that it beats at one rank, it beats all. -/
theorem firstOfLeast_spec {rank : α → Nat} {candidates : List α} {beats : α → α → Prop} {w : α}
    (horder : candidates.Pairwise beats) (h : firstOfLeast rank candidates = some w) :
    w ∈ candidates ∧ ∀ c ∈ candidates, c ≠ w → rank w < rank c ∨ rank w = rank c ∧ beats w c := by
  obtain ⟨best, hbest, hfind⟩ := Option.bind_eq_some_iff.mp h
  obtain ⟨hrank, before, after, rfl, hbefore⟩ := List.find?_eq_some_iff_append.mp hfind
  have hrank : rank w = best := of_decide_eq_true hrank
  refine ⟨by simp, ?_⟩
  intro c hc hne
  have hle : best ≤ rank c :=
    (List.min?_eq_some_iff.mp hbest).2 (rank c) (List.mem_map_of_mem hc)
  obtain hlt | heq := Nat.lt_or_eq_of_le hle
  · exact .inl (hrank ▸ hlt)
  · refine .inr ⟨hrank.trans heq, ?_⟩
    rw [List.mem_append, List.mem_cons] at hc
    obtain hc | rfl | hc := hc
    · have hskip := hbefore c hc
      rw [← heq] at hskip
      simp at hskip
    · exact absurd rfl hne
    · exact (List.pairwise_cons.mp (List.pairwise_append.mp horder).2.1).1 c hc

end Eyot
