import Mathlib.Data.List.Nodup

/-! Dictionaries as lists of items: no two of them under one key, the oldest key first. -/

universe u v

namespace Eyot.Dict

variable {κ : Type u} {ν : Type v}

def Distinct (d : List (κ × ν)) : Prop := (d.map Prod.fst).Nodup

theorem distinct_nil : Distinct ([] : List (κ × ν)) := List.nodup_nil

variable [DecidableEq κ]

def get? (d : List (κ × ν)) (k : κ) : Option ν := (d.find? fun kv => kv.1 = k).map Prod.snd

/-- A key that is there keeps its place. -/
def set (d : List (κ × ν)) (k : κ) (v : ν) : List (κ × ν) :=
  if d.any fun kv => kv.1 = k then d.map fun kv => if kv.1 = k then (k, v) else kv
  else d ++ [(k, v)]

/-- Items are set one after the other. -/
def update (d items : List (κ × ν)) : List (κ × ν) :=
  items.foldl (fun d kv => set d kv.1 kv.2) d

/-- `del d[k]` -/
def erase (d : List (κ × ν)) (k : κ) : List (κ × ν) := d.filter fun kv => kv.1 ≠ k

variable {d items : List (κ × ν)} {k k' : κ} {v : ν}

theorem get?_cons (kv : κ × ν) (d : List (κ × ν)) (k : κ) :
    get? (kv :: d) k = if kv.1 = k then some kv.2 else get? d k := by
  rw [get?, List.find?_cons]
  split
  · rename_i h
    rw [if_pos (of_decide_eq_true h)]
    rfl
  · rename_i h
    rw [if_neg (of_decide_eq_false h)]
    rfl

theorem get?_append (d d' : List (κ × ν)) (k : κ) :
    get? (d ++ d') k = (get? d k).or (get? d' k) := by
  rw [get?, List.find?_append, Option.map_or]
  rfl

theorem get?_eq_none : get? d k = none ↔ k ∉ d.map Prod.fst := by
  rw [get?, Option.map_eq_none_iff, List.find?_eq_none]
  constructor
  · intro h hk
    obtain ⟨kv, hkv, rfl⟩ := List.mem_map.mp hk
    exact h kv hkv (decide_eq_true rfl)
  · intro h kv hkv hk
    exact h (List.mem_map.mpr ⟨kv, hkv, of_decide_eq_true hk⟩)

theorem mem_of_get? (h : get? d k = some v) : (k, v) ∈ d := by
  obtain ⟨kv, hfind, rfl⟩ := Option.map_eq_some_iff.mp h
  have hk := List.find?_some hfind
  obtain rfl : kv.1 = k := of_decide_eq_true hk
  exact List.mem_of_find?_eq_some hfind

theorem get?_of_mem (hd : Distinct d) (h : (k, v) ∈ d) : get? d k = some v := by
  induction d with
  | nil => cases h
  | cons kv d ih =>
    rw [Distinct, List.map_cons, List.nodup_cons] at hd
    rw [get?_cons]
    rcases List.mem_cons.mp h with rfl | h
    · exact if_pos rfl
    · have hne : kv.1 ≠ k := by
        rintro rfl
        exact hd.1 (List.mem_map.mpr ⟨_, h, rfl⟩)
      rw [if_neg hne]
      exact ih hd.2 h

/-- Whatever stands under a key that is there is replaced. -/
theorem get?_map (hk : k ∈ d.map Prod.fst) :
    get? (d.map fun kv => if kv.1 = k then (k, v) else kv) k' =
      if k = k' then some v else get? d k' := by
  by_cases heq : k = k'
  · subst heq
    rw [if_pos rfl]
    induction d with
    | nil => cases hk
    | cons kv d ih =>
      rw [List.map_cons, get?_cons]
      by_cases hkv : kv.1 = k
      · rw [if_pos hkv, if_pos rfl]
      · rw [if_neg hkv, if_neg hkv]
        exact ih ((List.mem_cons.mp hk).resolve_left fun h => hkv h.symm)
  · rw [if_neg heq]
    clear hk
    induction d with
    | nil => rfl
    | cons kv d ih =>
      rw [List.map_cons, get?_cons, get?_cons, ih]
      by_cases hkv : kv.1 = k
      · rw [if_pos hkv, if_neg heq, if_neg fun h => heq (hkv.symm.trans h)]
      · rw [if_neg hkv]

theorem any_iff : (d.any fun kv => kv.1 = k) = true ↔ k ∈ d.map Prod.fst := by
  rw [List.any_eq_true, List.mem_map]
  exact exists_congr fun kv => and_congr_right fun _ => decide_eq_true_iff

theorem get?_set : get? (set d k v) k' = if k = k' then some v else get? d k' := by
  rw [set]
  by_cases hk : k ∈ d.map Prod.fst
  · rw [if_pos (any_iff.mpr hk), get?_map hk]
  · rw [if_neg (mt any_iff.mp hk), get?_append, get?_cons]
    by_cases heq : k = k'
    · subst heq
      rw [if_pos rfl, if_pos rfl, get?_eq_none.mpr hk, Option.none_or]
    · rw [if_neg heq, if_neg heq]
      exact Option.or_none

theorem keys_set : (set d k v).map Prod.fst =
    if k ∈ d.map Prod.fst then d.map Prod.fst else d.map Prod.fst ++ [k] := by
  rw [set]
  by_cases hk : k ∈ d.map Prod.fst
  · rw [if_pos (any_iff.mpr hk), if_pos hk, List.map_map]
    refine List.map_congr_left fun kv _ => ?_
    rw [Function.comp_apply]
    split
    · rename_i h
      exact h.symm
    · rfl
  · rw [if_neg (mt any_iff.mp hk), if_neg hk, List.map_append]
    rfl

theorem distinct_set (hd : Distinct d) : Distinct (set d k v) := by
  rw [Distinct, keys_set]
  split
  · exact hd
  · rename_i hk
    exact List.nodup_append.mpr ⟨hd, List.nodup_singleton k, by
      rintro a ha b hb rfl
      exact hk (List.mem_singleton.mp hb ▸ ha)⟩

theorem set_of_not_mem (hk : k ∉ d.map Prod.fst) : set d k v = d ++ [(k, v)] :=
  if_neg (mt any_iff.mp hk)

/-- To set what is there already changes nothing. -/
theorem set_of_get? (hd : Distinct d) (h : get? d k = some v) : set d k v = d := by
  have hmem := mem_of_get? h
  rw [set, if_pos (any_iff.mpr (List.mem_map.mpr ⟨_, hmem, rfl⟩))]
  conv_rhs => rw [← List.map_id d]
  refine List.map_congr_left fun kv hkv => ?_
  split
  · rename_i hk
    have hkv' := get?_of_mem hd hkv
    rw [hk, h] at hkv'
    rw [id, Option.some.inj hkv', ← hk]
  · rfl

theorem get?_erase : get? (erase d k) k' = if k = k' then none else get? d k' := by
  induction d with
  | nil => exact (ite_self none).symm
  | cons kv d ih =>
    rw [erase, List.filter_cons, get?_cons]
    by_cases hk : kv.1 = k
    · rw [if_neg (by simp [hk])]
      refine ih.trans ?_
      by_cases heq : k = k'
      · rw [if_pos heq, if_pos heq]
      · rw [if_neg heq, if_neg heq, if_neg fun h => heq (hk.symm.trans h)]
    · rw [if_pos (decide_eq_true hk), get?_cons]
      by_cases hk' : kv.1 = k'
      · rw [if_pos hk', if_neg fun h => hk (hk'.trans h.symm), if_pos hk']
      · rw [if_neg hk', if_neg hk']
        exact ih

theorem distinct_erase (hd : Distinct d) (k : κ) : Distinct (erase d k) :=
  List.Nodup.sublist (List.filter_sublist.map Prod.fst) hd

theorem distinct_update (hd : Distinct d) (items : List (κ × ν)) : Distinct (update d items) := by
  induction items generalizing d with
  | nil => exact hd
  | cons kv items ih => exact ih (distinct_set hd)

theorem mem_keys_update (h : k ∈ (update d items).map Prod.fst) :
    k ∈ d.map Prod.fst ∨ k ∈ items.map Prod.fst := by
  induction items generalizing d with
  | nil => exact .inl h
  | cons kv items ih =>
    rcases ih (d := set d kv.1 kv.2) h with h | h
    · rw [keys_set] at h
      split at h
      · exact .inl h
      · rcases List.mem_append.mp h with h | h
        · exact .inl h
        · exact .inr (List.mem_cons.mpr (.inl (List.mem_singleton.mp h)))
    · exact .inr (List.mem_cons_of_mem _ h)

/-- The last item under a key counts. -/
theorem get?_update (d items : List (κ × ν)) (k : κ) :
    get? (update d items) k = (get? items.reverse k).or (get? d k) := by
  induction items generalizing d with
  | nil => rfl
  | cons kv items ih =>
    change get? (update (set d kv.1 kv.2) items) k = _
    rw [ih, List.reverse_cons, get?_append, get?_set, get?_cons, Option.or_assoc]
    by_cases hk : kv.1 = k
    · rw [if_pos hk, if_pos hk, Option.some_or]
    · rw [if_neg hk, if_neg hk]
      rfl

theorem get?_reverse (hd : Distinct d) (k : κ) : get? d.reverse k = get? d k := by
  have hd' : Distinct d.reverse := by
    rw [Distinct, List.map_reverse]
    exact List.nodup_reverse.mpr hd
  cases h : get? d k with
  | none =>
    rw [get?_eq_none] at h ⊢
    rwa [List.map_reverse, List.mem_reverse]
  | some v => exact get?_of_mem hd' (List.mem_reverse.mpr (mem_of_get? h))

theorem get?_merge (d : List (κ × ν)) (hitems : Distinct items) (k : κ) :
    get? (update d items) k = (get? items k).or (get? d k) := by
  rw [get?_update, get?_reverse hitems]

end Eyot.Dict
