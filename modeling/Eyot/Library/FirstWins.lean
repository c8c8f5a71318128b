import Eyot.Library.StableSort
import Mathlib.Data.List.Nodup
import Mathlib.Data.List.Perm.Subperm

/-! Lists that are merged by a key, where the first element under a key stays, and what the order
of the merged lists has to do with it. -/

universe u v w

namespace Eyot

variable {α : Type u} {β : Type v} {κ : Type w}

/-- The values `f` finds along the list are all one. -/
def Agree (f : α → Option β) (l : List α) : Prop :=
  ∀ a ∈ l, ∀ b ∈ l, ∀ x y, f a = some x → f b = some y → x = y

theorem Agree.perm {f : α → Option β} {l m : List α} (h : Agree f l) (hperm : l.Perm m) :
    Agree f m := by
  intro a ha b hb
  exact h a (hperm.mem_iff.mpr ha) b (hperm.mem_iff.mpr hb)

theorem findSome?_perm {f : α → Option β} {l m : List α} (h : Agree f l) (hperm : l.Perm m) :
    l.findSome? f = m.findSome? f := by
  cases hl : l.findSome? f with
  | none =>
    symm
    rw [List.findSome?_eq_none_iff] at hl ⊢
    intro a ha
    exact hl a (hperm.mem_iff.mpr ha)
  | some x =>
    cases hm : m.findSome? f with
    | none =>
      rw [List.findSome?_eq_none_iff] at hm
      obtain ⟨a, ha, hx⟩ := List.exists_of_findSome?_eq_some hl
      rw [hm a (hperm.mem_iff.mp ha)] at hx
      cases hx
    | some y =>
      obtain ⟨a, ha, hx⟩ := List.exists_of_findSome?_eq_some hl
      obtain ⟨b, hb, hy⟩ := List.exists_of_findSome?_eq_some hm
      rw [h a ha b (hperm.mem_iff.mpr hb) x y hx hy]

theorem exists_perm_cons {a : α} {l : List α} (ha : a ∈ l) : ∃ rest, l.Perm (a :: rest) := by
  obtain ⟨s, t, rfl⟩ := List.append_of_mem ha
  exact ⟨s ++ t, List.perm_middle⟩

/-- The first value is the same in whatever order exactly when there is no other. -/
theorem agree_iff {f : α → Option β} {l : List α} :
    Agree f l ↔ ∀ m, l.Perm m → m.findSome? f = l.findSome? f := by
  constructor
  · intro h m hperm
    exact (findSome?_perm h hperm).symm
  · intro h a ha b hb x y hx hy
    obtain ⟨s, hs⟩ := exists_perm_cons ha
    obtain ⟨t, ht⟩ := exists_perm_cons hb
    have hfirst := h _ hs
    rw [List.findSome?_cons, hx] at hfirst
    have hsecond := h _ ht
    rw [List.findSome?_cons, hy, ← hfirst] at hsecond
    exact (Option.some.inj hsecond).symm

/-- Of two lists one behind the other, the second only counts where the first has no value. -/
theorem agree_append_iff {f : α → Option β} {p : α → Bool} {l m : List α} :
    (∀ l' m', l.Perm l' → m.Perm m' →
      (l' ++ m'.filter p).findSome? f = (l ++ m.filter p).findSome? f) ↔
    Agree f l ∧ ((∀ a ∈ l, f a = none) → Agree f (m.filter p)) := by
  simp only [List.findSome?_append]
  constructor
  · intro h
    constructor
    · rw [agree_iff]
      intro l' hl
      have hfirst := h l' m hl (.refl m)
      cases hl' : l'.findSome? f with
      | some x =>
        cases hl'' : l.findSome? f with
        | some y =>
          rw [hl', hl''] at hfirst
          exact hfirst
        | none =>
          rw [List.findSome?_eq_none_iff] at hl''
          obtain ⟨a, ha, hx⟩ := List.exists_of_findSome?_eq_some hl'
          rw [hl'' a (hl.mem_iff.mpr ha)] at hx
          cases hx
      | none =>
        symm
        rw [List.findSome?_eq_none_iff] at hl' ⊢
        intro a ha
        exact hl' a (hl.mem_iff.mp ha)
    · intro hnone a ha b hb x y hx hy
      rw [List.mem_filter] at ha hb
      obtain ⟨s, hs⟩ := exists_perm_cons ha.1
      obtain ⟨t, ht⟩ := exists_perm_cons hb.1
      have hfirst := h l _ (.refl l) hs
      have hsecond := h l _ (.refl l) ht
      rw [List.findSome?_eq_none_iff.mpr hnone, Option.none_or, Option.none_or, List.filter_cons, ha.2,
        if_pos rfl, List.findSome?_cons, hx] at hfirst
      rw [List.findSome?_eq_none_iff.mpr hnone, Option.none_or, Option.none_or, List.filter_cons, hb.2,
        if_pos rfl, List.findSome?_cons, hy, ← hfirst] at hsecond
      exact (Option.some.inj hsecond).symm
  · rintro ⟨hfirst, hsecond⟩ l' m' hl hm
    rw [← findSome?_perm hfirst hl]
    cases hl' : l.findSome? f with
    | some x => rfl
    | none =>
      rw [Option.none_or, Option.none_or]
      exact (findSome?_perm (hsecond (List.findSome?_eq_none_iff.mp hl')) (hm.filter p)).symm

section Merge

variable [LinearOrder κ] (key : α → κ)

def mergeBy (merged : List α) (a : α) : List α :=
  if merged.any fun m => key m = key a then merged else merged ++ [a]

variable {key}

theorem any_key_iff {merged : List α} {k : κ} :
    (merged.any fun m => key m = k) = true ↔ under key k merged ≠ [] := by
  rw [List.any_eq_true, under, ne_eq, List.filter_eq_nil_iff]
  simp

theorem under_mergeBy (merged : List α) (a : α) (k : κ) :
    under key k (mergeBy key merged a) =
      if under key k merged = [] then under key k [a] else under key k merged := by
  unfold mergeBy
  by_cases hka : key a = k
  · subst hka
    by_cases hnil : under key (key a) merged = []
    · rw [if_pos hnil, if_neg (fun h => any_key_iff.mp h hnil), under, List.filter_append]
      change under key (key a) merged ++ under key (key a) [a] = _
      rw [hnil, List.nil_append]
    · rw [if_neg hnil, if_pos (any_key_iff.mpr hnil)]
  · have hnone : under key k [a] = [] := by simp [under, hka]
    have hsame : under key k (merged ++ [a]) = under key k merged := by
      rw [under, List.filter_append]
      change under key k merged ++ under key k [a] = _
      rw [hnone, List.append_nil]
    rw [hnone]
    split <;> split <;> simp_all

/-- What stays under a key is what was there, or else the first that came. -/
theorem under_foldl_mergeBy (l merged : List α) (k : κ) :
    under key k (l.foldl (mergeBy key) merged) =
      if under key k merged = [] then (under key k l).head?.toList else under key k merged := by
  induction l generalizing merged with
  | nil =>
    by_cases hnil : under key k merged = []
    · rw [if_pos hnil]
      exact hnil
    · rw [if_neg hnil]
      rfl
  | cons a l ih =>
    rw [List.foldl_cons, ih, under_mergeBy]
    by_cases hnil : under key k merged = []
    · rw [if_pos hnil, if_pos hnil]
      by_cases hka : key a = k
      · simp [under, hka]
      · simp [under, hka]
    · rw [if_neg hnil, if_neg hnil, if_neg hnil]

theorem mem_foldl_mergeBy_key {l merged : List α} {k : κ} :
    (∃ a ∈ l.foldl (mergeBy key) merged, key a = k) ↔ ∃ a ∈ merged ++ l, key a = k := by
  have hunder (m : List α) : (∃ a ∈ m, key a = k) ↔ under key k m ≠ [] := by
    rw [under, ne_eq, List.filter_eq_nil_iff]
    simp
  rw [hunder, hunder, under_foldl_mergeBy]
  have happend : under key k (merged ++ l) = under key k merged ++ under key k l :=
    List.filter_append ..
  rw [happend]
  by_cases hnil : under key k merged = []
  · rw [if_pos hnil, hnil, List.nil_append]
    cases under key k l <;> simp
  · rw [if_neg hnil]
    simp [hnil]

theorem all_foldl_mergeBy (p : κ → Bool) (l merged : List α) :
    ((l.foldl (mergeBy key) merged).all fun a => p (key a)) =
      (merged ++ l).all fun a => p (key a) := by
  rw [Bool.eq_iff_iff, List.all_eq_true, List.all_eq_true]
  constructor
  · intro h a ha
    have hkeys : ∃ b ∈ l.foldl (mergeBy key) merged, key b = key a :=
      mem_foldl_mergeBy_key.mpr ⟨a, ha, rfl⟩
    obtain ⟨b, hb, hkey⟩ := hkeys
    exact hkey ▸ h b hb
  · intro h a ha
    have hkeys : ∃ b ∈ merged ++ l, key b = key a := mem_foldl_mergeBy_key.mp ⟨a, ha, rfl⟩
    obtain ⟨b, hb, hkey⟩ := hkeys
    exact hkey ▸ h b hb

theorem head?_under_flatMap {γ : Type v} (f : γ → List α) (l : List γ) (k : κ) :
    (under key k (l.flatMap f)).head? = l.findSome? fun c => (under key k (f c)).head? := by
  induction l with
  | nil => rfl
  | cons c l ih =>
    have happend : under key k ((c :: l).flatMap f) =
        under key k (f c) ++ under key k (l.flatMap f) := by
      rw [List.flatMap_cons]
      exact List.filter_append ..
    rw [happend, List.findSome?_cons, List.head?_append, ih]
    cases (under key k (f c)).head? with
    | some a => rfl
    | none => rfl

end Merge

end Eyot

/-! The first of a row of candidates that is not taken yet. -/

namespace Eyot

variable {α : Type u} [DecidableEq α] (taken : List α) (candidate : Nat → α)

/-- One more candidate than is taken is enough. -/
def firstFree : α :=
  (((List.range (taken.length + 1)).map candidate).find? fun a => a ∉ taken).getD (candidate 0)

variable {taken candidate}

theorem exists_free (h : Function.Injective candidate) :
    ∃ n ≤ taken.length, candidate n ∉ taken := by
  by_contra hall
  have hsub : (List.range (taken.length + 1)).map candidate ⊆ taken := by
    intro a ha
    obtain ⟨n, hn, rfl⟩ := List.mem_map.mp ha
    by_contra hfree
    exact hall ⟨n, Nat.le_of_lt_succ (List.mem_range.mp hn), hfree⟩
  have hlen := ((List.Nodup.map h List.nodup_range).subperm hsub).length_le
  rw [List.length_map, List.length_range] at hlen
  exact Nat.not_succ_le_self _ hlen

theorem firstFree_not_mem (h : Function.Injective candidate) : firstFree taken candidate ∉ taken := by
  obtain ⟨n, hn, hfree⟩ := @exists_free _ _ taken _ h
  unfold firstFree
  cases hfound : ((List.range (taken.length + 1)).map candidate).find? fun a => a ∉ taken with
  | none =>
    have hnone := List.find?_eq_none.mp hfound (candidate n)
      (List.mem_map_of_mem (List.mem_range.mpr (Nat.lt_succ_of_le hn)))
    exact absurd (decide_eq_true hfree) hnone
  | some a =>
    have hfree := List.find?_some hfound
    exact of_decide_eq_true hfree

end Eyot
