import Mathlib.Data.List.Sort

/-! Sorting by a key.  Elements of one key keep their order, so that the sort of a list is told
by what it has under each key, in order. -/

universe u v

namespace Eyot

variable {α : Type u} {κ : Type v} [LinearOrder κ]

def sortBy (key : α → κ) (l : List α) : List α :=
  l.insertionSort fun a b => key a ≤ key b

/-- The elements of one key, in the order of the list. -/
def under (key : α → κ) (k : κ) (l : List α) : List α := l.filter fun a => key a = k

variable {key : α → κ}

theorem mem_under {k : κ} {l : List α} {a : α} : a ∈ under key k l ↔ a ∈ l ∧ key a = k := by
  simp [under]

theorem sortBy_perm (key : α → κ) (l : List α) : (sortBy key l).Perm l :=
  List.perm_insertionSort _ l

theorem mem_sortBy {l : List α} {a : α} : a ∈ sortBy key l ↔ a ∈ l := (sortBy_perm key l).mem_iff

theorem pairwise_sortBy (key : α → κ) (l : List α) :
    (sortBy key l).Pairwise fun a b => key a ≤ key b := by
  have : Std.Total fun a b => key a ≤ key b := ⟨fun a b => le_total (key a) (key b)⟩
  have : IsTrans α fun a b => key a ≤ key b := ⟨fun _ _ _ hab hbc => hab.trans hbc⟩
  exact List.pairwise_insertionSort _ l

theorem under_sortBy (k : κ) (l : List α) : under key k (sortBy key l) = under key k l := by
  have hlevel : (under key k l).Pairwise fun a b => key a ≤ key b := by
    apply List.pairwise_of_forall_mem_list
    intro a ha b hb
    exact ((mem_under.mp ha).2.trans (mem_under.mp hb).2.symm).le
  have hsub : (under key k l).Sublist (sortBy key l) :=
    List.sublist_insertionSort hlevel List.filter_sublist
  have hkeep : under key k (under key k l) = under key k l := by simp [under]
  have hfilter : (under key k (under key k l)).Sublist (under key k (sortBy key l)) :=
    hsub.filter _
  rw [hkeep] at hfilter
  exact (hfilter.eq_of_length ((sortBy_perm key l).filter _).length_eq.symm).symm

theorem mem_iff_of_under {l m : List α} (h : ∀ k, under key k l = under key k m) (a : α) :
    a ∈ l ↔ a ∈ m := by
  have hhere := congrArg (a ∈ ·) (h (key a))
  simpa [mem_under] using hhere

/-- Lists in the order of their keys are told by what they have under each key. -/
theorem eq_of_under_eq {l m : List α} (hl : l.Pairwise fun a b => key a ≤ key b)
    (hm : m.Pairwise fun a b => key a ≤ key b) (h : ∀ k, under key k l = under key k m) :
    l = m := by
  have hmem := mem_iff_of_under h
  induction l generalizing m with
  | nil =>
    exact (List.eq_nil_iff_forall_not_mem.mpr fun a ha => List.not_mem_nil ((hmem a).mpr ha)).symm
  | cons a l ih =>
    cases m with
    | nil => exact absurd ((hmem a).mp List.mem_cons_self) List.not_mem_nil
    | cons b m =>
      rw [List.pairwise_cons] at hl hm
      have hab : key a ≤ key b := by
        rcases List.mem_cons.mp ((hmem b).mpr List.mem_cons_self) with rfl | hb
        · exact le_rfl
        · exact hl.1 b hb
      have hba : key b ≤ key a := by
        rcases List.mem_cons.mp ((hmem a).mp List.mem_cons_self) with rfl | ha
        · exact le_rfl
        · exact hm.1 a ha
      have hkey : key b = key a := le_antisymm hba hab
      have hhead := h (key a)
      simp only [under, List.filter_cons, hkey, decide_true, if_true, List.cons.injEq] at hhead
      obtain ⟨rfl, -⟩ := hhead
      have htail : ∀ k, under key k l = under key k m := by
        intro k
        have hk := h k
        simp only [under, List.filter_cons] at hk
        split at hk
        · exact (List.cons.inj hk).2
        · exact hk
      rw [ih hl.2 hm.2 htail (mem_iff_of_under htail)]

theorem sortBy_eq_iff {l m : List α} :
    sortBy key l = sortBy key m ↔ ∀ k, under key k l = under key k m := by
  constructor
  · intro h k
    rw [← under_sortBy k l, h, under_sortBy]
  · intro h
    apply eq_of_under_eq (pairwise_sortBy key l) (pairwise_sortBy key m)
    intro k
    rw [under_sortBy, under_sortBy, h k]

/-- Where no two elements have one key, the order of the list does not matter. -/
theorem sortBy_congr_perm {l m : List α} (hperm : l.Perm m) (hnodup : (l.map key).Nodup) :
    sortBy key l = sortBy key m := by
  have hsorted : (sortBy key l).Perm (sortBy key m) :=
    (sortBy_perm key l).trans (hperm.trans (sortBy_perm key m).symm)
  apply hsorted.eq_of_pairwise _ (pairwise_sortBy key l) (pairwise_sortBy key m)
  intro a b ha hb hab hba
  have ha := mem_sortBy.mp ha
  have hb := hperm.mem_iff.mpr (mem_sortBy.mp hb)
  exact List.inj_on_of_nodup_map hnodup ha hb (le_antisymm hab hba)

/-- Leaving rows out does not change the order of the others. -/
theorem sortBy_filter (p : α → Bool) (l : List α) :
    sortBy key (l.filter p) = (sortBy key l).filter p := by
  apply eq_of_under_eq (pairwise_sortBy key _) ((pairwise_sortBy key l).filter p)
  intro k
  have hcomm (l : List α) : under key k (l.filter p) = (under key k l).filter p := by
    rw [under, under, List.filter_filter, List.filter_filter]
    exact List.filter_congr fun a _ => Bool.and_comm _ _
  rw [under_sortBy, hcomm, hcomm, under_sortBy]

theorem perm_of_sortBy_eq {l m : List α} (h : sortBy key l = sortBy key m) : l.Perm m :=
  (sortBy_perm key l).symm.trans (h ▸ sortBy_perm key m)

end Eyot
