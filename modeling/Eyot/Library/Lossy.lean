import Mathlib.Data.List.Basic
import Mathlib.Data.Nat.Basic

/-! A link that loses some of what is sent, and keeps the order of the rest. -/

namespace Eyot.Lossy

universe u

variable {α : Type u}

/-- What comes through, where `lost k` says that the item with number `k` does not. -/
def kept : (Nat → Bool) → List α → List α
  | _, [] => []
  | lost, a :: as =>
    if lost 0 then kept (fun k => lost (k + 1)) as else a :: kept (fun k => lost (k + 1)) as

theorem kept_sublist (lost : Nat → Bool) (as : List α) : (kept lost as).Sublist as := by
  induction as generalizing lost with
  | nil => exact .slnil
  | cons a as ih =>
    rw [kept]
    split
    · exact (ih _).cons a
    · exact (ih _).cons_cons a

/-- Everything comes through exactly if nothing is lost. -/
theorem kept_eq_iff {lost : Nat → Bool} {as : List α} :
    kept lost as = as ↔ ∀ k < as.length, lost k = false := by
  induction as generalizing lost with
  | nil => simp [kept]
  | cons a as ih =>
    rw [List.length_cons, Nat.forall_lt_succ_left, kept]
    cases lost 0 with
    | false => simp [ih]
    | true =>
      refine iff_of_false (fun h => ?_) fun h => by cases h.1
      have hle := (kept_sublist (fun k => lost (k + 1)) as).length_le
      rw [if_pos rfl] at h
      rw [h] at hle
      exact Nat.not_succ_le_self _ hle

theorem length_flatten_le {ps qs : List (List α)} (h : ps.Sublist qs) :
    ps.flatten.length ≤ qs.flatten.length := by
  induction h with
  | slnil => exact Nat.le_refl _
  | cons q _ ih =>
    rw [List.flatten_cons, List.length_append]
    exact Nat.le_add_left_of_le ih
  | cons_cons q _ ih =>
    rw [List.flatten_cons, List.flatten_cons, List.length_append, List.length_append]
    exact Nat.add_le_add_left ih _

/-- Pieces that are not empty are all there if they are as long as the whole. -/
theorem eq_of_length_flatten {ps qs : List (List α)} (h : ps.Sublist qs)
    (hne : ∀ q ∈ qs, q ≠ []) (hlen : ps.flatten.length = qs.flatten.length) : ps = qs := by
  induction h with
  | slnil => rfl
  | cons q h ih =>
    rw [List.forall_mem_cons] at hne
    have hpos := List.length_pos_iff.mpr hne.1
    have hle := length_flatten_le h
    rw [List.flatten_cons, List.length_append] at hlen
    omega
  | cons_cons q h ih =>
    rw [List.forall_mem_cons] at hne
    rw [List.flatten_cons, List.flatten_cons, List.length_append, List.length_append,
      Nat.add_left_cancel_iff] at hlen
    rw [ih hne.2 hlen]

end Eyot.Lossy
