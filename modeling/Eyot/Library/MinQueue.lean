import Mathlib.Data.Multiset.Basic
import Mathlib.Order.Lattice

/-! A queue that gives out the least of what is in it. -/

universe u v

namespace Eyot.MinQueue

variable {α : Type u} {κ : Type v} [LinearOrder κ] (key : α → κ)

def popMin : List α → Option (α × List α)
  | [] => none
  | a :: l =>
    match popMin l with
    | none => some (a, [])
    | some (m, rest) => if key a ≤ key m then some (a, l) else some (m, a :: rest)

variable {key} {l rest : List α} {m : α}

theorem popMin_eq_none : popMin key l = none ↔ l = [] := by
  cases l with
  | nil => exact iff_of_true rfl rfl
  | cons a l =>
    refine iff_of_false ?_ (List.cons_ne_nil a l)
    rw [popMin]
    split
    · exact Option.some_ne_none _
    · split <;> exact Option.some_ne_none _

theorem popMin_spec (h : popMin key l = some (m, rest)) :
    l.Perm (m :: rest) ∧ ∀ a ∈ rest, key m ≤ key a := by
  induction l generalizing m rest with
  | nil => cases h
  | cons a l ih =>
    rw [popMin] at h
    cases hl : popMin key l with
    | none =>
      rw [hl] at h
      cases h
      rw [popMin_eq_none.mp hl]
      exact ⟨.refl _, nofun⟩
    | some out =>
      obtain ⟨m', rest'⟩ := out
      obtain ⟨hperm, hleast⟩ := ih hl
      rw [hl] at h
      dsimp only at h
      split at h
      · rename_i hle
        cases h
        refine ⟨.refl _, fun b hb => ?_⟩
        obtain rfl | hb := List.mem_cons.mp (hperm.mem_iff.mp hb)
        · exact hle
        · exact hle.trans (hleast b hb)
      · rename_i hnot
        cases h
        refine ⟨(hperm.cons a).trans (.swap _ _ _), fun b hb => ?_⟩
        obtain rfl | hb := List.mem_cons.mp hb
        · exact (not_le.mp hnot).le
        · exact hleast b hb

/-- What holds of all that waits, and of all that is greater, still holds when one more has come and
the least has gone. -/
theorem forall_popMin_cons {U : κ → Prop} (hup : ∀ a b, a ≤ b → U a → U b)
    (hl : ∀ a ∈ l, U (key a)) {a : α} (h : popMin key (a :: l) = some (m, rest)) :
    ∀ b ∈ rest, U (key b) := by
  obtain ⟨hperm, hleast⟩ := popMin_spec h
  intro b hb
  by_cases hm : m ∈ l
  · exact hup _ _ (hleast b hb) (hl m hm)
  · obtain rfl : m = a := by
      simpa [hm] using hperm.mem_iff.mpr List.mem_cons_self
    exact hl b (hperm.cons_inv.mem_iff.mpr hb)

theorem mem_of_popMin (h : popMin key l = some (m, rest)) {a : α} (ha : a ∈ rest) : a ∈ l :=
  (popMin_spec h).1.mem_iff.mpr (List.mem_cons_of_mem m ha)

end Eyot.MinQueue
