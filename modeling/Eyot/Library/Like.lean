import Mathlib.Data.List.Infix

/-! `LIKE` patterns with an escape sign. -/

universe u

namespace Eyot.Like

/-- What stands for any text, what for any one character, and what takes the sign after it as it
stands. -/
structure Signs (α : Type u) where
  any : α
  one : α
  escape : α
  any_ne_one : any ≠ one
  any_ne_escape : any ≠ escape
  one_ne_escape : one ≠ escape

namespace Signs

variable {α : Type u} [DecidableEq α] (σ : Signs α)

/-- The flag says that the sign before was the escape. -/
def matchesFrom : Bool → List α → List α → Bool
  | escaped, [], l => !escaped && l.isEmpty
  | true, a :: pat, l => decide (l.head? = some a) && matchesFrom false pat l.tail
  | false, a :: pat, l =>
    if a = σ.escape then matchesFrom true pat l
    else if a = σ.any then l.tails.any (matchesFrom false pat)
    else (a = σ.one && !l.isEmpty || decide (l.head? = some a)) && matchesFrom false pat l.tail

def like (pat l : List α) : Bool := σ.matchesFrom false pat l

def replaceOne (old : α) (new l : List α) : List α :=
  l.flatMap fun a => if a = old then new else [a]

/-- The escape is put before every sign, the escape itself first. -/
def escapeLiteral (l : List α) : List α :=
  replaceOne σ.one [σ.escape, σ.one]
    (replaceOne σ.any [σ.escape, σ.any] (replaceOne σ.escape [σ.escape, σ.escape] l))

def isSign (a : α) : Prop := a = σ.escape ∨ a = σ.any ∨ a = σ.one

theorem escapeLiteral_nil : σ.escapeLiteral [] = [] := rfl

theorem escapeLiteral_append (l l' : List α) :
    σ.escapeLiteral (l ++ l') = σ.escapeLiteral l ++ σ.escapeLiteral l' := by
  simp only [escapeLiteral, replaceOne, List.flatMap_append]

theorem escapeLiteral_sign {a : α} (h : σ.isSign a) : σ.escapeLiteral [a] = [σ.escape, a] := by
  have h₁ := σ.any_ne_one
  have h₂ := σ.any_ne_escape
  have h₃ := σ.one_ne_escape
  obtain rfl | rfl | rfl := h
  · simp [escapeLiteral, replaceOne, h₂.symm, h₃.symm]
  · simp [escapeLiteral, replaceOne, h₁, h₂, h₃.symm]
  · simp [escapeLiteral, replaceOne, h₁.symm, h₃]

theorem escapeLiteral_plain {a : α} (h : ¬ σ.isSign a) : σ.escapeLiteral [a] = [a] := by
  obtain ⟨hescape, hany, hone⟩ := not_or.mp h |>.imp_right not_or.mp
  simp [escapeLiteral, replaceOne, hescape, hany, hone]

omit [DecidableEq α] in
theorem head?_eq_some_and {a : α} {l : List α} {p : List α → Prop} :
    (l.head? = some a ∧ p l.tail) ↔ ∃ rest, l = a :: rest ∧ p rest := by
  cases l with
  | nil => simp
  | cons b l => simp [eq_comm]

theorem like_escapeLiteral_singleton (a : α) (pat l : List α) :
    σ.like (σ.escapeLiteral [a] ++ pat) l = true ↔
      ∃ rest, l = a :: rest ∧ σ.like pat rest = true := by
  rw [← head?_eq_some_and]
  by_cases h : σ.isSign a
  · rw [escapeLiteral_sign σ h, like, List.cons_append, List.cons_append, List.nil_append,
      matchesFrom, if_pos rfl, matchesFrom, Bool.and_eq_true, decide_eq_true_eq]
    rfl
  · rw [escapeLiteral_plain σ h]
    obtain ⟨hescape, hany, hone⟩ := not_or.mp h |>.imp_right not_or.mp
    rw [like, List.cons_append, List.nil_append, matchesFrom, if_neg hescape, if_neg hany]
    simp [hone, like]

/-- An escaped text matches itself and nothing else. -/
theorem like_escapeLiteral (literal pat l : List α) :
    σ.like (σ.escapeLiteral literal ++ pat) l = true ↔
      ∃ rest, l = literal ++ rest ∧ σ.like pat rest = true := by
  induction literal generalizing l with
  | nil => simp [escapeLiteral_nil]
  | cons a literal ih =>
    rw [← List.singleton_append, escapeLiteral_append, List.append_assoc,
      like_escapeLiteral_singleton]
    constructor
    · rintro ⟨rest, rfl, h⟩
      obtain ⟨rest', rfl, h'⟩ := (ih rest).mp h
      exact ⟨rest', rfl, h'⟩
    · rintro ⟨rest, rfl, h⟩
      exact ⟨literal ++ rest, rfl, (ih _).mpr ⟨rest, rfl, h⟩⟩

theorem like_any (l : List α) : σ.like [σ.any] l = true := by
  rw [like, matchesFrom, if_neg σ.any_ne_escape, if_pos rfl, List.any_eq_true]
  exact ⟨[], (List.mem_tails _ _).mpr (List.nil_suffix), rfl⟩

/-- With the sign for any text at the end, the text is asked for as a prefix. -/
theorem like_prefix (literal l : List α) :
    σ.like (σ.escapeLiteral literal ++ [σ.any]) l = true ↔ literal <+: l := by
  rw [like_escapeLiteral]
  constructor
  · rintro ⟨rest, rfl, -⟩
    exact List.prefix_append literal rest
  · rintro ⟨rest, rfl⟩
    exact ⟨rest, rfl, σ.like_any rest⟩

end Signs

end Eyot.Like
