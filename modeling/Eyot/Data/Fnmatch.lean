import Eyot.Data.Text
import Mathlib.Data.List.Infix

/-! Shell patterns, as `fnmatch.fnmatchcase` reads them. -/

namespace Eyot.Fnmatch

inductive Glob where
  | star
  | one
  | char (c : Char)
  | among (negated : Bool) (ranges : List (Char × Char))
  deriving DecidableEq

def Glob.accepts : Glob → Char → Bool
  | .star, _ | .one, _ => true
  | .char d, c => c = d
  | .among negated ranges, c => negated != ranges.any fun r => r.1 ≤ c && c ≤ r.2

def ranges : Str → List (Char × Char)
  | c :: '-' :: d :: cs => (c, d) :: ranges cs
  | c :: cs => (c, c) :: ranges cs
  | [] => []

/-- What stands behind an opening bracket, up to the one that closes it. -/
def bracket (pat : Str) : Option (Glob × Str) :=
  let (negated, pat) := match pat with
    | '!' :: cs => (true, cs)
    | cs => (false, cs)
  let (lead, pat) := match pat with
    | ']' :: cs => ([']'], cs)
    | cs => ([], cs)
  if ']' ∈ pat then
    some (.among negated (ranges (lead ++ pat.takeWhile (· ≠ ']'))),
      (pat.dropWhile (· ≠ ']')).tail)
  else none

def translateFrom : Nat → Str → List Glob
  | 0, _ | _, [] => []
  | n + 1, '*' :: cs => .star :: translateFrom n cs
  | n + 1, '?' :: cs => .one :: translateFrom n cs
  | n + 1, '[' :: cs =>
    match bracket cs with
    | some (g, cs) => g :: translateFrom n cs
    | none => .char '[' :: translateFrom n cs
  | n + 1, c :: cs => .char c :: translateFrom n cs

def translate (pat : Str) : List Glob := translateFrom pat.length pat

def fullmatch : List Glob → Str → Bool
  | [], name => name.isEmpty
  | .star :: gs, name => name.tails.any (fullmatch gs)
  | g :: gs, c :: name => g.accepts c && fullmatch gs name
  | _ :: _, [] => false

def fnmatchcase (name pat : Str) : Bool := fullmatch (translate pat) name

theorem fullmatch_chars (l name : Str) (gs : List Glob) :
    fullmatch (l.map .char ++ gs) (l ++ name) = fullmatch gs name := by
  induction l with
  | nil => rfl
  | cons c l ih => simp [fullmatch, Glob.accepts, ih]

theorem fullmatch_star (name : Str) : fullmatch [.star] name = true := by
  simp only [fullmatch, List.any_eq_true, List.mem_tails]
  exact ⟨[], List.nil_suffix, rfl⟩

theorem translateFrom_literal {l : Str} (h : ∀ c ∈ l, c ≠ '*' ∧ c ≠ '?' ∧ c ≠ '[') (pat : Str)
    (n : Nat) : translateFrom (l.length + n) (l ++ pat) = l.map .char ++ translateFrom n pat := by
  induction l with
  | nil => simp
  | cons c l ih =>
    obtain ⟨hc, hl⟩ := List.forall_mem_cons.mp h
    rw [List.length_cons, Nat.add_right_comm, List.cons_append, translateFrom, ih hl,
      List.map_cons, List.cons_append]
    · exact hc.1
    · exact hc.2.1
    · exact hc.2.2

/-- A literal pattern with a star at its end asks for no more than its prefix. -/
theorem fnmatchcase_prefix {l : Str} (h : ∀ c ∈ l, c ≠ '*' ∧ c ≠ '?' ∧ c ≠ '[') (name : Str) :
    fnmatchcase (l ++ name) (l ++ ['*']) = true := by
  rw [fnmatchcase, translate, List.length_append, translateFrom_literal h, fullmatch_chars]
  exact fullmatch_star name

example : fnmatchcase "harness.checkpoint".toList "harness.*".toList = true := by decide

end Eyot.Fnmatch
