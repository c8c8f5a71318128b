import Mathlib.Data.List.Basic

/-! Frames that are cut off the front of a text while the text comes in piece by piece. -/

universe u

namespace Eyot

/-- What is left over by one cut stays in front of the next piece. -/
structure Framer (α : Type u) where
  cut : List α → List (List α) × List α
  cut_nil : cut [] = ([], [])
  cut_append : ∀ a b, cut (a ++ b) =
    ((cut a).1 ++ (cut ((cut a).2 ++ b)).1, (cut ((cut a).2 ++ b)).2)

namespace Framer

variable {α : Type u} (F : Framer α)

/-- The frames of a text that comes in pieces, behind what is left over so far. -/
def frames : List α → List (List α) → List (List α) × List α
  | rest, [] => ([], rest)
  | rest, p :: ps =>
    ((F.cut (rest ++ p)).1 ++ (frames (F.cut (rest ++ p)).2 ps).1,
      (frames (F.cut (rest ++ p)).2 ps).2)

variable {F}

theorem cut_rest (a : List α) : F.cut (F.cut a).2 = ([], (F.cut a).2) := by
  have h := F.cut_append a []
  rw [List.append_nil, List.append_nil] at h
  obtain ⟨hframes, hrest⟩ := Prod.ext_iff.mp h
  exact Prod.ext (List.self_eq_append_right.mp hframes) hrest.symm

/-- The pieces make no difference. -/
theorem frames_eq {rest : List α} (h : F.cut rest = ([], rest)) (ps : List (List α)) :
    F.frames rest ps = F.cut (rest ++ ps.flatten) := by
  induction ps generalizing rest with
  | nil => rw [frames, List.flatten_nil, List.append_nil, h]
  | cons p ps ih =>
    rw [frames, ih (cut_rest _), List.flatten_cons, ← List.append_assoc, F.cut_append (rest ++ p)]

/-- One more character in front of what comes first. -/
def push (a : α) : List (List α) × List α → List (List α) × List α
  | ([], rest) => ([], a :: rest)
  | (frame :: frames, rest) => ((a :: frame) :: frames, rest)

theorem push_nil (a : α) (rest : List α) : push a ([], rest) = ([], a :: rest) := rfl

theorem push_cons (a : α) (frame : List α) (frames : List (List α)) (rest : List α) :
    push a (frame :: frames, rest) = ((a :: frame) :: frames, rest) := rfl

variable (ends : α → Bool)

/-- The frames that are closed by a character of their own. -/
def cutAfter : List α → List (List α) × List α
  | [] => ([], [])
  | a :: l => if ends a then ([] :: (cutAfter l).1, (cutAfter l).2) else push a (cutAfter l)

variable {ends}

theorem cutAfter_append (a b : List α) : cutAfter ends (a ++ b) =
    ((cutAfter ends a).1 ++ (cutAfter ends ((cutAfter ends a).2 ++ b)).1,
      (cutAfter ends ((cutAfter ends a).2 ++ b)).2) := by
  induction a with
  | nil => rfl
  | cons c a ih =>
    rw [List.cons_append, cutAfter, cutAfter]
    cases hc : ends c with
    | true => simp only [if_true, ih, List.cons_append]
    | false =>
      simp only [Bool.false_eq_true, if_false, ih]
      cases hrest : cutAfter ends a with
      | mk frames rest =>
        cases frames with
        | nil =>
          simp only [push_nil, List.nil_append, List.cons_append, cutAfter, hc, Bool.false_eq_true,
            if_false]
        | cons frame frames => rfl

variable (ends)

def closedBy : Framer α := ⟨cutAfter ends, rfl, cutAfter_append⟩

variable {ends}

theorem cutAfter_open {l : List α} (h : ∀ a ∈ l, ends a = false) :
    cutAfter ends l = ([], l) := by
  induction l with
  | nil => rfl
  | cons a l ih =>
    rw [List.forall_mem_cons] at h
    rw [cutAfter, h.1, ih h.2]
    rfl

theorem cutAfter_frame {frame : List α} (h : ∀ a ∈ frame, ends a = false) {e : α}
    (he : ends e = true) (l : List α) : cutAfter ends (frame ++ e :: l) =
      (frame :: (cutAfter ends l).1, (cutAfter ends l).2) := by
  induction frame with
  | nil => rw [List.nil_append, cutAfter, he]; rfl
  | cons a frame ih =>
    rw [List.forall_mem_cons] at h
    rw [List.cons_append, cutAfter, h.1, ih h.2]
    rfl

end Framer

end Eyot
