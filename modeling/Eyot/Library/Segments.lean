import Eyot.Library.Scan

/-! Texts of groups of good characters, with one separator between two groups. -/

universe u

namespace Eyot.Scan

variable {α : Type u} [DecidableEq α]

def isSegmented (sep : α) (good : α → Bool) (l : List α) : Bool :=
  (l.splitOn sep).all fun group => !group.isEmpty && group.all good

variable {sep : α} {good : α → Bool}

theorem isSegmented_append (a b : List α) : isSegmented sep good (a ++ sep :: b) =
    (isSegmented sep good a && isSegmented sep good b) := by
  rw [isSegmented, List.splitOn, List.splitOnP_append_cons (p := fun c => c == sep) a b
    (beq_self_eq_true sep), List.all_append]
  rfl

theorem isSegmented_run {l : List α} (h : ∀ c ∈ l, c ≠ sep) :
    isSegmented sep good l = (!l.isEmpty && l.all good) := by
  rw [isSegmented, List.splitOn, List.splitOnP_eq_singleton fun c hc => by simpa using h c hc,
    List.all_cons, List.all_nil, Bool.and_true]

/-- A text is a group, or a group with a separator and a text behind it. -/
theorem induction_on_groups (sep : α) {P : List α → Prop} (run : ∀ a, (∀ c ∈ a, c ≠ sep) → P a)
    (more : ∀ a b, (∀ c ∈ a, c ≠ sep) → P b → P (a ++ sep :: b)) (l : List α) : P l := by
  refine induction_on_words (fun c => decide (c = sep)) ?_ ?_ l
  · exact fun a ha => run a fun c hc => of_decide_eq_false (ha c hc)
  · intro a s b ha hs hb
    rw [of_decide_eq_true hs]
    exact more a b (fun c hc => of_decide_eq_false (ha c hc)) hb

theorem ne_nil_of_isSegmented {l : List α} (h : isSegmented sep good l = true) : l ≠ [] := by
  rintro rfl
  cases h

theorem good_of_isSegmented {l : List α} (h : isSegmented sep good l = true) :
    ∀ c ∈ l, good c = true ∨ c = sep := by
  induction l using induction_on_groups sep with
  | run a ha =>
    rw [isSegmented_run ha, Bool.and_eq_true] at h
    exact fun c hc => .inl (List.all_eq_true.mp h.2 c hc)
  | more a b ha ih =>
    rw [isSegmented_append, isSegmented_run ha, Bool.and_eq_true, Bool.and_eq_true] at h
    intro c hc
    rcases List.mem_append.mp hc with hc | hc
    · exact .inl (List.all_eq_true.mp h.1.2 c hc)
    · rcases List.mem_cons.mp hc with rfl | hc
      · exact .inr rfl
      · exact ih h.2 c hc

theorem head?_of_isSegmented {l : List α} (h : isSegmented sep good l = true) :
    l.head? ≠ some sep := by
  intro hhead
  obtain ⟨l, rfl⟩ := List.head?_eq_some_iff.mp hhead
  have happend := @isSegmented_append _ _ sep good [] l
  rw [List.nil_append, h] at happend
  cases happend

theorem getLast?_of_isSegmented {l : List α} (h : isSegmented sep good l = true) :
    l.getLast? ≠ some sep := by
  induction l using induction_on_groups sep with
  | run a ha => exact fun hlast => ha sep (List.mem_of_getLast? hlast) rfl
  | more a b ha ih =>
    rw [isSegmented_append, Bool.and_eq_true] at h
    rw [List.getLast?_append_of_ne_nil _ (List.cons_ne_nil _ _), List.getLast?_cons_of_ne_nil
      (ne_nil_of_isSegmented h.2)]
    exact ih h.2

theorem isSegmented_take_run {a : List α} (ha : ∀ c ∈ a, c ≠ sep)
    (h : (!a.isEmpty && a.all good) = true) {n : Nat} (hn : 0 < n) :
    isSegmented sep good (a.take n) = true := by
  rw [Bool.and_eq_true] at h
  rw [isSegmented_run fun c hc => ha c (List.mem_of_mem_take hc), Bool.and_eq_true]
  refine ⟨?_, List.all_eq_true.mpr fun c hc =>
    List.all_eq_true.mp h.2 c (List.mem_of_mem_take hc)⟩
  cases a with
  | nil => cases h.1
  | cons c a =>
    obtain ⟨n, rfl⟩ : ∃ k, n = k + 1 := ⟨n - 1, by omega⟩
    rfl

/-- A cut spoils a text only behind a separator. -/
theorem isSegmented_take {l : List α} (h : isSegmented sep good l = true) {n : Nat} (hn : 0 < n) :
    isSegmented sep good (l.take n) = true ↔ (l.take n).getLast? ≠ some sep := by
  refine ⟨getLast?_of_isSegmented, fun hlast => ?_⟩
  induction l using induction_on_groups sep generalizing n with
  | run a ha => exact isSegmented_take_run ha (isSegmented_run ha ▸ h) hn
  | more a b ha ih =>
    rw [isSegmented_append, Bool.and_eq_true, isSegmented_run ha] at h
    obtain ⟨hgroup, hrest⟩ := h
    rcases Nat.lt_or_ge a.length n with hlt | hle
    · obtain ⟨k, rfl⟩ : ∃ k, n = a.length + (k + 1) := ⟨n - a.length - 1, by omega⟩
      rw [List.take_length_add_append, List.take_succ_cons] at hlast ⊢
      rw [List.getLast?_append_of_ne_nil _ (List.cons_ne_nil _ _)] at hlast
      cases k with
      | zero => exact absurd rfl hlast
      | succ k =>
        have hne : b.take (k + 1) ≠ [] := by
          have := ne_nil_of_isSegmented hrest
          simp [this]
        rw [List.getLast?_cons_of_ne_nil hne] at hlast
        rw [isSegmented_append, isSegmented_run ha, hgroup, Bool.true_and]
        exact ih hrest (Nat.succ_pos k) hlast
    · rw [List.take_append_of_le_length hle]
      exact isSegmented_take_run ha hgroup hn

end Eyot.Scan
