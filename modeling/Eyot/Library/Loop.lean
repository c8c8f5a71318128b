/-! Loops that may go on forever: each turn of the body ends in a next state or in a result. -/

universe u v

namespace Eyot.Loop

variable {σ : Type u} {ρ : Type v}

inductive Turn (σ : Type u) (ρ : Type v) where
  | again (s : σ)
  | done (r : ρ)

def Turn.again? : Turn σ ρ → Option σ
  | .again s => some s
  | .done _ => none

def iterate (body : σ → Turn σ ρ) : Nat → σ → Option ρ
  | 0, _ => none
  | fuel + 1, s =>
    match body s with
    | .again s' => iterate body fuel s'
    | .done r => some r

/-- The loop ends, with result `r`. -/
def Returns (body : σ → Turn σ ρ) (s : σ) (r : ρ) : Prop := ∃ fuel, iterate body fuel s = some r

/-- The state after `n` turns, if the loop gets that far. -/
def after (body : σ → Turn σ ρ) (s : σ) : Nat → Option σ
  | 0 => some s
  | n + 1 => (after body s n).bind fun s' => (body s').again?

variable {body : σ → Turn σ ρ}

theorem after_succ_eq_some {s s' : σ} {n : Nat} :
    after body s (n + 1) = some s' ↔ ∃ t, after body s n = some t ∧ body t = .again s' := by
  rw [after, Option.bind_eq_some_iff]
  apply exists_congr
  intro t
  apply and_congr_right
  intro _
  cases body t with
  | again t' => simp [Turn.again?]
  | done r => simp [Turn.again?]

theorem after_again {s s' : σ} (h : body s = .again s') (n : Nat) :
    after body s (n + 1) = after body s' n := by
  induction n with
  | zero => simp [after, h, Turn.again?]
  | succ n ih => rw [after, ih, after]

/-- A loop returns what some turn it gets to is done with. -/
theorem returns_iff {s : σ} {r : ρ} :
    Returns body s r ↔ ∃ n t, after body s n = some t ∧ body t = .done r := by
  constructor
  · rintro ⟨fuel, h⟩
    induction fuel generalizing s with
    | zero => cases h
    | succ fuel ih =>
      rw [iterate] at h
      cases hb : body s with
      | done r' =>
        rw [hb] at h
        cases h
        exact ⟨0, s, rfl, hb⟩
      | again s' =>
        rw [hb] at h
        obtain ⟨n, t, hn, ht⟩ := ih h
        exact ⟨n + 1, t, (after_again hb n).trans hn, ht⟩
  · rintro ⟨n, t, hn, ht⟩
    refine ⟨n + 1, ?_⟩
    induction n generalizing s with
    | zero =>
      cases hn
      rw [iterate, ht]
    | succ n ih =>
      cases hb : body s with
      | done r' =>
        have hnone : ∀ m, after body s (m + 1) = none := by
          intro m
          induction m with
          | zero => simp [after, hb, Turn.again?]
          | succ m ih => rw [after, ih, Option.bind_none]
        rw [hnone] at hn
        cases hn
      | again s' =>
        rw [after_again hb] at hn
        rw [iterate, hb]
        exact ih hn

theorem returns_again {s s' : σ} {r : ρ} (h : body s = .again s') (hr : Returns body s' r) :
    Returns body s r := by
  obtain ⟨fuel, hfuel⟩ := hr
  exact ⟨fuel + 1, by rw [iterate, h]; exact hfuel⟩

theorem returns_done {s : σ} {r : ρ} (h : body s = .done r) : Returns body s r :=
  ⟨1, by rw [iterate, h]⟩

theorem Returns.unique {s : σ} {r r' : ρ} (h : Returns body s r) (h' : Returns body s r') :
    r = r' := by
  obtain ⟨fuel, h⟩ := h
  obtain ⟨fuel', h'⟩ := h'
  induction fuel generalizing s fuel' with
  | zero => cases h
  | succ fuel ih =>
    cases fuel' with
    | zero => cases h'
    | succ fuel' =>
      rw [iterate] at h h'
      cases hb : body s with
      | done r₀ =>
        rw [hb] at h h'
        cases h
        cases h'
        rfl
      | again s' =>
        rw [hb] at h h'
        exact ih h fuel' h'

/-- What each turn keeps, and the last one turns into a result. -/
theorem Returns.of_inv (inv : σ → Prop) (post : ρ → Prop)
    (hagain : ∀ s s', inv s → body s = .again s' → inv s')
    (hdone : ∀ s r, inv s → body s = .done r → post r) {s : σ} {r : ρ} (hs : inv s)
    (h : Returns body s r) : post r := by
  obtain ⟨fuel, h⟩ := h
  induction fuel generalizing s with
  | zero => cases h
  | succ fuel ih =>
    rw [iterate] at h
    cases hb : body s with
    | done r' =>
      rw [hb] at h
      cases h
      exact hdone s r hs hb
    | again s' =>
      rw [hb] at h
      exact ih (hagain s s' hs hb) h

/-- A loop whose turns go along with those of another returns with it. -/
theorem Returns.simulate {σ' : Type u} {ρ' : Type v} {body' : σ' → Turn σ' ρ'}
    (rel : σ → σ' → Prop) {result : ρ → ρ'}
    (hagain : ∀ s t s', rel s s' → body s = .again t → ∃ t', body' s' = .again t' ∧ rel t t')
    (hdone : ∀ s r s', rel s s' → body s = .done r → body' s' = .done (result r))
    {s : σ} {s' : σ'} {r : ρ} (hrel : rel s s') (h : Returns body s r) :
    Returns body' s' (result r) := by
  obtain ⟨fuel, h⟩ := h
  induction fuel generalizing s s' with
  | zero => cases h
  | succ fuel ih =>
    rw [iterate] at h
    cases hb : body s with
    | done r' =>
      rw [hb] at h
      cases h
      exact returns_done (hdone s r s' hrel hb)
    | again t =>
      rw [hb] at h
      obtain ⟨t', hb', hrel'⟩ := hagain s t s' hrel hb
      exact returns_again hb' (ih hrel' h)

end Eyot.Loop
