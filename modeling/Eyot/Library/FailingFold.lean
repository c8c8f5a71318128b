import Mathlib.Data.List.TakeDrop

/-! Programs that can fail, and what a fold of one has done when it has not. -/

universe u v w x y

namespace Eyot.FailingFold

variable {ε : Type u} {α β : Type v}

theorem bind_eq_ok {x : Except ε α} {f : α → Except ε β} {b : β} :
    x >>= f = .ok b ↔ ∃ a, x = .ok a ∧ f a = .ok b := by
  cases x with
  | error e => simp [bind, Except.bind]
  | ok a => simp [bind, Except.bind]

theorem map_eq_ok {x : Except ε α} {f : α → β} {b : β} :
    x.map f = .ok b ↔ ∃ a, x = .ok a ∧ f a = b := by
  cases x with
  | error e => simp [Except.map]
  | ok a => simp [Except.map]

variable {ι : Type w} {f : β → ι → Except ε β} {r : β → β → Prop} {b b' : β}

/-- What every step does, and what can be put together, the fold does. -/
theorem foldlM_keeps (hrefl : ∀ b, r b b) (htrans : ∀ {b₁ b₂ b₃}, r b₁ b₂ → r b₂ b₃ → r b₁ b₃)
    (hstep : ∀ {b i b'}, f b i = .ok b' → r b b') {is : List ι} (h : is.foldlM f b = .ok b') :
    r b b' := by
  induction is generalizing b with
  | nil =>
    obtain rfl := Except.ok.inj h
    exact hrefl b
  | cons i is ih =>
    rw [List.foldlM_cons, bind_eq_ok] at h
    obtain ⟨b₁, hi, his⟩ := h
    exact htrans (hstep hi) (ih his)

/-- Every step is taken somewhere on the way. -/
theorem foldlM_reaches (hrefl : ∀ b, r b b)
    (htrans : ∀ {b₁ b₂ b₃}, r b₁ b₂ → r b₂ b₃ → r b₁ b₃)
    (hstep : ∀ {b i b'}, f b i = .ok b' → r b b') {is : List ι} {i : ι} (hi : i ∈ is)
    (h : is.foldlM f b = .ok b') : ∃ b₁ b₂, f b₁ i = .ok b₂ ∧ r b₂ b' := by
  induction is generalizing b with
  | nil => cases hi
  | cons j is ih =>
    rw [List.foldlM_cons, bind_eq_ok] at h
    obtain ⟨b₁, hj, his⟩ := h
    cases hi with
    | head => exact ⟨b, b₁, hj, foldlM_keeps hrefl htrans hstep his⟩
    | tail _ hi => exact ih hi his

end Eyot.FailingFold

/-! Two runs of what may fail: they fail in the same way, or end in results that are related. -/

namespace Eyot

inductive SameEnd {ε : Type u} {α : Type v} {β : Type w} (R : α → β → Prop) :
    Except ε α → Except ε β → Prop
  | error (e : ε) : SameEnd R (.error e) (.error e)
  | ok {a : α} {b : β} (h : R a b) : SameEnd R (.ok a) (.ok b)

namespace SameEnd

variable {ε : Type u}

theorem refl {α : Type v} (x : Except ε α) : SameEnd (fun a b => a = b) x x := by
  cases x with
  | error e => exact .error e
  | ok a => exact .ok rfl

theorem bind {α β γ δ : Type v} {R : α → β → Prop} {Q : γ → δ → Prop} {x : Except ε α}
    {y : Except ε β} {f : α → Except ε γ} {g : β → Except ε δ} (h : SameEnd R x y)
    (hfg : ∀ a b, R a b → SameEnd Q (f a) (g b)) : SameEnd Q (x >>= f) (y >>= g) := by
  cases h with
  | error e => exact .error e
  | ok h => exact hfg _ _ h

/-- A step that is the same in both runs. -/
theorem bind_refl {α γ δ : Type v} {Q : γ → δ → Prop} (x : Except ε α) {f : α → Except ε γ}
    {g : α → Except ε δ} (hfg : ∀ a, SameEnd Q (f a) (g a)) : SameEnd Q (x >>= f) (x >>= g) :=
  (refl x).bind fun a _ hab => hab ▸ hfg a

end SameEnd

end Eyot

/-! Operations that are made of work which may fail and of touches to a state that nobody takes
back when it does. -/

namespace Eyot.Staged

inductive Stage (ω : Type u) (σ : Type v) where
  | work (w : ω)
  | touch (f : σ → σ)

variable {ω : Type u} {σ : Type v}

def touchAll : List (Stage ω σ) → σ → σ
  | [], s => s
  | .work _ :: stages, s => touchAll stages s
  | .touch f :: stages, s => touchAll stages (f s)

/-- One place where an operation can fail. -/
structure Failure (stages : List (Stage ω σ)) where
  position : Nat
  work : ω
  isWork : stages[position]? = some (.work work)

/-- The state a failed operation leaves behind. -/
def Failure.leaves {stages : List (Stage ω σ)} (failure : Failure stages) (s : σ) : σ :=
  touchAll (stages.take failure.position) s

theorem touchAll_append (as bs : List (Stage ω σ)) (s : σ) :
    touchAll (as ++ bs) s = touchAll bs (touchAll as s) := by
  induction as generalizing s with
  | nil => rfl
  | cons a as ih =>
    cases a with
    | work w => exact ih s
    | touch f => exact ih (f s)

theorem touchAll_work (ws : List ω) (s : σ) : touchAll (ws.map .work) s = s := by
  induction ws with
  | nil => rfl
  | cons w ws ih => exact ih

/-- Where work can only fail in front of the last touches, all that counts is on which side of the
first touch it failed. -/
theorem leaves_eq {stages : List (Stage ω σ)} (ws ws' : List ω) (f : σ → σ) (fs : List (σ → σ))
    (h : stages = ws.map .work ++ .touch f :: (ws'.map .work ++ fs.map .touch))
    (failure : Failure stages) (s : σ) :
    failure.leaves s = if failure.position < ws.length then s else f s := by
  subst h
  obtain ⟨n, w, hw⟩ := failure
  change touchAll (List.take n _) s = if n < ws.length then s else f s
  by_cases hn : n < ws.length
  · rw [if_pos hn, List.take_append_of_le_length (by rw [List.length_map]; omega), ← List.map_take]
    exact touchAll_work _ s
  · rw [if_neg hn]
    obtain ⟨k, rfl⟩ := Nat.exists_eq_add_of_le (Nat.le_of_not_lt hn)
    rw [List.getElem?_append_right (by rw [List.length_map]; omega), List.length_map,
      Nat.add_sub_cancel_left] at hw
    cases k with
    | zero => cases hw
    | succ k =>
      rw [List.getElem?_cons_succ] at hw
      have hk : k < ws'.length := by
        by_contra hle
        rw [List.getElem?_append_right (by rw [List.length_map]; omega), List.getElem?_map] at hw
        obtain ⟨g, -, hg⟩ := Option.map_eq_some_iff.mp hw
        cases hg
      rw [List.take_append, List.take_of_length_le (by rw [List.length_map]; omega),
        touchAll_append, touchAll_work, List.length_map, Nat.add_sub_cancel_left,
        List.take_succ_cons, touchAll,
        List.take_append_of_le_length (by rw [List.length_map]; omega), ← List.map_take]
      exact touchAll_work _ _

end Eyot.Staged
