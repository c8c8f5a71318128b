import Mathlib.Data.List.Infix
import Mathlib.Logic.Relation

/-! Finite runs of a deterministic machine that is fed one input after the other. -/

universe u v

namespace Eyot.Run

variable {σ : Type u} {ι : Type v}

def exec (step : σ → ι → σ) : σ → List ι → σ
  | s, [] => s
  | s, i :: is => exec step (step s i) is

/-- `q` holds in every state a run goes through, the first and the last included. -/
def Always (step : σ → ι → σ) (q : σ → Prop) : σ → List ι → Prop
  | s, [] => q s
  | s, i :: is => q s ∧ Always step q (step s i) is

/-- `p` holds of every step of a run, read in the state before the step. -/
def Meets (step : σ → ι → σ) (p : σ → ι → Prop) : σ → List ι → Prop
  | _, [] => True
  | s, i :: is => p s i ∧ Meets step p (step s i) is

instance decidableMeets (step : σ → ι → σ) (p : σ → ι → Prop) [∀ s i, Decidable (p s i)] :
    ∀ s is, Decidable (Meets step p s is)
  | _, [] => .isTrue trivial
  | s, i :: is =>
    have := decidableMeets step p (step s i) is
    inferInstanceAs (Decidable (p s i ∧ Meets step p (step s i) is))

variable {step : σ → ι → σ} {q r : σ → Prop} {p : σ → ι → Prop}

theorem exec_append (step : σ → ι → σ) (s : σ) (is js : List ι) :
    exec step s (is ++ js) = exec step (exec step s is) js := by
  induction is generalizing s with
  | nil => rfl
  | cons i is ih => exact ih (step s i)

/-- Two machines that are fed the same inputs stay related. -/
theorem exec_rel {τ : Type*} {step' : τ → ι → τ} {R : σ → τ → Prop}
    (hstep : ∀ s t i, R s t → R (step s i) (step' t i)) {s : σ} {t : τ} (h : R s t) (is : List ι) :
    R (exec step s is) (exec step' t is) := by
  induction is generalizing s t with
  | nil => exact h
  | cons i is ih => exact ih (hstep s t i h)

theorem Always.start {s : σ} {is : List ι} (h : Always step q s is) : q s := by
  cases is with
  | nil => exact h
  | cons i is => exact h.1

theorem Always.exec {s : σ} {is : List ι} (h : Always step q s is) : q (exec step s is) := by
  induction is generalizing s with
  | nil => exact h
  | cons i is ih => exact ih h.2

theorem Always.imp {q' : σ → Prop} (hq : ∀ s, q s → q' s) {s : σ} {is : List ι}
    (h : Always step q s is) : Always step q' s is := by
  induction is generalizing s with
  | nil => exact hq s h
  | cons i is ih => exact ⟨hq s h.1, ih h.2⟩

theorem always_of_step (hstep : ∀ s i, q s → q (step s i)) {s : σ} (h : q s) (is : List ι) :
    Always step q s is := by
  induction is generalizing s with
  | nil => exact h
  | cons i is ih => exact ⟨h, ih (hstep s i h)⟩

theorem meets_append (step : σ → ι → σ) (p : σ → ι → Prop) (s : σ) (is js : List ι) :
    Meets step p s (is ++ js) ↔ Meets step p s is ∧ Meets step p (exec step s is) js := by
  induction is generalizing s with
  | nil => exact (iff_of_eq (true_and _)).symm
  | cons i is ih => exact (and_congr_right fun _ => ih (step s i)).trans and_assoc.symm

theorem meets_congr (step : σ → ι → σ) {p' : σ → ι → Prop} (h : ∀ s i, p s i ↔ p' s i) (s : σ)
    (is : List ι) :
    Meets step p s is ↔ Meets step p' s is := by
  induction is generalizing s with
  | nil => exact Iff.rfl
  | cons i is ih => exact and_congr (h s i) (ih (step s i))

/-- Beside an invariant that good steps keep, two ways to say that a step is good agree on runs. -/
theorem meets_iff_of_keeps {p' : σ → ι → Prop} (hkeep : ∀ s i, r s → p s i → r (step s i))
    (h : ∀ s i, r s → (p' s i ↔ p s i)) {s : σ} (hrs : r s) (is : List ι) :
    Meets step p' s is ↔ Meets step p s is := by
  induction is generalizing s with
  | nil => exact Iff.rfl
  | cons i is ih =>
    rw [Meets, Meets, h s i hrs]
    apply and_congr_right
    intro hp
    exact ih (hkeep s i hrs hp)

/-- Where a good step keeps `r` and `q`, and beside `r` a step that keeps `q` is good, a run stays
inside `q` exactly when all its steps are good. -/
theorem always_iff_meets_of_keeps (hkeep : ∀ s i, r s → q s → p s i → r (step s i) ∧ q (step s i))
    (hmeets : ∀ s i, r s → q s → q (step s i) → p s i) {s : σ} (hrs : r s) (hqs : q s)
    (is : List ι) : Always step q s is ↔ Meets step p s is := by
  induction is generalizing s with
  | nil => exact ⟨fun _ => trivial, fun _ => hqs⟩
  | cons i is ih =>
    constructor
    · rintro ⟨_, h⟩
      have hp : p s i := hmeets s i hrs hqs h.start
      obtain ⟨hr', hq'⟩ := hkeep s i hrs hqs hp
      exact ⟨hp, (ih hr' hq').mp h⟩
    · rintro ⟨hp, h⟩
      obtain ⟨hr', hq'⟩ := hkeep s i hrs hqs hp
      exact ⟨hqs, (ih hr' hq').mpr h⟩

/-- Where, under an invariant `r`, a step keeps `q` exactly when it meets `p`, a run stays
inside `q` exactly when all its steps meet `p`. -/
theorem always_iff_meets (hr : ∀ s i, r s → r (step s i))
    (hq : ∀ s i, r s → q s → (q (step s i) ↔ p s i))
    {s : σ} (hrs : r s) (hqs : q s) (is : List ι) :
    Always step q s is ↔ Meets step p s is := by
  apply always_iff_meets_of_keeps (r := r) _ _ hrs hqs
  · intro s i hrs hqs hp
    exact ⟨hr s i hrs, (hq s i hrs hqs).mpr hp⟩
  · intro s i hrs hqs hqs'
    exact (hq s i hrs hqs).mp hqs'

end Eyot.Run

/-! A run compared with the same run without its hidden inputs. -/

universe w

namespace Eyot.Run

variable {σ : Type u} {ι : Type v} {β : Type w} {step : σ → ι → σ}

def purge (hidden : ι → Bool) (is : List ι) : List ι := is.filter fun i => !hidden i

theorem purge_cons_of_hidden {hidden : ι → Bool} {i : ι} (h : hidden i = true) (is : List ι) :
    purge hidden (i :: is) = purge hidden is := by
  rw [purge, List.filter_cons_of_neg (by simp [h])]
  rfl

theorem purge_cons_of_seen {hidden : ι → Bool} {i : ι} (h : hidden i = false) (is : List ι) :
    purge hidden (i :: is) = i :: purge hidden is := by
  rw [purge, List.filter_cons_of_pos (by simp [h])]
  rfl

/-- What can be observed never depends on the hidden inputs before it. -/
def Undisclosed (step : σ → ι → σ) (hidden : ι → Bool) (obs : σ → β) (s s' : σ)
    (is : List ι) : Prop :=
  ∀ before, before <+: is → obs (exec step s before) = obs (exec step s' (purge hidden before))

variable {hidden : ι → Bool} {obs : σ → β} {r : σ → σ → Prop}

theorem undisclosed_cons {i : ι} {is : List ι} {s s' : σ} :
    Undisclosed step hidden obs s s' (i :: is) ↔ obs s = obs s' ∧
      Undisclosed step hidden obs (step s i) (if hidden i then s' else step s' i) is := by
  have hcons : ∀ before, exec step s' (purge hidden (i :: before)) =
      exec step (if hidden i then s' else step s' i) (purge hidden before) := by
    intro before
    cases hi : hidden i with
    | true => rw [purge_cons_of_hidden hi, if_pos rfl]
    | false =>
      rw [purge_cons_of_seen hi, if_neg Bool.false_ne_true]
      rfl
  constructor
  · intro h
    refine ⟨h [] List.nil_prefix, fun before hb => ?_⟩
    rw [← hcons]
    exact h (i :: before) (List.cons_prefix_cons.mpr ⟨rfl, hb⟩)
  · rintro ⟨hnow, hlater⟩ before hb
    cases before with
    | nil => exact hnow
    | cons j before =>
      obtain ⟨rfl, hb'⟩ := List.cons_prefix_cons.mp hb
      rw [hcons]
      exact hlater before hb'

/-- Unwinding: where the inputs that are seen keep two states alike, and the hidden ones change
nothing but what can be observed, they stay undisclosed exactly if none of them is observed. -/
theorem undisclosed_iff
    (hseen : ∀ s s' i, hidden i = false → r s s' → obs s = obs s' →
      r (step s i) (step s' i) ∧ obs (step s i) = obs (step s' i))
    (hhidden : ∀ s s' i, hidden i = true → r s s' → r (step s i) s')
    {s s' : σ} (hr : r s s') (hobs : obs s = obs s') (is : List ι) :
    Undisclosed step hidden obs s s' is ↔
      Meets step (fun s i => hidden i = true → obs (step s i) = obs s) s is := by
  induction is generalizing s s' with
  | nil =>
    refine iff_of_true (fun before hb => ?_) trivial
    rw [List.prefix_nil.mp hb]
    exact hobs
  | cons i is ih =>
    rw [undisclosed_cons, and_iff_right hobs, Meets]
    cases hi : hidden i with
    | false =>
      obtain ⟨hr', hobs'⟩ := hseen s s' i hi hr hobs
      rw [if_neg Bool.false_ne_true, ih hr' hobs']
      simp
    | true =>
      rw [if_pos rfl]
      constructor
      · intro h
        have hsame : obs (step s i) = obs s' := h [] List.nil_prefix
        exact ⟨fun _ => hsame.trans hobs.symm, (ih (hhidden s s' i hi hr) hsame).mp h⟩
      · rintro ⟨hsame, h⟩
        exact (ih (hhidden s s' i hi hr) ((hsame rfl).trans hobs)).mpr h

end Eyot.Run
