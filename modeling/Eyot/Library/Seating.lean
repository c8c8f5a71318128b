import Mathlib.Order.Basic

/-! Entries that name the place they are in: a place is the path of an entry that can hold others,
and what names no place is at the top. -/

universe u v

namespace Eyot.Seating

variable {ε : Type u} {π : Type v} (path : ε → π) (up : ε → Option π) (holds : ε → Prop)

/-- The way up from an entry ends at the top. -/
inductive Reaches (es : ε → Prop) : ε → Prop
  | top {e : ε} (h : up e = none) : Reaches es e
  | under {e d : ε} (hd : es d) (hholds : holds d) (hup : up e = some (path d))
      (h : Reaches es d) : Reaches es e

structure Sound (es : ε → Prop) : Prop where
  reaches : ∀ e, es e → Reaches path up holds es e
  apart : ∀ d e, es d → es e → path d = path e → d = e

/-- At the top, or in another entry. -/
def Seated (es : ε → Prop) (e : ε) : Prop :=
  up e = none ∨ ∃ d, es d ∧ d ≠ e ∧ holds d ∧ up e = some (path d)

/-- At the top, or in one of the entries. -/
def Sits (es : ε → Prop) (e : ε) : Prop :=
  up e = none ∨ ∃ d, es d ∧ holds d ∧ up e = some (path d)

/-- `new` can take the place of `old` among the entries `es`: no other has its path, it has a place
there, and what was in `old` is in it now. -/
structure Fits (es : ε → Prop) (old new : Option ε) : Prop where
  free : ∀ e ∈ new, ∀ d, es d → path d ≠ path e
  sits : ∀ e ∈ new, Sits path up holds es e
  hosts : ∀ e ∈ old, ∀ d, es d → up d = some (path e) → ∃ e' ∈ new, holds e' ∧ path e' = path e

variable {path up holds} {es es' others : ε → Prop} {old new : Option ε}

theorem Reaches.seated {e : ε} (h : Reaches path up holds es e) : Seated path up holds es e := by
  induction h with
  | top h => exact .inl h
  | @under e d hd hholds hup _ ih =>
    by_cases hde : d = e
    · exact hde ▸ ih
    · exact .inr ⟨d, hd, hde, hholds, hup⟩

/-- What others are in can hold them. -/
theorem Sound.holds_of_up (h : Sound path up holds es) {d e : ε} (hd : es d) (he : es e)
    (hup : up d = some (path e)) : holds e := by
  obtain htop | ⟨d', hd', _, hholds, hup'⟩ := (h.reaches d hd).seated
  · rw [htop] at hup
    cases hup
  · rwa [← h.apart d' e hd' he (Option.some.inj (hup'.symm.trans hup))]

end Eyot.Seating
