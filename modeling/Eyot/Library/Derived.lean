/-! Rows that store a value derived from a source and from the row itself. -/

universe u v w

namespace Eyot

structure Derived (σ : Type u) (α : Type v) (β : Type w) where
  derive : σ → α → β
  live : α → Bool
  stored : α → Option β
  store : β → α → α
  stored_store : ∀ b r, stored (store b r) = some b
  live_store : ∀ b r, live (store b r) = live r
  derive_store : ∀ s b r, derive s (store b r) = derive s r

namespace Derived

variable {σ : Type u} {α : Type v} {β : Type w} (D : Derived σ α β)

/-- Every row in use stores what is derived from the source now. -/
def Fresh (s : σ) (rows : List α) : Prop :=
  ∀ r ∈ rows, D.live r = true → D.stored r = some (D.derive s r)

def refresh (s : σ) (r : α) : α := D.store (D.derive s r) r

variable {D} {s t : σ} {rows : List α}

theorem stored_refresh (s : σ) (r : α) :
    D.stored (D.refresh s r) = some (D.derive s (D.refresh s r)) := by
  rw [refresh, D.stored_store, D.derive_store]

@[simp] theorem fresh_nil : D.Fresh s [] := nofun

theorem Fresh.mono {few : List α} (h : D.Fresh s rows) (hfew : ∀ r ∈ few, r ∈ rows) :
    D.Fresh s few :=
  fun r hr => h r (hfew r hr)

end Derived

end Eyot
