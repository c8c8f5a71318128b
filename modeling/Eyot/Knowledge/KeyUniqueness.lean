import Eyot.Knowledge.Interleavings

/-! Whether an owner has each key once. -/

namespace Eyot.Knowledge

/-- No owner has two active entries of one key, whatever their dimensions. -/
def UniqueKeys (s : State) : Prop :=
  ∀ e ∈ s.ledger.committed.rows, ∀ e' ∈ s.ledger.committed.rows, e.isActive = true →
    e'.isActive = true → e.owner = e'.owner → e.key = e'.key → e.id = e'.id

/-- Nobody has taken the key in another dimension by the time that the request commits. -/
def SameDimension (s : State) : Move → Prop
  | .commit n =>
    ∀ r, s.ledger.find? n = some r → ∀ e ∈ s.ledger.committed.rows, e.id ≠ r.id →
      e.isActive = true → r.isActive = true → e.owner = r.owner → e.key = r.key →
      coalesce e.dimensionId = coalesce r.dimensionId
  | _ => True

instance (s : State) : Decidable (UniqueKeys s) := inferInstanceAs (Decidable (∀ e ∈ _, _))

instance decidableSameDimension (s : State) : ∀ m, Decidable (SameDimension s m)
  | .commit n => inferInstanceAs (Decidable (∀ r ∈ s.ledger.find? n, _))
  | .check _ _ | .flush _ _ | .rollback _ => .isTrue trivial

theorem flush_committed (s : State) (n : Nat) (now : Time) :
    (s.flush n now).ledger.committed = s.ledger.committed := by
  rw [State.flush]
  split
  · rfl
  · split
    · rfl
    · split
      · rfl
      · split <;> rfl

theorem step_committed {s : State} {lowerKey : Str → Str} {m : Move} (h : ∀ n, m ≠ .commit n) :
    (s.step lowerKey m).ledger.committed = s.ledger.committed := by
  cases m with
  | check n r =>
    rw [State.step]
    split
    · rfl
    · split <;> rfl
  | flush n now => exact flush_committed s n now
  | commit n => exact absurd rfl (h n)
  | rollback n => rfl

/-- A commit keeps keys unique exactly when the index tells apart what the check tells apart. -/
theorem uniqueKeys_commit_iff {s : State} (hs : UniqueKeys s) (n : Nat) :
    UniqueKeys { s with ledger := s.ledger.commit n } ↔ SameDimension s (.commit n) := by
  cases hrow : s.ledger.find? n with
  | none =>
    constructor
    · intro _ r hr
      rw [hrow] at hr
      cases hr
    · intro _
      rwa [UniqueKeys, Ledger.commit_of_none hrow]
  | some r =>
    have hcommit := Ledger.commit_committed hrow
    constructor
    · intro h r' hr' e he hid hactive hactive' howner hkey
      obtain rfl := Option.some.inj (hrow.symm.trans hr')
      have hmem : e ∈ (s.ledger.commit n).committed.rows :=
        hcommit ▸ Table.mem_put.mpr (.inr ⟨he, hid⟩)
      have hself : r ∈ (s.ledger.commit n).committed.rows :=
        hcommit ▸ Table.mem_put.mpr (.inl rfl)
      exact absurd (h e hmem r hself hactive hactive' howner hkey) hid
    · intro h
      -- The index keeps apart two entries of one dimension.
      have hapart {e : KnowledgeEntry} (he : e ∈ s.ledger.committed.rows) (hid : e.id ≠ r.id)
          (hactive : e.isActive = true) (hactive' : r.isActive = true) (howner : e.owner = r.owner)
          (hkey : e.key = r.key) : False := by
        have hdimension := h r hrow e he hid hactive hactive' howner hkey
        apply Ledger.not_collide_of_find? hrow he hid
        exact ⟨hactive, hactive', Prod.ext howner (Prod.ext hdimension hkey)⟩
      intro e he e' he' hactive hactive' howner hkey
      change e ∈ (s.ledger.commit n).committed.rows at he
      change e' ∈ (s.ledger.commit n).committed.rows at he'
      rw [hcommit, Table.mem_put] at he he'
      obtain rfl | ⟨he, hid⟩ := he
      · obtain rfl | ⟨he', hid'⟩ := he'
        · rfl
        · exact (hapart he' hid' hactive' hactive howner.symm hkey.symm).elim
      · obtain rfl | ⟨he', _⟩ := he'
        · exact (hapart he hid hactive hactive' howner hkey).elim
        · exact hs e he e' he' hactive hactive' howner hkey

/-- Keys stay unique all through a run exactly when no commit finds its key taken in another
dimension. -/
theorem uniqueKeys_iff (lowerKey : Str → Str) (s : State) (moves : List Move)
    (hs : UniqueKeys s) :
    Run.Always (State.step · lowerKey ·) UniqueKeys s moves ↔
      Run.Meets (State.step · lowerKey ·) SameDimension s moves := by
  refine Run.always_iff_meets (r := fun _ => True) (fun _ _ _ => trivial) ?_ trivial hs moves
  intro s m _ hs
  by_cases h : ∃ n, m = .commit n
  · obtain ⟨n, rfl⟩ := h
    exact uniqueKeys_commit_iff hs n
  · rw [not_exists] at h
    have hkeep : UniqueKeys (s.step lowerKey m) := by
      rw [UniqueKeys, step_committed h]
      exact hs
    cases m with
    | commit n => exact absurd rfl (h n)
    | check n r | flush n now | rollback n => exact iff_of_true hkeep trivial

/-! Two requests for one key, in two dimensions. -/

def marsh : State := ⟨⟨.empty, [], List.nodup_nil, .nil, fun _ h => nomatch h⟩, []⟩

def runbook (dimension : Id) : KnowledgeEntryCreate :=
  ⟨"runbook".toList, "Runbook".toList, [], some dimension, .org, some "delta", none, none, none,
    none⟩

/-- In one dimension the second request waits for the first, and is refused then. -/
theorem uniqueKeys_marsh : Run.Always (State.step · id ·) UniqueKeys marsh
    [.check 0 (.create "a" (runbook "ops")), .check 1 (.create "b" (runbook "ops")), .flush 0 5,
      .flush 1 6, .commit 0, .flush 1 7, .commit 1] :=
  (uniqueKeys_iff id marsh _ fun _ h => nomatch h).mpr (by decide +kernel)

theorem not_uniqueKeys_marsh : ¬ Run.Always (State.step · id ·) UniqueKeys marsh
    [.check 0 (.create "a" (runbook "ops")), .check 1 (.create "b" (runbook "dev")), .flush 0 5,
      .flush 1 6, .commit 0, .commit 1] := by
  intro h
  exact absurd h.exec (by decide +kernel)

end Eyot.Knowledge
