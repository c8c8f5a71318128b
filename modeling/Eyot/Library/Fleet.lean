import Eyot.Library.Run
import Eyot.Library.Table

/-! Machines that run side by side in one table: an input moves the machines it is for, and may
add a machine. -/

universe u v w x y

namespace Eyot

structure Fleet {κ : Type u} {σ : Type v} (key : σ → κ) (α : Type w) (ι : Type x) where
  act : σ → α → σ
  act_key : ∀ s a, key (act s a) = key s
  route : ι → σ → Option α
  spawn : ι → Option σ

namespace Fleet

variable {κ : Type u} {σ : Type v} {key : σ → κ} {α : Type w} {ι : Type x}

section Step

variable (F : Fleet key α ι)

def move (i : ι) (s : σ) : σ := (F.route i s).elim s (F.act s)

theorem move_key (i : ι) (s : σ) : key (F.move i s) = key s := by
  rw [move]
  cases F.route i s with
  | none => rfl
  | some a => exact F.act_key s a

def moveAll (t : Table key) (i : ι) : Table key :=
  t.updateWhere (fun _ => true) (F.move i) (F.move_key i)

@[simp] theorem moveAll_rows (t : Table key) (i : ι) :
    (F.moveAll t i).rows = t.rows.map (F.move i) := rfl

variable [DecidableEq κ]

def step (t : Table key) (i : ι) : Table key :=
  (F.spawn i).elim (F.moveAll t i) fun s => ((F.moveAll t i).insert? s).getD (F.moveAll t i)

/-- A machine that is there already is not started again. -/
def fresh (t : Table key) (i : ι) : Option σ :=
  (F.spawn i).filter fun s => key s ∉ t.rows.map key

theorem step_rows (t : Table key) (i : ι) :
    (F.step t i).rows = t.rows.map (F.move i) ++ (F.fresh t i).toList := by
  have hkeys : (F.moveAll t i).rows.map key = t.rows.map key := by
    rw [moveAll_rows, List.map_map]
    apply List.map_congr_left
    intro s _
    exact F.move_key i s
  rw [step, fresh]
  cases hs : F.spawn i with
  | none => simp
  | some s =>
    rw [Option.elim_some, Option.filter_some, ← hkeys]
    cases hi : (F.moveAll t i).insert? s with
    | none =>
      rw [Table.insert?_eq_none] at hi
      simp only [hi, not_true_eq_false, decide_false, Bool.false_eq_true, if_false]
      simp
    | some t' =>
      rw [Option.getD_some, Table.insert?_rows hi,
        if_pos (decide_eq_true (Table.key_not_mem_of_insert? hi)), moveAll_rows,
        Option.toList_some]

theorem move_mem_step {t : Table key} {s : σ} (h : s ∈ t.rows) (i : ι) :
    F.move i s ∈ (F.step t i).rows := by
  rw [step_rows]
  exact List.mem_append_left _ (List.mem_map_of_mem h)

theorem mem_step {t : Table key} {i : ι} {s : σ} (h : s ∈ (F.step t i).rows) :
    (∃ r ∈ t.rows, F.move i r = s) ∨ F.spawn i = some s := by
  rw [step_rows, List.mem_append, List.mem_map, Option.mem_toList, fresh,
    Option.filter_eq_some_iff] at h
  exact h.imp id And.left

end Step

section Rows

variable [DecidableEq κ] {F : Fleet key α ι} {r q : σ → Prop} {p : σ → α → Prop}

theorem forall_step (hspawn : ∀ i s, F.spawn i = some s → q s) {t : Table key} {i : ι}
    (h : ∀ s ∈ t.rows, q (F.move i s)) : ∀ s ∈ (F.step t i).rows, q s := by
  intro s hs
  obtain ⟨s', hs', rfl⟩ | hnew := F.mem_step hs
  · exact h s' hs'
  · exact hspawn i s hnew

/-- Where, beside `r`, exactly the good actions keep `q` of a machine, all machines have `q`
exactly in the runs where every action that reaches a machine is good. -/
theorem always_rows_iff (hspawn : ∀ i s, F.spawn i = some s → r s ∧ q s)
    (hkeep : ∀ s a, r s → q s → p s a → r (F.act s a) ∧ q (F.act s a))
    (hmeets : ∀ s a, r s → q s → q (F.act s a) → p s a)
    {t : Table key} (ht : ∀ s ∈ t.rows, r s ∧ q s) (is : List ι) :
    Run.Always F.step (fun t => ∀ s ∈ t.rows, q s) t is ↔
      Run.Meets F.step (fun t i => ∀ s ∈ t.rows, ∀ a, F.route i s = some a → p s a) t is := by
  apply Run.always_iff_meets_of_keeps (r := fun t => ∀ s ∈ t.rows, r s)
  · intro t i hr hq hp
    rw [← forall₂_and]
    apply forall_step hspawn
    intro s hs
    rw [move]
    cases ha : F.route i s with
    | none => exact ⟨hr s hs, hq s hs⟩
    | some a => exact hkeep s a (hr s hs) (hq s hs) (hp s hs a ha)
  · intro t i hr hq hq' s hs a ha
    have hmove := hq' _ (F.move_mem_step hs i)
    rw [move, ha] at hmove
    exact hmeets s a (hr s hs) (hq s hs) hmove
  · exact fun s hs => (ht s hs).1
  · exact fun s hs => (ht s hs).2

end Rows

/-! A fleet whose machines are watched: a note is kept beside each machine. -/

section Watch

variable {γ : Type y} (F : Fleet key α ι) (start : γ) (note : σ → γ → α → γ)

theorem watch_key (s : σ × γ) (a : α) :
    key (F.act s.1 a, note s.1 s.2 a).1 = key s.1 := F.act_key s.1 a

def watch : Fleet (σ := σ × γ) (fun s => key s.1) α ι where
  act s a := (F.act s.1 a, note s.1 s.2 a)
  act_key := watch_key F note
  route i s := F.route i s.1
  spawn i := (F.spawn i).map fun s => (s, start)

theorem watch_spawn (i : ι) :
    (F.watch start note).spawn i = (F.spawn i).map fun s => (s, start) := rfl

theorem spawn_of_watch {i : ι} {s : σ × γ} (h : (F.watch start note).spawn i = some s) :
    F.spawn i = some s.1 ∧ s.2 = start := by
  rw [watch_spawn, Option.map_eq_some_iff] at h
  obtain ⟨s', hs', rfl⟩ := h
  exact ⟨hs', rfl⟩

theorem watch_move (i : ι) (s : σ × γ) : ((F.watch start note).move i s).1 = F.move i s.1 := by
  simp only [move, watch]
  cases F.route i s.1 with
  | none => rfl
  | some a => rfl

variable [DecidableEq κ]

theorem watch_step {t : Table fun s : σ × γ => key s.1} {t' : Table key}
    (h : t.rows.map Prod.fst = t'.rows) (i : ι) :
    ((F.watch start note).step t i).rows.map Prod.fst = (F.step t' i).rows := by
  have hmoved : (t.rows.map ((F.watch start note).move i)).map Prod.fst =
      t'.rows.map (F.move i) := by
    rw [← h, List.map_map, List.map_map]
    apply List.map_congr_left
    intro s _
    exact F.watch_move start note i s
  have hkeys : t.rows.map (fun s => key s.1) = t'.rows.map key := by
    rw [← h, List.map_map]
    rfl
  have hfresh : ((F.watch start note).fresh t i).toList.map Prod.fst = (F.fresh t' i).toList := by
    rw [fresh, fresh, watch_spawn, hkeys]
    cases F.spawn i with
    | none => rfl
    | some s =>
      rw [Option.map_some, Option.filter_some, Option.filter_some]
      split <;> rfl
  rw [step_rows, step_rows, List.map_append, hmoved, hfresh]

/-- To watch a fleet does not change its runs. -/
theorem watch_exec {t : Table fun s : σ × γ => key s.1} {t' : Table key}
    (h : t.rows.map Prod.fst = t'.rows) (is : List ι) :
    (Run.exec (F.watch start note).step t is).rows.map Prod.fst = (Run.exec F.step t' is).rows := by
  induction is generalizing t t' with
  | nil => exact h
  | cons i is ih => exact ih (F.watch_step start note h i)

end Watch

end Fleet

end Eyot
