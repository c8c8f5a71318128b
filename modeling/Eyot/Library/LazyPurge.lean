import Eyot.Library.Dict
import Eyot.Library.Run
import Mathlib.Order.Basic

/-! Cells under keys. Every use of a cell first drops all cells that are dead by then. -/

universe u v w x y

namespace Eyot.LazyPurge

section

variable {σ : Type u} {ρ : Type v} {ω : Type w}

/-- Each input with its output and the state after it. -/
def trace (step : σ → ρ → σ × ω) : σ → List ρ → List (ρ × ω × σ)
  | _, [] => []
  | s, r :: rs => (r, (step s r).2, (step s r).1) :: trace step (step s r).1 rs

def outputs (step : σ → ρ → σ × ω) (s : σ) (rs : List ρ) : List (ρ × ω) :=
  (trace step s rs).map fun x => (x.1, x.2.1)

theorem outputs_cons (step : σ → ρ → σ × ω) (s : σ) (r : ρ) (rs : List ρ) :
    outputs step s (r :: rs) = (r, (step s r).2) :: outputs step (step s r).1 rs := rfl

theorem inputs_outputs (step : σ → ρ → σ × ω) (s : σ) (rs : List ρ) :
    (outputs step s rs).map Prod.fst = rs := by
  induction rs generalizing s with
  | nil => rfl
  | cons r rs ih => exact congrArg (r :: ·) (ih (step s r).1)

end

structure Machine (κ : Type u) (ε : Type v) (ρ : Type w) (ω : Type x) (τ : Type y) where
  /-- The cell that an input uses, if it uses one. -/
  key : ρ → Option κ
  time : ρ → τ
  dead : τ → ε → Bool
  step : Option ε → ρ → ε × ω

variable {κ : Type u} {ε : Type v} {ρ : Type w} {ω : Type x} {τ : Type y}

namespace Machine

variable (m : Machine κ ε ρ ω τ)

def alive (t : τ) (e : ε) : Bool := !m.dead t e

def purge (t : τ) (d : List (κ × ε)) : List (κ × ε) := d.filter fun kv => m.alive t kv.2

/-- The machine that drops nothing. -/
def plain : Machine κ ε ρ ω τ := { m with dead := fun _ _ => false }

/-- What is dead stays so. -/
def Mono [LE τ] : Prop := ∀ {t t' : τ} {e : ε}, t ≤ t' → m.dead t e = true → m.dead t' e = true

/-- The cells are the same, but for what is dead at a time and from then on. -/
def Same [LE τ] (t : τ) (c c' : Option ε) : Prop :=
  ∀ t', t ≤ t' → c.filter (m.alive t') = c'.filter (m.alive t')

/-- One cell, which is dropped when it is used next. -/
def cellStep (c : Option ε) (r : ρ) : Option ε × Option ω :=
  let (e, o) := m.step (c.filter (m.alive (m.time r))) r
  (some e, some o)

end Machine

variable {m : Machine κ ε ρ ω τ} {d d' : List (κ × ε)} {k : κ} {r : ρ}

theorem distinct_purge (hd : Dict.Distinct d) (t : τ) : Dict.Distinct (m.purge t d) :=
  (List.filter_sublist.map Prod.fst).nodup hd

@[simp] theorem purge_plain (t : τ) (d : List (κ × ε)) : m.plain.purge t d = d :=
  List.filter_eq_self.mpr fun _ _ => rfl

@[simp] theorem filter_plain (t : τ) (c : Option ε) : c.filter (m.plain.alive t) = c := by
  cases c <;> rfl

section

variable [Preorder τ] {t t' : τ} {c c' : Option ε}

theorem filter_alive (hmono : m.Mono) (h : t ≤ t') (c : Option ε) :
    (c.filter (m.alive t)).filter (m.alive t') = c.filter (m.alive t') := by
  rw [Option.filter_filter]
  congr 1
  funext e
  rw [Bool.and_eq_right_iff_imp]
  unfold Machine.alive
  rw [Bool.not_eq_true', Bool.not_eq_true']
  intro hlive
  by_contra hdead
  rw [Bool.not_eq_false] at hdead
  rw [hmono h hdead] at hlive
  cases hlive

theorem Machine.Same.refl (t : τ) (c : Option ε) : m.Same t c c := fun _ _ => rfl

theorem Machine.Same.mono (h : m.Same t c c') (ht : t ≤ t') : m.Same t' c c' :=
  fun t'' ht' => h t'' (ht.trans ht')

/-- A use of another cell drops a cell only if it is dead. -/
theorem Machine.Same.filter_left (hmono : m.Mono) (h : m.Same t c c') (ht : t ≤ t') :
    m.Same t' (c.filter (m.alive t')) c' := by
  intro t'' ht'
  rw [filter_alive hmono ht']
  exact h t'' (ht.trans ht')

end

/-! A table of cells. -/

variable [DecidableEq κ]

def Machine.tableStep (m : Machine κ ε ρ ω τ) (d : List (κ × ε)) (r : ρ) :
    List (κ × ε) × Option ω :=
  match m.key r with
  | none => (d, none)
  | some k =>
    let (e, o) := m.step (Dict.get? (m.purge (m.time r) d) k) r
    (Dict.set (m.purge (m.time r) d) k e, some o)

theorem get?_purge (hd : Dict.Distinct d) (t : τ) :
    Dict.get? (m.purge t d) k = (Dict.get? d k).filter (m.alive t) := by
  induction d with
  | nil => rfl
  | cons kv d ih =>
    rw [Dict.Distinct, List.map_cons, List.nodup_cons] at hd
    unfold Machine.purge at ih ⊢
    rw [List.filter_cons, Dict.get?_cons]
    by_cases hk : kv.1 = k
    · have hrest : Dict.get? d k = none := Dict.get?_eq_none.mpr (hk ▸ hd.1)
      rw [if_pos hk, Option.filter_some]
      split
      · rw [Dict.get?_cons, if_pos hk]
      · rw [ih hd.2, hrest, Option.filter_none]
    · rw [if_neg hk, ← ih hd.2]
      split
      · rw [Dict.get?_cons, if_neg hk]
      · rfl

theorem tableStep_of_key (hk : m.key r = some k) (hd : Dict.Distinct d) :
    m.tableStep d r = (Dict.set (m.purge (m.time r) d) k
        (m.step ((Dict.get? d k).filter (m.alive (m.time r))) r).1,
      some (m.step ((Dict.get? d k).filter (m.alive (m.time r))) r).2) := by
  rw [← get?_purge hd]
  unfold Machine.tableStep
  rw [hk]

theorem tableStep_of_none (hk : m.key r = none) (d : List (κ × ε)) : m.tableStep d r = (d, none) := by
  unfold Machine.tableStep
  rw [hk]

theorem distinct_tableStep (hd : Dict.Distinct d) (r : ρ) : Dict.Distinct (m.tableStep d r).1 := by
  cases hk : m.key r with
  | none =>
    rw [tableStep_of_none hk]
    exact hd
  | some k =>
    rw [tableStep_of_key hk hd]
    exact Dict.distinct_set (distinct_purge hd _)

/-- A cell that is dead is used like none. -/
def Unseen (m : Machine κ ε ρ ω τ) (d : List (κ × ε)) (r : ρ) : Prop :=
  ∀ k e, m.key r = some k → Dict.get? d k = some e → m.dead (m.time r) e = true →
    m.step none r = m.step (some e) r

theorem step_of_unseen (h : Unseen m d r) (hk : m.key r = some k) :
    m.step ((Dict.get? d k).filter (m.alive (m.time r))) r = m.step (Dict.get? d k) r := by
  cases he : Dict.get? d k with
  | none => rfl
  | some e =>
    rw [Option.filter_some]
    split
    · rfl
    · rename_i hdead
      rw [Machine.alive, Bool.not_eq_true, Bool.not_eq_false'] at hdead
      exact h k e hk he hdead

variable [Preorder τ] {t : τ} {c : Option ε} {rs : List ρ}

/-- A use of one cell, seen from another. -/
theorem same_tableStep (hmono : m.Mono) (hd : Dict.Distinct d) (ht : t ≤ m.time r)
    (hk : m.key r ≠ some k) (h : m.Same t (Dict.get? d k) c) :
    m.Same (m.time r) (Dict.get? (m.tableStep d r).1 k) c := by
  cases hr : m.key r with
  | none =>
    rw [tableStep_of_none hr]
    exact h.mono ht
  | some k' =>
    have hne : k' ≠ k := fun heq => hk (heq ▸ hr)
    rw [tableStep_of_key hr hd, Dict.get?_set, if_neg hne, get?_purge hd]
    exact h.filter_left hmono ht

/-- The trace of a table, seen from one key, is the trace of the cell under it. -/
theorem trace_cell (hmono : m.Mono) (hd : Dict.Distinct d) (hstart : ∀ r ∈ rs, t ≤ m.time r)
    (htimes : rs.Pairwise fun r r' => m.time r ≤ m.time r') (h : m.Same t (Dict.get? d k) c) :
    ((trace m.tableStep d rs).filter fun x => m.key x.1 = some k).map
        (fun x => (x.1, x.2.1, Dict.get? x.2.2 k)) =
      trace m.cellStep c (rs.filter fun r => m.key r = some k) := by
  induction rs generalizing d t c with
  | nil => rfl
  | cons r rs ih =>
    rw [List.forall_mem_cons] at hstart
    rw [List.pairwise_cons] at htimes
    have hdistinct : Dict.Distinct (m.tableStep d r).1 := distinct_tableStep hd r
    rw [trace, List.filter_cons, List.filter_cons]
    dsimp only
    by_cases hk : m.key r = some k
    · have hcell : m.cellStep c r = (Dict.get? (m.tableStep d r).1 k, (m.tableStep d r).2) := by
        unfold Machine.cellStep
        rw [tableStep_of_key hk hd, h _ hstart.1, Dict.get?_set, if_pos rfl]
      rw [if_pos (decide_eq_true hk), if_pos (decide_eq_true hk), List.map_cons, trace, hcell,
        ih hdistinct htimes.1 htimes.2 (.refl _ _)]
    · rw [if_neg fun hd => hk (of_decide_eq_true hd), if_neg fun hd => hk (of_decide_eq_true hd)]
      exact ih hdistinct htimes.1 htimes.2 (same_tableStep hmono hd hstart.1 hk h)

theorem le_times {R : ρ → τ} (htimes : (r :: rs).Pairwise fun r r' => R r ≤ R r') :
    ∀ r' ∈ r :: rs, R r ≤ R r' :=
  List.forall_mem_cons.mpr ⟨le_rfl, (List.pairwise_cons.mp htimes).1⟩

theorem trace_cell_self (hmono : m.Mono) (hd : Dict.Distinct d)
    (htimes : rs.Pairwise fun r r' => m.time r ≤ m.time r') (k : κ) :
    ((trace m.tableStep d rs).filter fun x => m.key x.1 = some k).map
        (fun x => (x.1, x.2.1, Dict.get? x.2.2 k)) =
      trace m.cellStep (Dict.get? d k) (rs.filter fun r => m.key r = some k) := by
  cases rs with
  | nil => rfl
  | cons r rs => exact trace_cell hmono hd (le_times htimes) htimes (.refl _ _)

theorem outputs_cell (hmono : m.Mono) (hd : Dict.Distinct d)
    (htimes : rs.Pairwise fun r r' => m.time r ≤ m.time r') (k : κ) :
    (outputs m.tableStep d rs).filter (fun x => m.key x.1 = some k) =
      outputs m.cellStep (Dict.get? d k) (rs.filter fun r => m.key r = some k) := by
  unfold outputs
  rw [← trace_cell_self hmono hd htimes k, List.filter_map, List.map_map]
  rfl

/-- The outputs for one key are those of a run with the inputs of that key only. -/
theorem outputs_filter (hmono : m.Mono) (hd : Dict.Distinct d)
    (htimes : rs.Pairwise fun r r' => m.time r ≤ m.time r') (k : κ) :
    (outputs m.tableStep d rs).filter (fun x => m.key x.1 = some k) =
      outputs m.tableStep d (rs.filter fun r => m.key r = some k) := by
  have hall : (outputs m.tableStep d (rs.filter fun r => m.key r = some k)).filter
      (fun x => m.key x.1 = some k) =
        outputs m.tableStep d (rs.filter fun r => m.key r = some k) := by
    refine List.filter_eq_self.mpr fun x hx => ?_
    have hmem : x.1 ∈ (outputs m.tableStep d _).map Prod.fst := List.mem_map_of_mem hx
    rw [inputs_outputs] at hmem
    exact (List.mem_filter.mp hmem).2
  rw [← hall, outputs_cell hmono hd htimes, outputs_cell hmono hd (htimes.filter _),
    List.filter_filter]
  simp only [Bool.and_self]

/-! A table that drops nothing. -/

/-- If no step shows whether a dead cell has been dropped, nothing does. -/
theorem outputs_plain (hmono : m.Mono) (hd : Dict.Distinct d) (hd' : Dict.Distinct d')
    (hstart : ∀ r ∈ rs, t ≤ m.time r) (htimes : rs.Pairwise fun r r' => m.time r ≤ m.time r')
    (h : ∀ k, m.Same t (Dict.get? d k) (Dict.get? d' k))
    (hunseen : Run.Meets (fun d r => (m.plain.tableStep d r).1) (Unseen m) d' rs) :
    outputs m.tableStep d rs = outputs m.plain.tableStep d' rs := by
  induction rs generalizing d d' t with
  | nil => rfl
  | cons r rs ih =>
    rw [List.forall_mem_cons] at hstart
    rw [List.pairwise_cons] at htimes
    have hdistinct : Dict.Distinct (m.tableStep d r).1 := distinct_tableStep hd r
    have hdistinct' : Dict.Distinct (m.plain.tableStep d' r).1 := distinct_tableStep hd' r
    rw [outputs_cons, outputs_cons]
    cases hr : m.key r with
    | none =>
      have hr' : m.plain.key r = none := hr
      have hplain : m.plain.tableStep d' r = (d', none) := tableStep_of_none hr' d'
      rw [hplain] at hdistinct' ⊢
      rw [tableStep_of_none hr] at hdistinct ⊢
      have hrest := hunseen.2
      dsimp only at hrest
      rw [hplain] at hrest
      exact congrArg _ (ih hd hd' htimes.1 htimes.2 (fun k => (h k).mono hstart.1) hrest)
    | some k =>
      have hplain : m.plain.tableStep d' r = (Dict.set d' k (m.step (Dict.get? d' k) r).1,
          some (m.step (Dict.get? d' k) r).2) := by
        have hr' : m.plain.key r = some k := hr
        rw [tableStep_of_key hr' hd', filter_plain, purge_plain]
        rfl
      have htable := tableStep_of_key hr hd
      rw [h k _ hstart.1, step_of_unseen hunseen.1 hr] at htable
      have hsame : ∀ k', m.Same (m.time r) (Dict.get? (m.tableStep d r).1 k')
          (Dict.get? (m.plain.tableStep d' r).1 k') := by
        intro k'
        rw [hplain]
        by_cases hk : k = k'
        · rw [htable, Dict.get?_set, if_pos hk, Dict.get?_set, if_pos hk]
          exact .refl _ _
        · rw [Dict.get?_set, if_neg hk]
          exact same_tableStep hmono hd hstart.1 (fun heq => hk (Option.some.inj (hr.symm.trans heq)))
            (h k')
      have hout : (m.tableStep d r).2 = (m.plain.tableStep d' r).2 := by rw [htable, hplain]
      rw [hout, ih hdistinct hdistinct' htimes.1 htimes.2 hsame hunseen.2]

theorem outputs_plain_self (hmono : m.Mono) (hd : Dict.Distinct d)
    (htimes : rs.Pairwise fun r r' => m.time r ≤ m.time r')
    (hunseen : Run.Meets (fun d r => (m.plain.tableStep d r).1) (Unseen m) d rs) :
    outputs m.tableStep d rs = outputs m.plain.tableStep d rs := by
  cases rs with
  | nil => rfl
  | cons r rs =>
    exact outputs_plain hmono hd hd (le_times htimes) htimes (fun _ => .refl _ _) hunseen

end Eyot.LazyPurge
