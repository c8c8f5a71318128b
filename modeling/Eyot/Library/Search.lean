import Mathlib.Logic.Relation
import Mathlib.Data.List.Basic

/-! Breadth-first search for a target, over an adjacency that is queried point by point. -/

universe u

namespace Eyot.Search

variable {α : Type u}

structure Frontier (α : Type u) where
  visited : List α
  queue : List α
  deriving DecidableEq

def start (a : α) : Frontier α := ⟨[a], [a]⟩

abbrev Reaches (adj : α → List α) : α → α → Prop :=
  Relation.ReflTransGen fun x y => y ∈ adj x

/-- What a search from `a` for `target` knows: it has visited only what `a` reaches, all
neighbours of what it has dealt with, and not the target. -/
structure Explored (adj : α → List α) (a target : α) (f : Frontier α) : Prop where
  start_mem : a ∈ f.visited
  reached : ∀ x ∈ f.visited, Reaches adj a x
  queued : ∀ x ∈ f.queue, x ∈ f.visited
  closed : ∀ x ∈ f.visited, x ∉ f.queue → ∀ y ∈ adj x, y ∈ f.visited
  missed : target ∉ f.visited

theorem explored_start (adj : α → List α) {a target : α} (h : target ≠ a) :
    Explored adj a target (start a) where
  start_mem := List.mem_singleton_self a
  reached x hx := by
    obtain rfl := List.mem_singleton.mp hx
    exact .refl
  queued _ hx := hx
  closed _ hx hq := absurd hx hq
  missed hx := h (List.mem_singleton.mp hx)

theorem Explored.not_reaches {adj : α → List α} {a target : α} {visited : List α}
    (hf : Explored adj a target ⟨visited, []⟩) : ¬Reaches adj a target := by
  intro h
  have hall : ∀ x, Reaches adj a x → x ∈ visited := by
    intro x hx
    induction hx with
    | refl => exact hf.start_mem
    | tail _ hxy ih => exact hf.closed _ ih List.not_mem_nil _ hxy
  exact hf.missed (hall target h)

variable [DecidableEq α]

/-- Takes the neighbours of one point in; `none` when the target is among them. -/
def meet (target : α) : Frontier α → List α → Option (Frontier α)
  | f, [] => some f
  | f, n :: ns =>
    if n = target then none
    else if n ∈ f.visited then meet target f ns
    else meet target ⟨n :: f.visited, f.queue ++ [n]⟩ ns

/-- `some false` when the target turns up, `some true` when the queue runs dry before it
does, `none` when neither happens within `fuel` rounds. -/
def search (adj : α → List α) (target : α) : Nat → Frontier α → Option Bool
  | _, ⟨_, []⟩ => some true
  | 0, ⟨_, _ :: _⟩ => none
  | fuel + 1, ⟨visited, current :: queue⟩ =>
    match meet target ⟨visited, queue⟩ (adj current) with
    | none => some false
    | some f => search adj target fuel f

theorem meet_eq_none {target : α} {f : Frontier α} {ns : List α} :
    meet target f ns = none ↔ target ∈ ns := by
  induction ns generalizing f with
  | nil => simp [meet]
  | cons n ns ih =>
    by_cases hn : n = target
    · simp [meet, hn]
    · have hn' : ¬target = n := fun h => hn h.symm
      by_cases hv : n ∈ f.visited <;> simp [meet, hn, hn', hv, ih]

theorem mem_visited_meet {target : α} {f g : Frontier α} {ns : List α}
    (h : meet target f ns = some g) (x : α) : x ∈ g.visited ↔ x ∈ f.visited ∨ x ∈ ns := by
  induction ns generalizing f with
  | nil =>
    obtain rfl : f = g := by simpa [meet] using h
    simp
  | cons n ns ih =>
    by_cases hn : n = target
    · simp [meet, hn] at h
    · by_cases hv : n ∈ f.visited
      · simp only [meet, hn, hv, if_true, if_false] at h
        rw [ih h, List.mem_cons]
        constructor
        · tauto
        · rintro (hx | rfl | hx) <;> tauto
      · simp only [meet, hn, hv, if_false] at h
        rw [ih h]
        simp only [List.mem_cons]
        tauto

theorem mem_queue_meet {target : α} {f g : Frontier α} {ns : List α}
    (h : meet target f ns = some g) (x : α) :
    x ∈ g.queue ↔ x ∈ f.queue ∨ x ∈ ns ∧ x ∉ f.visited := by
  induction ns generalizing f with
  | nil =>
    obtain rfl : f = g := by simpa [meet] using h
    simp
  | cons n ns ih =>
    by_cases hn : n = target
    · simp [meet, hn] at h
    · by_cases hv : n ∈ f.visited
      · simp only [meet, hn, hv, if_true, if_false] at h
        rw [ih h, List.mem_cons]
        constructor
        · tauto
        · rintro (hx | ⟨rfl | hx, hxv⟩)
          · exact .inl hx
          · exact absurd hv hxv
          · exact .inr ⟨hx, hxv⟩
      · simp only [meet, hn, hv, if_false] at h
        rw [ih h]
        simp only [List.mem_append, List.mem_cons, List.not_mem_nil, or_false]
        constructor
        · rintro ((hx | rfl) | ⟨hx, hxv⟩)
          · exact .inl hx
          · exact .inr ⟨.inl rfl, hv⟩
          · exact .inr ⟨.inr hx, fun hf => hxv (.inr hf)⟩
        · rintro (hx | ⟨rfl | hx, hxv⟩)
          · exact .inl (.inl hx)
          · exact .inl (.inr rfl)
          · by_cases hxn : x = n
            · exact .inl (.inr hxn)
            · exact .inr ⟨hx, fun hf => hf.elim hxn hxv⟩

/-- The points of `U` a search has not seen yet; what bounds its rounds. -/
def unseen (U : List α) (f : Frontier α) : Nat :=
  (U.filter (· ∉ f.visited)).length

theorem unseen_visit {U : List α} {f : Frontier α} {n : α} (hU : n ∈ U) (hv : n ∉ f.visited)
    (q : List α) : unseen U ⟨n :: f.visited, q⟩ + 1 ≤ unseen U f := by
  unfold unseen
  induction U with
  | nil => simp at hU
  | cons u U ih =>
    have hle : (U.filter (· ∉ n :: f.visited)).length ≤ (U.filter (· ∉ f.visited)).length := by
      apply (List.monotone_filter_right U _).length_le
      intro x hx
      simp only [decide_eq_true_eq, List.mem_cons, not_or] at hx ⊢
      exact hx.2
    by_cases hun : u = n
    · subst hun
      simpa [hv] using hle
    · have hU' : n ∈ U := (List.mem_cons.mp hU).resolve_left fun h => hun h.symm
      have := ih hU'
      by_cases huv : u ∈ f.visited <;> simp_all

theorem meet_measure {target : α} {f g : Frontier α} {ns U : List α} (hU : ∀ n ∈ ns, n ∈ U)
    (h : meet target f ns = some g) :
    g.queue.length + unseen U g ≤ f.queue.length + unseen U f := by
  induction ns generalizing f with
  | nil =>
    obtain rfl : f = g := by simpa [meet] using h
    exact Nat.le_refl _
  | cons n ns ih =>
    have hns : ∀ m ∈ ns, m ∈ U := fun m hm => hU m (List.mem_cons_of_mem n hm)
    by_cases hn : n = target
    · simp [meet, hn] at h
    · by_cases hv : n ∈ f.visited
      · simp only [meet, hn, hv, if_true, if_false] at h
        exact ih hns h
      · simp only [meet, hn, hv, if_false] at h
        have hlt := unseen_visit (hU n List.mem_cons_self) hv (f.queue ++ [n])
        have hle := ih hns h
        simp only [List.length_append, List.length_singleton] at hle
        omega

/-- With every neighbour in a finite `U`, a search ends within `|queue| + |U|` rounds. -/
theorem search_isSome {adj : α → List α} {U : List α} (hU : ∀ x, ∀ y ∈ adj x, y ∈ U)
    (target : α) {fuel : Nat} {f : Frontier α} (hfuel : f.queue.length + unseen U f ≤ fuel) :
    (search adj target fuel f).isSome := by
  induction fuel generalizing f with
  | zero =>
    obtain ⟨visited, queue⟩ := f
    cases queue with
    | nil => rfl
    | cons current queue => simp at hfuel
  | succ fuel ih =>
    obtain ⟨visited, queue⟩ := f
    cases queue with
    | nil => rfl
    | cons current queue =>
      simp only [search]
      cases hm : meet target ⟨visited, queue⟩ (adj current) with
      | none => rfl
      | some g =>
        apply ih
        have hle := meet_measure (hU current) hm
        have hsame : unseen U ⟨visited, current :: queue⟩ = unseen U ⟨visited, queue⟩ := rfl
        rw [hsame] at hfuel
        simp only [List.length_cons] at hfuel hle
        omega

theorem unseen_le (U : List α) (f : Frontier α) : unseen U f ≤ U.length :=
  List.length_filter_le _ _

theorem Explored.meet {adj : α → List α} {a target current : α} {visited queue : List α}
    {g : Frontier α} (hf : Explored adj a target ⟨visited, current :: queue⟩)
    (hm : meet target ⟨visited, queue⟩ (adj current) = some g) : Explored adj a target g := by
  have hvisited := mem_visited_meet hm
  have hqueue := mem_queue_meet hm
  have hcur : current ∈ visited := hf.queued current List.mem_cons_self
  have htarget : target ∉ adj current := fun h => by
    rw [meet_eq_none.mpr h] at hm
    cases hm
  refine ⟨(hvisited a).mpr (.inl hf.start_mem), ?_, ?_, ?_, ?_⟩
  · intro x hx
    rcases (hvisited x).mp hx with hx | hx
    · exact hf.reached x hx
    · exact (hf.reached current hcur).tail hx
  · intro x hx
    rcases (hqueue x).mp hx with hx | ⟨hx, _⟩
    · exact (hvisited x).mpr (.inl (hf.queued x (List.mem_cons_of_mem _ hx)))
    · exact (hvisited x).mpr (.inr hx)
  · intro x hx hxq y hy
    have hxv : x ∈ visited := by
      rcases (hvisited x).mp hx with hxv | hxn
      · exact hxv
      · by_contra hxv
        exact hxq ((hqueue x).mpr (.inr ⟨hxn, hxv⟩))
    by_cases hxc : x = current
    · subst hxc
      exact (hvisited y).mpr (.inr hy)
    · have hxold : x ∉ current :: queue := by
        rintro (_ | ⟨_, h⟩)
        · exact hxc rfl
        · exact hxq ((hqueue x).mpr (.inl h))
      exact (hvisited y).mpr (.inl (hf.closed x hxv hxold y hy))
  · intro h
    rcases (hvisited target).mp h with h | h
    · exact hf.missed h
    · exact htarget h

theorem Explored.reaches_of_meet {adj : α → List α} {a target current : α}
    {visited queue : List α} (hf : Explored adj a target ⟨visited, current :: queue⟩)
    (hm : Search.meet target ⟨visited, queue⟩ (adj current) = none) : Reaches adj a target :=
  (hf.reached current (hf.queued current List.mem_cons_self)).tail (meet_eq_none.mp hm)

/-- A search that ends has decided reachability. -/
theorem search_eq_some {adj : α → List α} {a target : α} {fuel : Nat} {f : Frontier α}
    {b : Bool} (hf : Explored adj a target f) (h : search adj target fuel f = some b) :
    b = true ↔ ¬Reaches adj a target := by
  induction fuel generalizing f with
  | zero =>
    obtain ⟨visited, queue⟩ := f
    cases queue with
    | nil =>
      obtain rfl : true = b := by simpa [search] using h
      simpa using hf.not_reaches
    | cons current queue => simp [search] at h
  | succ fuel ih =>
    obtain ⟨visited, queue⟩ := f
    cases queue with
    | nil =>
      obtain rfl : true = b := by simpa [search] using h
      simpa using hf.not_reaches
    | cons current queue =>
      simp only [search] at h
      cases hm : Search.meet target ⟨visited, queue⟩ (adj current) with
      | none =>
        rw [hm] at h
        obtain rfl : false = b := by simpa using h
        simpa using hf.reaches_of_meet hm
      | some g =>
        rw [hm] at h
        exact ih (hf.meet hm) h

end Eyot.Search
