import Mathlib.Combinatorics.SimpleGraph.Acyclic

/-! Undirected links kept as a list of unordered pairs: a multigraph in which a loop or a
second link between the same two points closes a cycle, as a longer cycle does. -/

universe u v

namespace Eyot.Links

variable {α : Type u}

def graph (E : List (Sym2 α)) : SimpleGraph α := .fromEdgeSet {e | e ∈ E}

@[simp] theorem graph_adj (E : List (Sym2 α)) (a b : α) :
    (graph E).Adj a b ↔ s(a, b) ∈ E ∧ a ≠ b := by
  simp [graph]

abbrev Connected (E : List (Sym2 α)) : α → α → Prop := (graph E).Reachable

theorem connected_of_mem {E : List (Sym2 α)} {a b : α} (h : s(a, b) ∈ E) : Connected E a b := by
  by_cases hab : a = b
  · subst hab
    exact .refl _
  · exact SimpleGraph.Adj.reachable ((graph_adj E a b).mpr ⟨h, hab⟩)

theorem graph_mono {E F : List (Sym2 α)} (h : E ⊆ F) : graph E ≤ graph F :=
  SimpleGraph.fromEdgeSet_mono fun _ he => h he

theorem Connected.mono {E F : List (Sym2 α)} (h : E ⊆ F) {a b : α} (hab : Connected E a b) :
    Connected F a b :=
  SimpleGraph.Reachable.mono (graph_mono h) hab

theorem connected_iff_reflTransGen (E : List (Sym2 α)) (a b : α) :
    Connected E a b ↔ Relation.ReflTransGen (fun x y => s(x, y) ∈ E) a b := by
  have h := SimpleGraph.reachable_fromEdgeSet_eq_reflTransGen_toRel (s := {e | e ∈ E})
  exact iff_of_eq (congrFun (congrFun h a) b)

theorem graph_cons (a b : α) (E : List (Sym2 α)) :
    graph (s(a, b) :: E) = graph E ⊔ SimpleGraph.edge a b := by
  ext x y
  simp only [graph_adj, List.mem_cons, SimpleGraph.sup_adj, SimpleGraph.edge_adj, Sym2.eq_iff]
  tauto

structure IsForest (E : List (Sym2 α)) : Prop where
  loopless : ∀ e ∈ E, ¬e.IsDiag
  simple : E.Nodup
  acyclic : (graph E).IsAcyclic

theorem isForest_nil : IsForest ([] : List (Sym2 α)) where
  loopless := by simp
  simple := List.nodup_nil
  acyclic := by
    have h : graph ([] : List (Sym2 α)) = ⊥ := by ext; simp
    rw [h]
    exact SimpleGraph.isAcyclic_bot

/-- A forest grows to a forest exactly by a link between two of its trees. -/
theorem isForest_cons (a b : α) (E : List (Sym2 α)) :
    IsForest (s(a, b) :: E) ↔ IsForest E ∧ ¬Connected E a b := by
  constructor
  · rintro ⟨hloop, hsimple, hacyclic⟩
    rw [graph_cons, SimpleGraph.isAcyclic_sup_fromEdgeSet_iff] at hacyclic
    have hab : a ≠ b := by simpa using hloop s(a, b) List.mem_cons_self
    obtain ⟨hfresh, hnodup⟩ := List.nodup_cons.mp hsimple
    refine ⟨⟨fun e he => hloop e (List.mem_cons_of_mem _ he), hnodup, hacyclic.1⟩, fun h => ?_⟩
    rcases hacyclic.2 h with heq | hadj
    · exact hab heq
    · exact hfresh ((graph_adj E a b).mp hadj).1
  · rintro ⟨⟨hloop, hsimple, hacyclic⟩, hsep⟩
    have hab : a ≠ b := by
      rintro rfl
      exact hsep (.refl _)
    refine ⟨?_, ?_, ?_⟩
    · intro e he
      rcases List.mem_cons.mp he with rfl | he
      · simpa using hab
      · exact hloop e he
    · exact List.nodup_cons.mpr ⟨fun h => hsep (connected_of_mem h), hsimple⟩
    · rw [graph_cons]
      exact hacyclic.sup_edge_of_not_reachable hsep

theorem IsForest.perm {E F : List (Sym2 α)} (h : E.Perm F) (hE : IsForest E) : IsForest F where
  loopless e he := hE.loopless e (h.mem_iff.mpr he)
  simple := h.nodup_iff.mp hE.simple
  acyclic := hE.acyclic.anti (graph_mono h.symm.subset)

theorem isForest_perm {E F : List (Sym2 α)} (h : E.Perm F) : IsForest E ↔ IsForest F :=
  ⟨.perm h, .perm h.symm⟩

theorem IsForest.sublist {E F : List (Sym2 α)} (h : E.Sublist F) (hF : IsForest F) :
    IsForest E where
  loopless e he := hF.loopless e (h.subset he)
  simple := hF.simple.sublist h
  acyclic := hF.acyclic.anti (graph_mono h.subset)

/-! Points under other names. -/

section Map

variable {β : Type v} {φ : α → β} {V : Set α} {E : List (Sym2 α)}

theorem connected_map (hφ : Set.InjOn φ V) (hV : ∀ e ∈ E, ∀ x ∈ e, x ∈ V) {a : α} {y : β}
    (ha : a ∈ V) (h : Connected (E.map (Sym2.map φ)) (φ a) y) :
    ∃ b ∈ V, φ b = y ∧ Connected E a b := by
  rw [connected_iff_reflTransGen] at h
  induction h with
  | refl => exact ⟨a, ha, rfl, .refl a⟩
  | tail _ hlink ih =>
    obtain ⟨b, hb, rfl, hconn⟩ := ih
    obtain ⟨e, he, heq⟩ := List.mem_map.mp hlink
    induction e using Sym2.ind with
    | _ x x' =>
      have hx := hV _ he x (Sym2.mem_mk_left x x')
      have hx' := hV _ he x' (Sym2.mem_mk_right x x')
      rw [Sym2.map_mk, Sym2.eq_iff] at heq
      obtain ⟨hl, rfl⟩ | ⟨rfl, hr⟩ := heq
      · obtain rfl := hφ hx hb hl
        exact ⟨x', hx', rfl, hconn.trans (connected_of_mem he)⟩
      · obtain rfl := hφ hx' hb hr
        exact ⟨x, hx, rfl, hconn.trans (connected_of_mem he).symm⟩

theorem IsForest.map (hφ : Set.InjOn φ V) (hV : ∀ e ∈ E, ∀ x ∈ e, x ∈ V) (h : IsForest E) :
    IsForest (E.map (Sym2.map φ)) := by
  induction E with
  | nil => exact isForest_nil
  | cons e E ih =>
    have hE : ∀ e' ∈ E, ∀ x ∈ e', x ∈ V := fun e' he' => hV e' (List.mem_cons_of_mem e he')
    induction e using Sym2.ind with
    | _ a b =>
      obtain ⟨hforest, hsep⟩ := (isForest_cons a b E).mp h
      rw [List.map_cons, Sym2.map_mk, isForest_cons]
      refine ⟨ih hE hforest, ?_⟩
      intro hconn
      have ha := hV _ List.mem_cons_self a (Sym2.mem_mk_left a b)
      have hb := hV _ List.mem_cons_self b (Sym2.mem_mk_right a b)
      obtain ⟨b', hb', heq, hab⟩ := connected_map hφ hE ha hconn
      obtain rfl := hφ hb' hb heq
      exact hsep hab

end Map

end Eyot.Links
