import Eyot.Routing.Gate

/-! Three readers of a workspace's passages, and the one undirected relation they agree on: the
search before a new passage, the lookup a delivery makes, and the list an agent sees. -/

namespace Eyot.Topology

open Links Search Routing

/-- An active, non-deleted passage of the workspace joins the two, stored either way round. -/
def Adjacent (workspaceId : Id) (ps : List Passage) (a b : Id) : Prop :=
  ∃ p ∈ ps, p.workspaceId = workspaceId ∧ p.isActive = true ∧ p.deletedAt = none ∧
    joins p a b = true

theorem joins_comm (p : Passage) (a b : Id) : joins p a b = joins p b a := by
  simp only [joins]
  rw [Bool.or_comm]

theorem joins_iff_link (p : Passage) (a b : Id) : joins p a b = true ↔ link p = s(a, b) := by
  simp only [joins, link, Bool.or_eq_true, Bool.and_eq_true, decide_eq_true_eq, Sym2.eq_iff]

theorem adjacent_comm {workspaceId a b : Id} {ps : List Passage} :
    Adjacent workspaceId ps a b ↔ Adjacent workspaceId ps b a := by
  simp only [Adjacent, joins_comm]

theorem adjacent_iff_link (workspaceId : Id) (ps : List Passage) (a b : Id) :
    Adjacent workspaceId ps a b ↔ s(a, b) ∈ links workspaceId ps := by
  simp only [Adjacent, links, activePassages, List.mem_map, List.mem_filter, inGraph,
    Passage.isLive, Bool.and_eq_true, decide_eq_true_eq, Option.isNone_iff_eq_none,
    joins_iff_link, and_assoc]

theorem connected_iff_adjacent (workspaceId : Id) (ps : List Passage) (a b : Id) :
    Connected (links workspaceId ps) a b ↔
      Relation.ReflTransGen (Adjacent workspaceId ps) a b := by
  rw [connected_iff_reflTransGen]
  simp only [← adjacent_iff_link]

/-- The search comes to an end on every set of rows, forest or not, and its answer is exact. -/
theorem checkAcyclic_exact (workspaceId : Id) (ps : List Passage) (fromId toId : Id) :
    (search (neighbors workspaceId ps) fromId (1 + (endpoints ps).length) (start toId)).isSome ∧
      (checkAcyclic workspaceId ps fromId toId = true ↔
        fromId ≠ toId ∧ ¬Relation.ReflTransGen (Adjacent workspaceId ps) fromId toId) := by
  refine ⟨checkAcyclic_ends workspaceId ps fromId toId, ?_⟩
  rw [checkAcyclic_iff, connected_iff_adjacent]
  constructor
  · intro h
    refine ⟨?_, h⟩
    rintro rfl
    exact h .refl
  · rintro ⟨-, h⟩
    exact h

/-! The neighbours of a membership, as its agent is told. -/

def addNeighbor (neighbors : List Id) (other : Id) : List Id :=
  if other ≠ "" ∧ other ∉ neighbors then neighbors ++ [other] else neighbors

def neighborMembershipIds (db : Db) (workspaceId membershipId : Id) : List Id :=
  (neighbors workspaceId db.passages.rows membershipId).foldl addNeighbor []

theorem mem_addNeighbor {ns : List Id} {other x : Id} :
    x ∈ addNeighbor ns other ↔ x ∈ ns ∨ x ≠ "" ∧ x = other := by
  unfold addNeighbor
  split
  · rename_i h
    rw [List.mem_append, List.mem_singleton]
    constructor
    · rintro (hx | rfl)
      · exact .inl hx
      · exact .inr ⟨h.1, rfl⟩
    · rintro (hx | ⟨-, hx⟩)
      · exact .inl hx
      · exact .inr hx
  · rename_i h
    constructor
    · exact .inl
    · rintro (hx | ⟨hne, rfl⟩)
      · exact hx
      · by_contra hx
        exact h ⟨hne, hx⟩

theorem nodup_addNeighbor {ns : List Id} (h : ns.Nodup) (other : Id) :
    (addNeighbor ns other).Nodup := by
  unfold addNeighbor
  split
  · rename_i hnew
    rw [List.nodup_append]
    refine ⟨h, List.nodup_singleton other, ?_⟩
    intro x hx y hy hxy
    rw [List.mem_singleton] at hy
    rw [hxy, hy] at hx
    exact hnew.2 hx
  · exact h

theorem mem_foldl_addNeighbor {ns others : List Id} {x : Id} :
    x ∈ others.foldl addNeighbor ns ↔ x ∈ ns ∨ x ≠ "" ∧ x ∈ others := by
  induction others generalizing ns with
  | nil => simp
  | cons other others ih =>
    rw [List.foldl_cons, ih, mem_addNeighbor, List.mem_cons, or_assoc, ← and_or_left]

theorem nodup_foldl_addNeighbor {ns : List Id} (h : ns.Nodup) (others : List Id) :
    (others.foldl addNeighbor ns).Nodup := by
  induction others generalizing ns with
  | nil => exact h
  | cons other others ih => exact ih (nodup_addNeighbor h other)

theorem mem_neighborMembershipIds (db : Db) (workspaceId a b : Id) :
    b ∈ neighborMembershipIds db workspaceId a ↔
      b ≠ "" ∧ Adjacent workspaceId db.passages.rows a b := by
  rw [neighborMembershipIds, mem_foldl_addNeighbor, mem_neighbors, adjacent_iff_link]
  simp only [List.not_mem_nil, false_or]

theorem findActivePassageBetween_isSome (db : Db) (workspaceId a b : Id) :
    (findActivePassageBetween db workspaceId a b).isSome = true ↔
      Adjacent workspaceId db.passages.rows a b := by
  rw [findActivePassageBetween_eq, List.find?_isSome]
  simp only [Adjacent, Bool.and_eq_true, decide_eq_true_eq, Option.isNone_iff_eq_none, and_assoc]

/-- What an agent is told of its neighbours is what a delivery finds, for any two memberships:
their ids are minted, so neither is empty. -/
theorem neighborhood_agrees (db : Db) (workspaceId : Id) {a b : Id} (ha : a ≠ "") (hb : b ≠ "") :
    (b ∈ neighborMembershipIds db workspaceId a ↔
        (findActivePassageBetween db workspaceId a b).isSome = true) ∧
      (b ∈ neighborMembershipIds db workspaceId a ↔
        a ∈ neighborMembershipIds db workspaceId b) ∧
      (neighborMembershipIds db workspaceId a).Nodup := by
  refine ⟨?_, ?_, nodup_foldl_addNeighbor List.nodup_nil _⟩
  · rw [mem_neighborMembershipIds, findActivePassageBetween_isSome]
    exact and_iff_right hb
  · rw [mem_neighborMembershipIds, mem_neighborMembershipIds, adjacent_comm, and_iff_right hb,
      and_iff_right ha]

def bothWays : List Passage :=
  [⟨"p", "w", "a", "b", true, passageModeDual, none, none⟩,
    ⟨"q", "w", "b", "a", true, passageModeDual, none, none⟩]

theorem bothWays_nodup : (bothWays.map Passage.id).Nodup := by decide

theorem bothWays_unique : Passage.UniqueActiveEdge bothWays := by decide

/-- Two active passages between one pair, one of them stored the old way round. -/
def linkedTwice : Db where
  workspaces := .single ⟨"w", "n", none⟩
  entities := .empty
  instances := .empty
  memberships := .empty
  passages := ⟨bothWays, bothWays_nodup⟩
  loopStates := .empty
  uniqueActiveEdge := bothWays_unique

theorem neighborhood_agrees_linkedTwice :
    (findActivePassageBetween linkedTwice "w" "a" "b").isSome = true ∧
      "b" ∈ neighborMembershipIds linkedTwice "w" "a" ∧
      (neighborMembershipIds linkedTwice "w" "a").Nodup := by
  have hfound : (findActivePassageBetween linkedTwice "w" "a" "b").isSome = true := by decide
  obtain ⟨hagree, -, hnodup⟩ :=
    @neighborhood_agrees linkedTwice "w" "a" "b" (by decide) (by decide)
  exact ⟨hfound, hagree.mpr hfound, hnodup⟩

end Eyot.Topology
