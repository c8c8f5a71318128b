import Eyot.Data.Rows
import Eyot.Library.Forest
import Eyot.Library.Search

/-! The passage graph of a workspace and the search that guards it. -/

namespace Eyot.Topology

open Links Search

def passageModeDual : String := "dual"

/-- `(lo, hi)` in lexicographic membership-id order. -/
def normalizeEndpoints (membershipA membershipB : Id) : Id × Id :=
  if membershipA ≤ membershipB then (membershipA, membershipB) else (membershipB, membershipA)

def joins (p : Passage) (a b : Id) : Bool :=
  p.fromMembershipId = a && p.toMembershipId = b ||
    p.fromMembershipId = b && p.toMembershipId = a

def link (p : Passage) : Sym2 Id := s(p.fromMembershipId, p.toMembershipId)

def inGraph (workspaceId : Id) (p : Passage) : Bool :=
  p.workspaceId = workspaceId && p.isLive

def activePassages (workspaceId : Id) (ps : List Passage) : List Passage :=
  ps.filter (inGraph workspaceId)

/-- The undirected graph of a workspace: one link for each active, non-deleted passage. -/
def links (workspaceId : Id) (ps : List Passage) : List (Sym2 Id) :=
  (activePassages workspaceId ps).map link

/-- One query of the search: the rows that touch `current`, both columns. -/
def rowsTouching (workspaceId : Id) (ps : List Passage) (current : Id) : List (Id × Id) :=
  ((activePassages workspaceId ps).filter fun p =>
      p.fromMembershipId = current || p.toMembershipId = current).map
    fun p => (p.fromMembershipId, p.toMembershipId)

def neighbors (workspaceId : Id) (ps : List Passage) (current : Id) : List Id :=
  (rowsTouching workspaceId ps current).map fun (a, b) => if a = current then b else a

def endpoints (ps : List Passage) : List Id :=
  ps.flatMap fun p => [p.fromMembershipId, p.toMembershipId]

theorem mem_endpoints_of_neighbors (workspaceId : Id) (ps : List Passage) (x : Id) :
    ∀ y ∈ neighbors workspaceId ps x, y ∈ endpoints ps := by
  intro y hy
  simp only [neighbors, rowsTouching, activePassages, List.map_map, List.mem_map,
    List.mem_filter, Function.comp_apply] at hy
  obtain ⟨p, ⟨⟨hp, _⟩, _⟩, rfl⟩ := hy
  simp only [endpoints, List.mem_flatMap, List.mem_cons, List.not_mem_nil, or_false]
  refine ⟨p, hp, ?_⟩
  split
  · exact .inr rfl
  · exact .inl rfl

/-- Every round takes one membership off the queue, and each joins the queue once. -/
theorem checkAcyclic_ends (workspaceId : Id) (ps : List Passage) (fromId toId : Id) :
    (search (neighbors workspaceId ps) fromId (1 + (endpoints ps).length) (start toId)).isSome := by
  apply search_isSome (mem_endpoints_of_neighbors workspaceId ps)
  exact Nat.add_le_add_left (unseen_le _ _) 1

def checkAcyclic (workspaceId : Id) (ps : List Passage) (fromId toId : Id) : Bool :=
  if fromId = toId then false
  else (search (neighbors workspaceId ps) fromId (1 + (endpoints ps).length) (start toId)).get
    (checkAcyclic_ends workspaceId ps fromId toId)

@[simp] theorem mem_neighbors (workspaceId : Id) (ps : List Passage) (x y : Id) :
    y ∈ neighbors workspaceId ps x ↔ s(x, y) ∈ links workspaceId ps := by
  simp only [neighbors, rowsTouching, links, List.map_map, List.mem_map, List.mem_filter,
    Function.comp_apply, Bool.or_eq_true, decide_eq_true_eq]
  constructor
  · rintro ⟨p, ⟨hp, htouch⟩, rfl⟩
    refine ⟨p, hp, ?_⟩
    split
    · rename_i hx
      rw [link, hx]
    · rename_i hx
      rw [link, htouch.resolve_left hx, Sym2.eq_swap]
  · rintro ⟨p, hp, hlink⟩
    rcases Sym2.eq_iff.mp hlink with ⟨hx, hy⟩ | ⟨hy, hx⟩
    · exact ⟨p, ⟨hp, .inl hx⟩, by rw [if_pos hx, hy]⟩
    · refine ⟨p, ⟨hp, .inr hx⟩, ?_⟩
      split
      · rename_i hxy
        rw [hx, ← hxy, hy]
      · exact hy

theorem reaches_iff_connected (workspaceId : Id) (ps : List Passage) (a b : Id) :
    Reaches (neighbors workspaceId ps) a b ↔ Connected (links workspaceId ps) a b := by
  simp only [connected_iff_reflTransGen, Reaches, mem_neighbors]

/-- The check is exact: it passes just when the endpoints lie in different trees. -/
theorem checkAcyclic_iff (workspaceId : Id) (ps : List Passage) (fromId toId : Id) :
    checkAcyclic workspaceId ps fromId toId = true ↔
      ¬Connected (links workspaceId ps) fromId toId := by
  unfold checkAcyclic
  by_cases h : fromId = toId
  · subst h
    simp
  · rw [if_neg h]
    have hsome := Option.some_get (checkAcyclic_ends workspaceId ps fromId toId)
    rw [search_eq_some (explored_start _ h) hsome.symm, reaches_iff_connected]
    exact not_congr ⟨.symm, .symm⟩

/-- A search that has run dry is what makes the check pass. -/
theorem checkAcyclic_of_explored {workspaceId fromId toId : Id} {ps : List Passage}
    {visited : List Id} (h : Explored (neighbors workspaceId ps) toId fromId ⟨visited, []⟩) :
    checkAcyclic workspaceId ps fromId toId = true := by
  have hreach := h.not_reaches
  rw [reaches_iff_connected] at hreach
  rw [checkAcyclic_iff]
  exact fun hconn => hreach hconn.symm

theorem checkAcyclic_link (workspaceId : Id) (ps : List Passage) (p : Passage) :
    checkAcyclic workspaceId ps p.fromMembershipId p.toMembershipId = true ∧
        IsForest (links workspaceId ps) ↔
      IsForest (link p :: links workspaceId ps) := by
  rw [link, isForest_cons, checkAcyclic_iff, and_comm]

/-! How the graph changes with the rows. -/

theorem links_append (workspaceId : Id) (ps qs : List Passage) :
    links workspaceId (ps ++ qs) = links workspaceId ps ++ links workspaceId qs := by
  simp [links, activePassages]

theorem links_cons_of_inGraph {workspaceId : Id} {p : Passage} (h : inGraph workspaceId p = true)
    (ps : List Passage) : links workspaceId (p :: ps) = link p :: links workspaceId ps := by
  simp [links, activePassages, h]

theorem links_cons_of_not_inGraph {workspaceId : Id} {p : Passage}
    (h : inGraph workspaceId p = false) (ps : List Passage) :
    links workspaceId (p :: ps) = links workspaceId ps := by
  simp [links, activePassages, h]

theorem links_append_singleton {workspaceId : Id} {p : Passage} (h : inGraph workspaceId p = true)
    (ps : List Passage) :
    (links workspaceId (ps ++ [p])).Perm (link p :: links workspaceId ps) := by
  rw [links_append, links_cons_of_inGraph h]
  exact List.perm_append_singleton _ _

/-- A row that enters the graph in place adds its link. -/
theorem links_enter {workspaceId : Id} {p q : Passage} (hp : inGraph workspaceId p = false)
    (hq : inGraph workspaceId q = true) (l₁ l₂ : List Passage) :
    (links workspaceId (l₁ ++ q :: l₂)).Perm (link q :: links workspaceId (l₁ ++ p :: l₂)) := by
  rw [links_append, links_append, links_cons_of_inGraph hq, links_cons_of_not_inGraph hp]
  exact List.perm_middle

/-- Rows that only leave the graph, or keep their link, leave fewer links. -/
theorem links_map_sublist (workspaceId : Id) (f : Passage → Passage) (ps : List Passage)
    (hf : ∀ p ∈ ps, inGraph workspaceId (f p) = true →
      inGraph workspaceId p = true ∧ link (f p) = link p) :
    (links workspaceId (ps.map f)).Sublist (links workspaceId ps) := by
  induction ps with
  | nil => exact .slnil
  | cons p ps ih =>
    replace ih := ih fun q hq => hf q (List.mem_cons_of_mem p hq)
    rw [List.map_cons]
    cases h : inGraph workspaceId (f p) with
    | false =>
      rw [links_cons_of_not_inGraph h]
      cases hp : inGraph workspaceId p with
      | false => rwa [links_cons_of_not_inGraph hp]
      | true =>
        rw [links_cons_of_inGraph hp]
        exact ih.cons _
    | true =>
      obtain ⟨hp, hlink⟩ := hf p List.mem_cons_self h
      rw [links_cons_of_inGraph h, links_cons_of_inGraph hp, hlink]
      exact ih.cons_cons _

end Eyot.Topology
