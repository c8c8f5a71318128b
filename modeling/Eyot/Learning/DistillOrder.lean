import Eyot.Learning.DistillAgreement
import Eyot.Library.Tally

/-! What the order in which the rows of an entity are read has to do with what is distilled from
them. -/

namespace Eyot.Learning

open Market (truthy)
open Tally (IsTop occurrences)

/-- The same candidates, in whatever order, and the same suggestion and counts. -/
def SameResult : Except Failure DistillResult → Except Failure DistillResult → Prop
  | .ok r, .ok r' => (∀ c, c ∈ r.capabilityCandidates ↔ c ∈ r'.capabilityCandidates) ∧
      r.geneSuggestion = r'.geneSuggestion ∧ r.aggregatedMemory = r'.aggregatedMemory
  | .error e, .error e' => e = e'
  | _, _ => False

def OrderFree (s : Store) (entityId : Id) (request : DistillRequest) : Prop :=
  ∀ scan scan', scan.Perm (s.activeMemories entityId) → scan'.Perm (s.activeMemories entityId) →
    SameResult (distill s scan entityId request) (distill s scan' entityId request)

/-! The candidates. -/

theorem length_capabilityCandidates {candidates : List CapabilityCandidate}
    (h : candidates.length < MAX_COMMANDS) (entries : List Memory) :
    (capabilityCandidates candidates entries).length ≤ MAX_COMMANDS := by
  induction entries generalizing candidates with
  | nil => exact Nat.le_of_lt h
  | cons e entries ih =>
    rw [capabilityCandidates]
    split
    · exact ih h
    · split
      · exact ih h
      · split
        · rw [List.length_append]
          exact h
        · rename_i hroom
          refine ih ?_
          rw [List.length_append]
          exact Nat.not_le.mp hroom

/-- The keys that candidates can be named by. -/
def candidateKeys (entries : List Memory) : List Str := (entries.filterMap candidateKey?).dedup

theorem mem_candidateKeys {entries : List Memory} {key : Str} :
    key ∈ candidateKeys entries ↔ ∃ e ∈ entries, candidateKey? e = some key := by
  rw [candidateKeys, List.mem_dedup, List.mem_filterMap]

/-- Entries of one key make one candidate, and there are not too many keys. -/
structure SettledCandidates (entries : List Memory) : Prop where
  contents : ∀ e ∈ entries, ∀ e' ∈ entries, ∀ key, candidateKey? e = some key →
    candidateKey? e' = some key → capabilityCandidate e key = capabilityCandidate e' key
  few : (candidateKeys entries).length ≤ MAX_COMMANDS

/-- An entry whose key comes first makes the candidate of that key. -/
theorem mem_of_first {e : Memory} {key : Str} (hkey : candidateKey? e = some key)
    (entries : List Memory) : capabilityCandidate e key ∈ capabilityCandidates [] (e :: entries) := by
  have hfirst : capabilityCandidates [] (e :: entries) =
      capabilityCandidates [capabilityCandidate e key] entries := by
    rw [capabilityCandidates, hkey]
    rfl
  rw [hfirst]
  exact subset_capabilityCandidates _ entries List.mem_cons_self

theorem SettledCandidates.mem_iff {entries : List Memory} (h : SettledCandidates entries)
    {scan : List Memory} (hscan : scan.Perm entries) (c : CapabilityCandidate) :
    c ∈ capabilityCandidates [] scan ↔
      ∃ e ∈ entries, candidateKey? e = some c.name ∧ c = capabilityCandidate e c.name := by
  constructor
  · intro hc
    obtain hc | ⟨e, he, hkey, heq⟩ := capabilityCandidates_names c hc
    · cases hc
    · exact ⟨e, hscan.mem_iff.mp he, hkey, heq⟩
  · rintro ⟨e, he, hkey, heq⟩
    have hname := mem_of_few (candidateKeys entries) h.few
      (fun e he key hkey => mem_candidateKeys.mpr ⟨e, hscan.mem_iff.mp he, hkey⟩)
      (hscan.mem_iff.mpr he) hkey
    obtain ⟨c', hc', hsame⟩ := List.mem_map.mp hname
    obtain hc'' | ⟨e', he', hkey', heq'⟩ := capabilityCandidates_names c' hc'
    · cases hc''
    · rw [hsame] at hkey' heq'
      rw [heq, h.contents e he e' (hscan.mem_iff.mp he') c.name hkey hkey', ← heq']
      exact hc'

/-- The candidates are the same in whatever order exactly when they are settled. -/
theorem candidates_perm_iff {entries : List Memory} :
    (∀ scan, scan.Perm entries → ∀ scan', scan'.Perm entries → ∀ c,
      c ∈ capabilityCandidates [] scan ↔ c ∈ capabilityCandidates [] scan') ↔
      SettledCandidates entries := by
  constructor
  · intro h
    -- Every entry with a key can be read first.
    have hall : ∀ e ∈ entries, ∀ key, candidateKey? e = some key → ∀ scan, scan.Perm entries →
        capabilityCandidate e key ∈ capabilityCandidates [] scan := by
      intro e he key hkey scan hscan
      obtain ⟨rest, hperm⟩ := exists_perm_cons he
      exact (h _ hperm.symm scan hscan _).mp (mem_of_first hkey rest)
    have hnodup := @nodup_capabilityCandidates [] entries List.nodup_nil
    refine ⟨fun e he e' he' key hkey hkey' => ?_, ?_⟩
    · exact List.inj_on_of_nodup_map hnodup (hall e he key hkey entries (.refl _))
        (hall e' he' key hkey' entries (.refl _)) rfl
    · have hsub : candidateKeys entries ⊆
          (capabilityCandidates [] entries).map CapabilityCandidate.name := by
        intro key hkey
        obtain ⟨e, he, hkey⟩ := mem_candidateKeys.mp hkey
        exact List.mem_map.mpr ⟨_, hall e he key hkey entries (.refl _), rfl⟩
      refine ((List.nodup_dedup _).subperm hsub).length_le.trans ?_
      rw [List.length_map]
      exact length_capabilityCandidates (by decide) entries
  · intro h scan hscan scan' hscan' c
    rw [h.mem_iff hscan, h.mem_iff hscan']

/-! The suggestion. -/

/-- What an entry counts for. -/
def prefixOf? (e : Memory) : Option Str :=
  (if isCandidateSource e then (truthy e.key).map extractKeyPrefix else none).filter (· ≠ [])

theorem countPrefix_eq : countPrefix = Tally.count prefixOf? := by
  funext counts e
  unfold countPrefix Tally.count prefixOf?
  cases (if isCandidateSource e then (truthy e.key).map extractKeyPrefix else none) with
  | none => rfl
  | some p => cases p <;> rfl

theorem geneSuggestion_eq (entries : List Memory) :
    geneSuggestion (prefixCounts entries) =
      Tally.mostFrequent (Tally.tally prefixOf? entries) := by
  unfold prefixCounts
  rw [countPrefix_eq]
  rfl

/-! The whole. -/

/-- Whatever the order, the entries come to the same. -/
structure Settled (entries : List Memory) : Prop extends SettledCandidates entries where
  top : ∀ p q, IsTop prefixOf? entries p → IsTop prefixOf? entries q → p = q

theorem aggregateMemoryCounts_perm {entries entries' : List Memory} (h : entries.Perm entries') :
    aggregateMemoryCounts entries = aggregateMemoryCounts entries' := by
  unfold aggregateMemoryCounts
  simp only [h.countP_eq]

theorem select_perm (request : DistillRequest) {scan rows : List Memory} (h : scan.Perm rows) :
    (request.select scan).Perm (request.select rows) := by
  unfold DistillRequest.select
  split
  · exact h
  · exact h
  · exact h.filter _

/-- The entries that are asked for can be read in whatever order. -/
theorem exists_select_eq (request : DistillRequest) {rows m : List Memory}
    (h : m.Perm (request.select rows)) : ∃ scan, scan.Perm rows ∧ request.select scan = m := by
  unfold DistillRequest.select at h ⊢
  split at h
  · exact ⟨m, h, rfl⟩
  · exact ⟨m, h, rfl⟩
  · rename_i kinds _ _
    refine ⟨m ++ rows.filter fun e => !kinds.contains e.kind,
      (h.append_right _).trans (List.filter_append_perm _ rows), ?_⟩
    have hm : ∀ e ∈ m, kinds.contains e.kind = true := fun e he =>
      (List.mem_filter.mp (h.mem_iff.mp he)).2
    rw [List.filter_append, List.filter_eq_self.mpr hm, List.filter_filter]
    simp

/-- What is distilled is the same in whatever order the rows are read, exactly for an entity that
is not there and for entries that are settled. -/
theorem distilled_orderFree_iff (s : Store) (entityId : Id) (request : DistillRequest) :
    OrderFree s entityId request ↔ s.entities.find? entityId = none ∨
      Settled (request.select (s.activeMemories entityId)) := by
  unfold OrderFree distill
  cases hentity : s.entities.find? entityId with
  | none => exact iff_of_true (fun _ _ _ _ => rfl) (.inl rfl)
  | some e =>
    rw [or_iff_right (Option.some_ne_none e)]
    dsimp only
    constructor
    · intro h
      have hsame : ∀ m m', m.Perm (request.select (s.activeMemories entityId)) →
          m'.Perm (request.select (s.activeMemories entityId)) →
          (∀ c, c ∈ capabilityCandidates [] m ↔ c ∈ capabilityCandidates [] m') ∧
            geneSuggestion (prefixCounts m) = geneSuggestion (prefixCounts m') := by
        intro m m' hm hm'
        obtain ⟨scan, hscan, rfl⟩ := exists_select_eq request hm
        obtain ⟨scan', hscan', rfl⟩ := exists_select_eq request hm'
        have hboth := h scan scan' hscan hscan'
        by_cases hempty : (request.select scan).isEmpty = true
        · have hnil := List.isEmpty_iff.mp hempty
          have hnil' : request.select scan' = [] := by
            rw [hnil] at hm
            rw [← hm.nil_eq] at hm'
            exact hm'.eq_nil
          rw [hnil, hnil']
          exact ⟨fun _ => Iff.rfl, rfl⟩
        · have hempty' : ¬ (request.select scan').isEmpty = true := by
            rw [List.isEmpty_iff_length_eq_zero] at hempty ⊢
            rwa [hm'.length_eq, ← hm.length_eq]
          rw [if_neg hempty, if_neg hempty'] at hboth
          exact ⟨hboth.1, hboth.2.1⟩
      refine ⟨candidates_perm_iff.mp fun m hm m' hm' => (hsame m m' hm hm').1, ?_⟩
      refine Tally.mostFrequent_perm_iff.mp fun m hm => ?_
      rw [← geneSuggestion_eq, ← geneSuggestion_eq]
      exact (hsame m _ hm.symm (.refl _)).2
    · intro h scan scan' hscan hscan'
      have hm := select_perm request hscan
      have hm' := select_perm request hscan'
      have hlen : (request.select scan).isEmpty = (request.select scan').isEmpty := by
        rw [Bool.eq_iff_iff, List.isEmpty_iff_length_eq_zero, List.isEmpty_iff_length_eq_zero,
          hm.length_eq, hm'.length_eq]
      rw [← hlen]
      split
      · exact rfl
      · refine ⟨candidates_perm_iff.mpr h.toSettledCandidates _ hm _ hm', ?_,
          aggregateMemoryCounts_perm (hm.trans hm'.symm)⟩
        have hgene := Tally.mostFrequent_perm_iff.mpr h.top
        change geneSuggestion (prefixCounts _) = geneSuggestion (prefixCounts _)
        rw [geneSuggestion_eq, geneSuggestion_eq, hgene _ hm.symm, hgene _ hm'.symm]

/-- Two lessons under one key. -/
def twice : Store where
  entities := .single heron
  namespaces := .single ⟨"marsh", "delta", false⟩
  memories := [tideNote "lesson", { tideNote "lesson" with content := some "Read it last.".toList }]
  market := []
  uniqueName := List.nodup_nil

/-- The content that is read first describes the candidate. -/
theorem not_orderFree_twice : ¬ OrderFree twice "heron" ⟨none, none⟩ := by
  intro h
  have hswap := h (twice.activeMemories "heron") (twice.activeMemories "heron").reverse (.refl _)
    (List.reverse_perm _)
  have hkey : candidateKey? (tideNote "lesson") = some "tide-table".toList := by decide +kernel
  have hread := (hswap.1 _).mp (mem_of_first hkey _)
  have hdescription : some "Read it first.".toList ∉
      (capabilityCandidates [] (twice.activeMemories "heron").reverse).map
        CapabilityCandidate.description := by decide +kernel
  exact hdescription (List.mem_map.mpr ⟨_, hread, rfl⟩)

end Eyot.Learning
