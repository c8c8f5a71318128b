import Eyot.Topology.ForestLaws

/-! Any number of `create_passage` transactions at once, under READ COMMITTED: every
statement reads what is committed when it runs, and a transaction shows nothing before its
commit.  One step of a schedule is one statement of one transaction. -/

namespace Eyot.Topology.Concurrent

open Links Search

inductive Pc where
  | lockFrom
  | lockTo
  | lookup
  | checking (f : Frontier Id) (epoch : Nat)
  | reviving (existing : Passage)
  | finished (result : Except Failure Passage)

structure Txn where
  ctx : Context
  body : PassageCreate
  pc : Pc

namespace Txn

def fromId (t : Txn) : Id := (normalizeEndpoints t.body.fromMembershipId t.body.toMembershipId).1

def toId (t : Txn) : Id := (normalizeEndpoints t.body.fromMembershipId t.body.toMembershipId).2

def passage (t : Txn) : Passage := newPassage t.ctx t.body t.fromId t.toId

end Txn

/-- The committed rows, who holds the lock of each membership row, and the transactions.
`epoch` counts the commits; no statement reads it, it only tells commits apart. -/
structure Sys where
  db : Db
  locks : Id → Option Nat
  epoch : Nat
  txns : Nat → Txn

namespace Sys

def setPc (s : Sys) (i : Nat) (pc : Pc) : Sys :=
  { s with txns := fun j => if j = i then { s.txns i with pc := pc } else s.txns j }

/-- Commit or rollback: the locks of the transaction go. -/
def finish (s : Sys) (i : Nat) (result : Except Failure Passage) : Sys :=
  { s.setPc i (.finished result) with
    locks := fun m => if s.locks m = some i then none else s.locks m }

def commitAs (s : Sys) (i : Nat) (p : Passage) : Except Failure Db → Sys
  | .error e => s.finish i (.error e)
  | .ok db => { s.finish i (.ok p) with db := db, epoch := s.epoch + 1 }

/-- `SELECT .. FOR UPDATE` of a membership row; it waits while another transaction holds it. -/
def lockRow (s : Sys) (i : Nat) (m : Id) (next : Pc) : Sys :=
  if !hasMembership s.db m then s.finish i (.error (membershipNotFound m))
  else if (s.locks m).any fun j => j ≠ i then s
  else { s.setPc i next with locks := fun n => if n = m then some i else s.locks n }

end Sys

def step (s : Sys) (i : Nat) : Sys :=
  let t := s.txns i
  match t.pc with
  | .lockFrom => s.lockRow i t.fromId .lockTo
  | .lockTo => s.lockRow i t.toId .lookup
  | .lookup =>
    match existingPassage t.ctx s.db t.body.workspaceId t.fromId t.toId with
    | some existing =>
      if existing.deletedAt.isNone then s.finish i (.error passageDuplicate)
      else s.setPc i (.reviving existing)
    | none =>
      if t.fromId = t.toId then s.finish i (.error passageWouldCreateCycle)
      else s.setPc i (.checking (start t.toId) s.epoch)
  | .checking ⟨visited, current :: queue⟩ epoch =>
    match meet t.fromId ⟨visited, queue⟩ (neighbors t.body.workspaceId s.db.passages.rows current) with
    | none => s.finish i (.error passageWouldCreateCycle)
    | some f => s.setPc i (.checking f epoch)
  | .checking ⟨_, []⟩ _ => s.commitAs i t.passage (insertPassage t.ctx s.db t.passage)
  | .reviving existing =>
    s.commitAs i (revive t.fromId t.toId existing)
      (commit t.ctx s.db (s.db.passages.update existing.id (revive t.fromId t.toId) fun _ => rfl))
  | .finished _ => s

def begin (db : Db) (requests : Nat → Context × PassageCreate) : Sys where
  db := db
  locks _ := none
  epoch := 0
  txns i := ⟨(requests i).1, (requests i).2, .lockFrom⟩

def insertable (ctx : Context) (db : Db) (p : Passage) : Bool :=
  storable ctx db p && (db.workspaces.find? p.workspaceId).isSome && (db.passages.find? p.id).isNone

/-- The passage a transaction is about to commit on the strength of no search, or of a search
that other commits have overtaken. -/
def unchecked (s : Sys) (i : Nat) : Option Passage :=
  let t := s.txns i
  match t.pc with
  | .checking ⟨_, []⟩ epoch =>
    if epoch ≠ s.epoch && insertable t.ctx s.db t.passage then some t.passage else none
  | .reviving existing =>
    let p := revive t.fromId t.toId existing
    if storable t.ctx s.db p then some p else none
  | _ => none

/-- Such a passage would pass the search on the rows it is committed to. -/
def Rechecked (workspaceId : Id) (s : Sys) (i : Nat) : Prop :=
  ∀ p, unchecked s i = some p → p.workspaceId = workspaceId →
    checkAcyclic workspaceId s.db.passages.rows p.fromMembershipId p.toMembershipId = true

instance (workspaceId : Id) (s : Sys) (i : Nat) : Decidable (Rechecked workspaceId s i) :=
  decidable_of_iff (∀ p ∈ unchecked s i, p.workspaceId = workspaceId →
    checkAcyclic workspaceId s.db.passages.rows p.fromMembershipId p.toMembershipId = true) Iff.rfl

/-! What the locks and the searches under way guarantee. -/

def Holds (s : Sys) (i : Nat) : Prop :=
  s.locks (s.txns i).fromId = some i ∧ s.locks (s.txns i).toId = some i

/-- What transaction `i` can rely on.  Its search is good for the committed rows as long as
nobody has committed since it began. -/
def TxnInv (s : Sys) (i : Nat) : Prop :=
  match (s.txns i).pc with
  | .lockTo => s.locks (s.txns i).fromId = some i
  | .lookup => Holds s i
  | .checking f epoch =>
    epoch ≤ s.epoch ∧ Holds s i ∧ (epoch = s.epoch →
      Explored (neighbors (s.txns i).body.workspaceId s.db.passages.rows) (s.txns i).toId
        (s.txns i).fromId f)
  | .reviving existing =>
    Holds s i ∧ existing ∈ s.db.passages.rows ∧ existing.deletedAt.isSome ∧
      existing.workspaceId = (s.txns i).body.workspaceId ∧
      joins existing (s.txns i).fromId (s.txns i).toId
  | _ => True

def Inv (s : Sys) : Prop := ∀ i, TxnInv s i

/-- What a step of transaction `i` leaves to the others. -/
structure Frame (i : Nat) (s s' : Sys) : Prop where
  txns : ∀ j, j ≠ i → s'.txns j = s.txns j
  locks : ∀ j, j ≠ i → ∀ m, s.locks m = some j → s'.locks m = some j
  epoch : s.epoch ≤ s'.epoch
  rows : s'.epoch = s.epoch → s'.db.passages.rows = s.db.passages.rows
  revived : ∀ j, j ≠ i → ∀ r, (s.txns j).pc = .reviving r → r ∈ s.db.passages.rows →
    r ∈ s'.db.passages.rows

theorem TxnInv.frame {i j : Nat} {s s' : Sys} (hj : j ≠ i) (hf : Frame i s s') (h : TxnInv s j) :
    TxnInv s' j := by
  unfold TxnInv Holds at *
  rw [hf.txns j hj]
  cases hpc : (s.txns j).pc with
  | lockFrom => trivial
  | lockTo =>
    rw [hpc] at h
    exact hf.locks j hj _ h
  | lookup =>
    rw [hpc] at h
    exact ⟨hf.locks j hj _ h.1, hf.locks j hj _ h.2⟩
  | checking f epoch =>
    rw [hpc] at h
    obtain ⟨hle, ⟨hfrom, hto⟩, hexplored⟩ := h
    refine ⟨hle.trans hf.epoch, ⟨hf.locks j hj _ hfrom, hf.locks j hj _ hto⟩, fun heq => ?_⟩
    have hsame : s'.epoch = s.epoch := Nat.le_antisymm (heq ▸ hle) hf.epoch
    rw [hf.rows hsame]
    exact hexplored (heq.trans hsame)
  | reviving existing =>
    rw [hpc] at h
    obtain ⟨⟨hfrom, hto⟩, hmem, hrest⟩ := h
    exact ⟨⟨hf.locks j hj _ hfrom, hf.locks j hj _ hto⟩, hf.revived j hj existing hpc hmem, hrest⟩
  | finished result => trivial

theorem Inv.frame {i : Nat} {s s' : Sys} (h : Inv s) (hf : Frame i s s') (hi : TxnInv s' i) :
    Inv s' := by
  intro j
  by_cases hj : j = i
  · rwa [hj]
  · exact (h j).frame hj hf

theorem frame_setPc (s : Sys) (i : Nat) (pc : Pc) : Frame i s (s.setPc i pc) where
  txns _ hj := if_neg hj
  locks _ _ _ h := h
  epoch := Nat.le_refl _
  rows _ := rfl
  revived _ _ _ _ h := h

theorem frame_finish (s : Sys) (i : Nat) (result : Except Failure Passage) :
    Frame i s (s.finish i result) where
  txns _ hj := if_neg hj
  locks j hj m h := by
    change (if s.locks m = some i then none else s.locks m) = some j
    rw [if_neg (by rw [h]; simpa using hj), h]
  epoch := Nat.le_refl _
  rows _ := rfl
  revived _ _ _ _ h := h

@[simp] theorem setPc_txns_self (s : Sys) (i : Nat) (pc : Pc) :
    (s.setPc i pc).txns i = { s.txns i with pc := pc } := if_pos rfl

theorem txnInv_of_finished {s : Sys} {i : Nat} (result : Except Failure Passage)
    (h : (s.txns i).pc = .finished result) : TxnInv s i := by
  simp [TxnInv, h]

theorem inv_finish {s : Sys} (h : Inv s) (i : Nat) (result : Except Failure Passage) :
    Inv (s.finish i result) :=
  h.frame (frame_finish s i result) (txnInv_of_finished result (by simp [Sys.finish]))

theorem inv_commitAs {s : Sys} (h : Inv s) (i : Nat) (p : Passage) {result : Except Failure Db}
    (hrows : ∀ db, result = .ok db → ∀ j, j ≠ i → ∀ r, (s.txns j).pc = .reviving r →
      r ∈ s.db.passages.rows → r ∈ db.passages.rows) : Inv (s.commitAs i p result) := by
  cases result with
  | error e => exact inv_finish h i (.error e)
  | ok db =>
    have hf := frame_finish s i (.ok p)
    have hf' : Frame i s (s.commitAs i p (.ok db)) :=
      ⟨hf.txns, hf.locks, Nat.le_succ _, fun heq => absurd heq (Nat.succ_ne_self _), hrows db rfl⟩
    apply h.frame hf'
    exact txnInv_of_finished (.ok p) (by simp [Sys.commitAs, Sys.finish])

theorem inv_lockRow {s : Sys} (h : Inv s) (i : Nat) (m : Id) (next : Pc)
    (hi : ∀ s' : Sys, s'.txns i = { s.txns i with pc := next } → s'.locks m = some i →
      (∀ n, s.locks n = some i → s'.locks n = some i) → TxnInv s' i) :
    Inv (s.lockRow i m next) := by
  unfold Sys.lockRow
  split
  · exact inv_finish h i _
  · split
    · exact h
    · rename_i hfree
      have hheld : ∀ j, s.locks m = some j → j = i := by
        intro j hj
        simpa [hj] using hfree
      apply h.frame (i := i)
      · refine ⟨fun j hj => if_neg hj, fun j hj n hn => ?_, Nat.le_refl _, fun _ => rfl,
          fun _ _ _ _ h => h⟩
        change (if n = m then some i else s.locks n) = some j
        split
        · rename_i hnm
          subst hnm
          exact absurd (hheld j hn) hj
        · exact hn
      · apply hi
        · simp
        · exact if_pos rfl
        · intro n hn
          change (if n = m then some i else s.locks n) = some i
          split
          · rfl
          · exact hn

theorem joins_iff (p : Passage) (a b : Id) : joins p a b = true ↔ link p = s(a, b) := by
  simp [joins, link]

theorem existingPassage_joins {ctx : Context} {db : Db} {ws fromId toId : Id} {p : Passage}
    (h : existingPassage ctx db ws fromId toId = some p) :
    p.workspaceId = ws ∧ joins p fromId toId := by
  have := (List.mem_filter.mp (List.mem_of_getElem? h)).2
  simpa using this

@[simp] theorem Txn.fromId_setPc (t : Txn) (pc : Pc) : Txn.fromId { t with pc := pc } = t.fromId :=
  rfl

@[simp] theorem Txn.toId_setPc (t : Txn) (pc : Pc) : Txn.toId { t with pc := pc } = t.toId := rfl

theorem holds_setPc {s : Sys} {i : Nat} (pc : Pc) (h : Holds s i) : Holds (s.setPc i pc) i := by
  simp only [Holds, setPc_txns_self]
  exact h

/-- The rows two transactions are reviving belong to pairs whose locks differ. -/
theorem revived_apart {s : Sys} (h : Inv s) {i j : Nat} (hj : j ≠ i) {r r' : Passage}
    (hi : (s.txns i).pc = .reviving r) (hr' : (s.txns j).pc = .reviving r') : r' ≠ r := by
  rintro rfl
  have hi' := h i
  have hj' := h j
  rw [TxnInv, hi] at hi'
  rw [TxnInv, hr'] at hj'
  obtain ⟨⟨hfrom, hto⟩, -, -, -, hjoins⟩ := hi'
  obtain ⟨⟨hfrom', hto'⟩, -, -, -, hjoins'⟩ := hj'
  rw [joins_iff] at hjoins hjoins'
  have hsame : (s.txns j).fromId = (s.txns i).fromId ∨ (s.txns j).fromId = (s.txns i).toId := by
    have hmem : (s.txns j).fromId ∈ link r' := hjoins' ▸ Sym2.mem_mk_left _ _
    rwa [hjoins, Sym2.mem_iff] at hmem
  rcases hsame with heq | heq
  · rw [heq, hfrom] at hfrom'
    exact hj (Option.some.inj hfrom').symm
  · rw [heq, hto] at hfrom'
    exact hj (Option.some.inj hfrom').symm

theorem mem_update_of_ne {t : Table Passage.id} {r r' : Passage} (hr : r ∈ t.rows)
    (hr' : r' ∈ t.rows) (hne : r' ≠ r) (f : Passage → Passage) (hf : ∀ p, (f p).id = p.id) :
    r' ∈ (t.update r.id f hf).rows := by
  obtain ⟨l₁, l₂, hold, hnew⟩ := t.update_rows hr f hf
  rw [hold] at hr'
  rw [hnew]
  simp only [List.mem_append, List.mem_cons, hne, false_or] at hr' ⊢
  exact hr'.imp_right .inr

theorem inv_step {s : Sys} (h : Inv s) (i : Nat) : Inv (step s i) := by
  have hi := h i
  rw [TxnInv] at hi
  unfold step
  dsimp only
  cases hpc : (s.txns i).pc with
  | lockFrom =>
    apply inv_lockRow h
    intro s' ht hlock _
    simpa [TxnInv, ht] using hlock
  | lockTo =>
    rw [hpc] at hi
    apply inv_lockRow h
    intro s' ht hlock hkeep
    simpa [TxnInv, Holds, ht] using And.intro (hkeep _ hi) hlock
  | lookup =>
    rw [hpc] at hi
    dsimp only
    split
    · rename_i existing hex
      split
      · exact inv_finish h i _
      · rename_i hdel
        apply h.frame (frame_setPc s i _)
        obtain ⟨hws, hjoins⟩ := existingPassage_joins hex
        simp only [TxnInv, setPc_txns_self]
        refine ⟨holds_setPc _ hi, (existingPassage_eq_some hex).1, ?_, hws, hjoins⟩
        simpa [Option.isSome_iff_ne_none] using hdel
    · split
      · exact inv_finish h i _
      · rename_i hne
        apply h.frame (frame_setPc s i _)
        simp only [TxnInv, setPc_txns_self]
        exact ⟨Nat.le_refl _, holds_setPc _ hi, fun _ => explored_start _ hne⟩
  | checking f epoch =>
    rw [hpc] at hi
    obtain ⟨hle, hholds, hexplored⟩ := hi
    obtain ⟨visited, queue⟩ := f
    cases queue with
    | nil =>
      dsimp only
      apply inv_commitAs h
      intro db hdb j _ r _ hr
      rw [(insertPassage_eq_ok hdb).1]
      exact List.mem_append_left _ hr
    | cons current queue =>
      dsimp only
      split
      · exact inv_finish h i _
      · rename_i g hm
        apply h.frame (frame_setPc s i _)
        simp only [TxnInv, setPc_txns_self]
        exact ⟨hle, holds_setPc _ hholds, fun heq => (hexplored heq).meet hm⟩
  | reviving existing =>
    rw [hpc] at hi
    obtain ⟨-, hmem, -⟩ := hi
    apply inv_commitAs h
    intro db hdb j hj r hr hrmem
    rw [(commit_eq_ok hdb).1]
    exact mem_update_of_ne hmem hrmem (revived_apart h hj hpc hr) _ _
  | finished result => exact h

theorem uniqueActiveEdge_append {p : Passage} (hp : p.isLive = true) (ps : List Passage) :
    Passage.UniqueActiveEdge (ps ++ [p]) ↔
      Passage.UniqueActiveEdge ps ∧ p.edgeKey ∉ (ps.filter Passage.isLive).map Passage.edgeKey := by
  unfold Passage.UniqueActiveEdge
  rw [List.filter_append, List.filter_cons_of_pos hp, List.filter_nil, List.map_append,
    List.map_singleton, List.nodup_append_comm, List.singleton_append, List.nodup_cons]
  exact and_comm

theorem commit_isOk (ctx : Context) (db : Db) (passages : Table Passage.id) :
    (∃ db', commit ctx db passages = .ok db') ↔
      ctx.connectionLost = false ∧ Passage.UniqueActiveEdge passages.rows := by
  unfold commit
  cases ctx.connectionLost with
  | true => simp
  | false =>
    by_cases h : Passage.UniqueActiveEdge passages.rows <;> simp [h]

theorem inv_begin (db : Db) (requests : Nat → Context × PassageCreate) :
    Inv (begin db requests) := fun _ => trivial

theorem insertPassage_isOk (ctx : Context) (db : Db) {p : Passage} (hp : p.isLive = true) :
    (∃ db', insertPassage ctx db p = .ok db') ↔ insertable ctx db p = true := by
  unfold insertPassage insertable storable edgeTaken
  cases hws : db.workspaces.find? p.workspaceId with
  | none => simp
  | some w =>
  cases hins : db.passages.insert? p with
  | none =>
    have hfind : db.passages.find? p.id ≠ none := fun h =>
      Table.find?_eq_none.mp h (Table.insert?_eq_none.mp hins)
    simp [hfind]
  | some passages =>
    have hfind : db.passages.find? p.id = none := by
      rw [Table.find?_eq_none, ← Table.insert?_eq_none, hins]
      simp
    have hcommit := commit_isOk ctx db passages
    rw [Table.insert?_rows hins, uniqueActiveEdge_append hp] at hcommit
    have hiff : (∃ db', commit ctx db passages = .ok db') ↔ ctx.connectionLost = false ∧
        p.edgeKey ∉ (db.passages.rows.filter Passage.isLive).map Passage.edgeKey :=
      hcommit.trans (and_congr_right fun _ => and_iff_right db.uniqueActiveEdge)
    cases hc : commit ctx db passages with
    | ok db' => simpa [hc, hfind] using hiff
    | error e =>
      cases e <;> simpa [hc, hfind] using hiff

/-- What a step commits, if anything: a fresh row that joins two trees, or a row nobody has
searched for. -/
inductive StepLinks (ws : Id) (s : Sys) (i : Nat) : Prop
  | same (h : links ws (step s i).db.passages.rows = links ws s.db.passages.rows)
      (hnone : ∀ p, unchecked s i = some p → p.workspaceId ≠ ws)
  | joined (p : Passage) (hnone : unchecked s i = none)
      (hcheck : checkAcyclic ws s.db.passages.rows p.fromMembershipId p.toMembershipId = true)
      (h : (links ws (step s i).db.passages.rows).Perm (link p :: links ws s.db.passages.rows))
  | unsearched (p : Passage) (hsome : unchecked s i = some p) (hws : p.workspaceId = ws)
      (h : (links ws (step s i).db.passages.rows).Perm (link p :: links ws s.db.passages.rows))

theorem finish_db (s : Sys) (i : Nat) (result : Except Failure Passage) :
    (s.finish i result).db = s.db := rfl

theorem lockRow_db (s : Sys) (i : Nat) (m : Id) (next : Pc) : (s.lockRow i m next).db = s.db := by
  unfold Sys.lockRow
  split
  · rfl
  · split <;> rfl

theorem StepLinks.of_unchanged {ws : Id} {s : Sys} {i : Nat} (h : (step s i).db = s.db)
    (hnone : unchecked s i = none) : StepLinks ws s i := by
  refine .same (by rw [h]) fun p hp => ?_
  rw [hnone] at hp
  cases hp

/-- A search that has run dry, and the row that is inserted then. -/
theorem stepLinks_insert (ws : Id) {s : Sys} {i : Nat} {visited : List Id} {epoch : Nat}
    (hpc : (s.txns i).pc = .checking ⟨visited, []⟩ epoch)
    (hdry : epoch = s.epoch → checkAcyclic (s.txns i).passage.workspaceId s.db.passages.rows
      (s.txns i).passage.fromMembershipId (s.txns i).passage.toMembershipId = true) :
    StepLinks ws s i := by
  have hlive : (s.txns i).passage.isLive = true := rfl
  have hok := insertPassage_isOk (s.txns i).ctx s.db hlive
  cases hins : insertPassage (s.txns i).ctx s.db (s.txns i).passage with
  | error e =>
    have hnot : insertable (s.txns i).ctx s.db (s.txns i).passage = false := by
      rw [hins] at hok
      simpa using hok
    apply StepLinks.of_unchanged
    · simp only [step, hpc, hins, Sys.commitAs, finish_db]
    · simp [unchecked, hpc, hnot]
  | ok db' =>
    have hcan : insertable (s.txns i).ctx s.db (s.txns i).passage = true := hok.mp ⟨db', hins⟩
    have hrows : (step s i).db.passages.rows = s.db.passages.rows ++ [(s.txns i).passage] := by
      simp only [step, hpc, hins, Sys.commitAs]
      exact (insertPassage_eq_ok hins).1
    by_cases hws : (s.txns i).passage.workspaceId = ws
    · have hgraph : inGraph ws (s.txns i).passage = true := by simp [inGraph, hws, hlive]
      have hlinks := links_append_singleton hgraph s.db.passages.rows
      rw [← hrows] at hlinks
      by_cases hepoch : epoch = s.epoch
      · refine .joined (s.txns i).passage ?_ (hws ▸ hdry hepoch) hlinks
        simp [unchecked, hpc, hepoch]
      · refine .unsearched (s.txns i).passage ?_ hws hlinks
        simp [unchecked, hpc, hepoch, hcan]
    · refine .same ?_ ?_
      · rw [hrows, links_append, links_cons_of_not_inGraph (by simp [inGraph, hws])]
        simp [links, activePassages]
      · intro p hp
        simp only [unchecked, hpc] at hp
        split at hp
        · rwa [← Option.some.inj hp]
        · cases hp

/-- A row that was removed comes back without a search. -/
theorem stepLinks_revive (ws : Id) {s : Sys} {i : Nat} {existing : Passage}
    (hpc : (s.txns i).pc = .reviving existing) (hmem : existing ∈ s.db.passages.rows)
    (hlive : existing.isLive = false) : StepLinks ws s i := by
  have hun : unchecked s i = if storable (s.txns i).ctx s.db
      (revive (s.txns i).fromId (s.txns i).toId existing) then
        some (revive (s.txns i).fromId (s.txns i).toId existing) else none := by
    simp only [unchecked, hpc]
  rcases commit_return (s.txns i).ctx (f := revive (s.txns i).fromId (s.txns i).toId)
      (fun _ => rfl) hmem hlive rfl rfl with ⟨hwhy, e, he⟩ | ⟨hlost, htaken, db', hok, hlinks⟩
  · apply StepLinks.of_unchanged
    · simp only [step, hpc, he, Sys.commitAs, finish_db]
    · rw [hun, if_neg]
      rcases hwhy with hlost | htaken <;> simp [storable, *]
  · have hsome : unchecked s i = some (revive (s.txns i).fromId (s.txns i).toId existing) := by
      rw [hun, if_pos (by simp [storable, hlost, htaken])]
    have hdb : (step s i).db = db' := by simp only [step, hpc, hok, Sys.commitAs]
    have hlinks' := hlinks ws
    rw [← hdb] at hlinks'
    split at hlinks'
    · rename_i hws
      exact .unsearched _ hsome hws hlinks'
    · rename_i hws
      refine .same hlinks' fun p hp => ?_
      rw [hsome] at hp
      rwa [← Option.some.inj hp]

theorem stepLinks (ws : Id) {s : Sys} (h : Inv s) (i : Nat) : StepLinks ws s i := by
  have hi := h i
  rw [TxnInv] at hi
  cases hpc : (s.txns i).pc with
  | lockFrom =>
    apply StepLinks.of_unchanged
    · simp only [step, hpc, lockRow_db]
    · simp only [unchecked, hpc]
  | lockTo =>
    apply StepLinks.of_unchanged
    · simp only [step, hpc, lockRow_db]
    · simp only [unchecked, hpc]
  | lookup =>
    apply StepLinks.of_unchanged
    · simp only [step, hpc]
      split <;> split <;> rfl
    · simp only [unchecked, hpc]
  | finished result =>
    apply StepLinks.of_unchanged
    · simp only [step, hpc]
    · simp only [unchecked, hpc]
  | checking f epoch =>
    rw [hpc] at hi
    obtain ⟨-, -, hexplored⟩ := hi
    obtain ⟨visited, queue⟩ := f
    cases queue with
    | cons current queue =>
      apply StepLinks.of_unchanged
      · simp only [step, hpc]
        split <;> rfl
      · simp only [unchecked, hpc]
    | nil =>
      -- Where nobody has committed since the search began, it tells what is connected now.
      exact stepLinks_insert ws hpc fun hepoch => checkAcyclic_of_explored (hexplored hepoch)
  | reviving existing =>
    rw [hpc] at hi
    obtain ⟨-, hmem, hdel, -, -⟩ := hi
    have hlive : existing.isLive = false := by
      cases hd : existing.deletedAt with
      | none => simp [hd] at hdel
      | some t => simp [Passage.isLive, hd]
    exact stepLinks_revive ws hpc hmem hlive

theorem step_isForest_iff (ws : Id) {s : Sys} (h : Inv s) (i : Nat)
    (hforest : IsForest (links ws s.db.passages.rows)) :
    IsForest (links ws (step s i).db.passages.rows) ↔ Rechecked ws s i := by
  cases stepLinks ws h i with
  | same heq hnone =>
    rw [heq]
    exact ⟨fun _ p hp hws => absurd hws (hnone p hp), fun _ => hforest⟩
  | joined p hnone hcheck hperm =>
    refine ⟨fun _ q hq => ?_, fun _ => ?_⟩
    · rw [hnone] at hq
      cases hq
    · exact ((checkAcyclic_link ws _ p).mp ⟨hcheck, hforest⟩).perm hperm.symm
  | unsearched p hsome hws hperm =>
    rw [isForest_perm hperm, ← checkAcyclic_link]
    constructor
    · rintro ⟨hcheck, _⟩ q hq _
      obtain rfl := Option.some.inj (hsome.symm.trans hq)
      exact hcheck
    · exact fun hrechecked => ⟨hrechecked p hsome hws, hforest⟩

/-- From a forest, concurrent transactions commit forests only, exactly when whatever a
transaction commits unsearched, or on a search that other commits have overtaken, would still
pass the search at its commit. -/
theorem commits_stay_forest_iff_rechecked (ws : Id) (db : Db)
    (requests : Nat → Context × PassageCreate) (schedule : List Nat)
    (hforest : IsForest (links ws db.passages.rows)) :
    Run.Always step (fun s => IsForest (links ws s.db.passages.rows)) (begin db requests) schedule ↔
      Run.Meets step (Rechecked ws) (begin db requests) schedule :=
  Run.always_iff_meets (r := Inv) (fun _ i h => inv_step h i)
    (fun _ i h hq => step_isForest_iff ws h i hq) (inv_begin db requests) hforest schedule

/-- Two pairs, joined by `a`–`b` and by `c`–`d`. -/
def pairPassages : List Passage :=
  [⟨"p1", "w", "a", "b", true, passageModeDual, none, none⟩,
    ⟨"p2", "w", "c", "d", true, passageModeDual, none, none⟩]

theorem pairSeats_nodup : ["a", "b", "c", "d"].Nodup := by decide

theorem pairPassages_nodup : (pairPassages.map Passage.id).Nodup := by decide

theorem pairPassages_unique : Passage.UniqueActiveEdge pairPassages := by decide

def twoPairs : Db where
  workspaces := .single ⟨"w", "n", none⟩
  entities := .empty
  instances := .empty
  memberships := ⟨[seat "a", seat "b", seat "c", seat "d"], pairSeats_nodup⟩
  passages := ⟨pairPassages, pairPassages_nodup⟩
  loopStates := .empty
  uniqueActiveEdge := pairPassages_unique

/-- Transaction 0 joins `b` and `c`, every other one `a` and `d`. -/
def crossRequests : Nat → Context × PassageCreate
  | 0 => (⟨1, "p3", 0, false⟩, ⟨"w", "b", "c", none⟩)
  | i => (⟨2, s!"q{i}", 0, false⟩, ⟨"w", "a", "d", none⟩)

theorem twoPairs_isForest : IsForest (links "w" twoPairs.passages.rows) := by
  have hcd : IsForest (links "w" (twoPairs.passages.rows.drop 1)) :=
    (checkAcyclic_link "w" [] _).mp ⟨by decide, isForest_nil⟩
  exact (checkAcyclic_link "w" (twoPairs.passages.rows.drop 1) _).mp ⟨by decide, hcd⟩

/-- One transaction after the other. -/
theorem crossing_in_turn_stays_forest : Run.Always step
    (fun s => IsForest (links "w" s.db.passages.rows)) (begin twoPairs crossRequests)
      [0, 0, 0, 0, 0, 0, 1, 1, 1, 1, 1, 1] :=
  (commits_stay_forest_iff_rechecked "w" twoPairs crossRequests _ twoPairs_isForest).mpr (by decide)

/-- Both search before either commits; no row is locked by both. -/
theorem crossing_at_once_closes_cycle : IsForest (links "w" twoPairs.passages.rows) ∧
    ¬Run.Always step (fun s => IsForest (links "w" s.db.passages.rows))
      (begin twoPairs crossRequests) [0, 1, 0, 1, 0, 1, 0, 1, 0, 1, 0, 1] := by
  refine ⟨twoPairs_isForest, fun h => ?_⟩
  have hend : links "w" (Run.exec step (begin twoPairs crossRequests)
      [0, 1, 0, 1, 0, 1, 0, 1, 0, 1, 0, 1]).db.passages.rows =
        [s("a", "b"), s("c", "d"), s("b", "c"), s("a", "d")] := by decide
  have hforest := h.exec
  rw [hend, isForest_cons] at hforest
  apply hforest.2
  have hcd : Connected [s("c", "d"), s("b", "c"), s("a", "d")] "c" "d" := connected_of_mem (by simp)
  have hbc : Connected [s("c", "d"), s("b", "c"), s("a", "d")] "b" "c" := connected_of_mem (by simp)
  have had : Connected [s("c", "d"), s("b", "c"), s("a", "d")] "a" "d" := connected_of_mem (by simp)
  exact had.trans (hcd.symm.trans hbc.symm)

end Eyot.Topology.Concurrent
