import Eyot.Learning.Notepads
import Eyot.Library.Table

/-! A whole migration of the notepads, and another one after it. -/

namespace Eyot.Learning.Notepad

variable {fs : PyStr → Reading} {draw : Nat → Nat} {db db' db₀ : Db} {ls : LoopState}

/-- The entity that the notepads of a row are for; none where the row is left alone. -/
def ownerOf (db : Db) (ls : LoopState) : Option Id :=
  if ls.deletedAt.isSome || (refsOf ls).isEmpty then none else entityOf db ls

def rowNotes (fs : PyStr → Reading) (db : Db) (ls : LoopState) : List Note :=
  (ownerOf db ls).elim [] fun entityId => notesOf fs ls entityId (refsOf ls)

def rowOrphans (fs : PyStr → Reading) (db : Db) (ls : LoopState) : List Orphan :=
  (ownerOf db ls).elim [] fun _ => orphansOf fs ls (refsOf ls)

/-- What has come of a row, with the new memories of the run. -/
inductive RowDone (fs : PyStr → Reading) (db : Db) (ms : List Memory) (ls ls' : LoopState) : Prop
  | untouched : ownerOf db ls = none → ls' = ls → RowDone fs db ms ls ls'
  | rewritten (entityId : Id) (newRefs : NewRefs) : ownerOf db ls = some entityId →
      ls' = ls.withRefs newRefs.column →
      List.Forall₂ (RefDone fs ls entityId ms) ((refsOf ls).filter isKept) newRefs.1 →
      RowDone fs db ms ls ls'

theorem RowDone.mono {ms ms' : List Memory} {ls' : LoopState} (h : RowDone fs db ms ls ls')
    (hsub : ms ⊆ ms') : RowDone fs db ms' ls ls' := by
  cases h with
  | untouched hnone heq => exact .untouched hnone heq
  | rewritten entityId newRefs howner heq hdone =>
    exact .rewritten entityId newRefs howner heq (hdone.imp fun _ _ h => h.mono hsub)

theorem RowDone.id {ms : List Memory} {ls' : LoopState} (h : RowDone fs db ms ls ls') :
    ls'.id = ls.id := by
  cases h with
  | untouched _ heq => rw [heq]
  | rewritten _ _ _ heq _ =>
    rw [heq]
    rfl

theorem refsOf_distinct (ls : LoopState) : Dict.Distinct (refsOf ls) := by
  unfold refsOf
  split
  · rename_i kvs hdistinct _
    exact hdistinct kvs rfl
  · exact Dict.distinct_nil

/-- What the loop over the rows does; `db₀` is the database that the rows are selected from. -/
structure Done (fs : PyStr → Reading) (db₀ : Db) (rows : List LoopState) (db db' : Db) : Prop where
  instances : db'.instances = db.instances
  ids : db'.loopStates.rows.map LoopState.id = db.loopStates.rows.map LoopState.id
  others : ∀ r ∈ db.loopStates.rows, r.id ∉ rows.map LoopState.id → r ∈ db'.loopStates.rows
  wrote : ∃ ms evs, db'.memories = db.memories ++ ms ∧ db'.events = db.events ++ evs ∧
    Wrote (rows.flatMap (rowNotes fs db₀)) (rows.flatMap (rowOrphans fs db₀)) ms evs ∧
    ∀ ls ∈ rows, ls ∈ db.loopStates.rows → ∃ ls' ∈ db'.loopStates.rows, RowDone fs db₀ ms ls ls'

theorem done_nil : Done fs db₀ [] db db where
  instances := rfl
  ids := rfl
  others := fun _ hr _ => hr
  wrote := ⟨[], [], (List.append_nil _).symm, (List.append_nil _).symm, wrote_nil,
    List.forall_mem_nil _⟩

theorem done_untouched (hnone : ownerOf db₀ ls = none) : Done fs db₀ [ls] db db where
  instances := rfl
  ids := rfl
  others := fun _ hr _ => hr
  wrote := by
    refine ⟨[], [], (List.append_nil _).symm, (List.append_nil _).symm, ?_, ?_⟩
    · rw [List.flatMap_singleton, List.flatMap_singleton, rowNotes, rowOrphans, hnone]
      exact wrote_nil
    · exact List.forall_mem_singleton.mpr fun hls => ⟨ls, hls, .untouched hnone rfl⟩

theorem Done.cons {rows : List LoopState} {db₁ : Db} (hls : ls.id ∉ rows.map LoopState.id)
    (h : Done fs db₀ [ls] db db₁) (h' : Done fs db₀ rows db₁ db') :
    Done fs db₀ (ls :: rows) db db' := by
  obtain ⟨ms, evs, hms, hevs, hwrote, hdone⟩ := h.wrote
  obtain ⟨ms', evs', hms', hevs', hwrote', hdone'⟩ := h'.wrote
  refine ⟨h'.instances.trans h.instances, h'.ids.trans h.ids, fun r hr hid => ?_,
    ms ++ ms', evs ++ evs', ?_, ?_, ?_, fun r hr hmem => ?_⟩
  · rw [List.map_cons, List.mem_cons, not_or] at hid
    refine h'.others r (h.others r hr ?_) hid.2
    exact mt List.mem_singleton.mp hid.1
  · rw [hms', hms, List.append_assoc]
  · rw [hevs', hevs, List.append_assoc]
  · have happend := hwrote.append hwrote'
    rwa [← List.flatMap_append, ← List.flatMap_append] at happend
  · rcases List.mem_cons.mp hr with rfl | hr
    · obtain ⟨r', hr', hrow⟩ := hdone r List.mem_cons_self hmem
      refine ⟨r', h'.others r' hr' (hrow.id ▸ hls), hrow.mono ?_⟩
      exact List.subset_append_left ms ms'
    · have hne : r.id ∉ [ls].map LoopState.id := by
        intro heq
        refine hls ?_
        rw [← List.mem_singleton.mp heq]
        exact List.mem_map_of_mem hr
      obtain ⟨r', hr', hrow⟩ := hdone' r hr (h.others r hmem hne)
      exact ⟨r', hr', hrow.mono (List.subset_append_right ms ms')⟩

theorem setRefs_ids (db : Db) (id : Id) (refs : Refs) :
    (db.setRefs id refs).loopStates.rows.map LoopState.id =
      db.loopStates.rows.map LoopState.id := by
  change (db.loopStates.rows.map _).map LoopState.id = _
  rw [List.map_map]
  refine List.map_congr_left fun r _ => ?_
  dsimp only [Function.comp]
  split <;> rfl

theorem mem_setRefs {refs : Refs} (hls : ls ∈ db.loopStates.rows) :
    ls.withRefs refs ∈ (db.setRefs ls.id refs).loopStates.rows :=
  List.mem_map.mpr ⟨ls, hls, if_pos (decide_eq_true rfl)⟩

theorem mem_setRefs_other {id : Id} {refs : Refs} (hls : ls ∈ db.loopStates.rows)
    (hne : ls.id ≠ id) : ls ∈ (db.setRefs id refs).loopStates.rows :=
  List.mem_map.mpr ⟨ls, hls, if_neg fun h => hne (of_decide_eq_true h)⟩

/-- One row that is selected. -/
theorem migrateRow_done (st : State) (hlive : ls.deletedAt = none)
    (h : ∀ entityId, ownerOf db₀ ls = some entityId → ∀ ref ∈ refsOf ls, ∀ path ∈ pathsOf ref.2,
      Accepted fs ref.1 path) :
    ∃ st', migrateRow fs draw db₀ st ls = .ok st' ∧ Done fs db₀ [ls] st.db st'.db := by
  have howner : ownerOf db₀ ls = if (refsOf ls).isEmpty then none else entityOf db₀ ls := by
    rw [ownerOf, hlive, Option.isSome_none, Bool.false_or]
  unfold migrateRow
  split
  · rename_i hnil
    rw [hnil] at howner
    exact ⟨st, rfl, done_untouched howner⟩
  · rename_i hrefs
    rw [if_neg (mt List.isEmpty_iff.mp hrefs)] at howner
    dsimp only
    split
    · rename_i hnone
      exact ⟨_, rfl, done_untouched (howner.trans hnone)⟩
    · rename_i entityId hentity
      have hsome := howner.trans hentity
      obtain ⟨st₁, newRefs, ms, evs, added, hrun, hdb, hwrote, hadded, hdone⟩ :=
        migrateRefs_done { st with report.scanned := st.report.scanned + 1 }
          ⟨[], Dict.distinct_nil⟩ (refsOf_distinct ls) (h entityId hsome)
      have hdb' : st₁.db = st.db.grow ms evs := hdb
      refine ⟨_, by rw [hrun]; rfl, ?_⟩
      change Done fs db₀ [ls] st.db (st₁.db.setRefs ls.id newRefs.column)
      rw [hdb']
      refine ⟨rfl, setRefs_ids _ _ _, fun r hr hid => mem_setRefs_other hr ?_, ms, evs, rfl, rfl, ?_,
        List.forall_mem_singleton.mpr fun hls => ?_⟩
      · exact fun heq => hid (List.mem_singleton.mpr heq)
      · rw [List.flatMap_singleton, List.flatMap_singleton, rowNotes, rowOrphans, hsome]
        exact hwrote
      · refine ⟨ls.withRefs newRefs.column, mem_setRefs hls, .rewritten entityId newRefs hsome rfl ?_⟩
        rw [hadded]
        exact hdone

theorem migrateRows_done (st : State) {rows : List LoopState}
    (hids : (rows.map LoopState.id).Nodup) (hlive : ∀ ls ∈ rows, ls.deletedAt = none)
    (h : ∀ ls ∈ rows, ∀ entityId, ownerOf db₀ ls = some entityId → ∀ ref ∈ refsOf ls,
      ∀ path ∈ pathsOf ref.2, Accepted fs ref.1 path) :
    ∃ st', rows.foldlM (migrateRow fs draw db₀) st = .ok st' ∧ Done fs db₀ rows st.db st'.db := by
  induction rows generalizing st with
  | nil => exact ⟨st, rfl, done_nil⟩
  | cons ls rows ih =>
    rw [List.forall_mem_cons] at hlive h
    obtain ⟨hls, hids⟩ := List.nodup_cons.mp hids
    obtain ⟨st₁, hone, hdone₁⟩ := migrateRow_done st hlive.1 h.1
    obtain ⟨st₂, hrun, hdone₂⟩ := ih st₁ hids hlive.2 h.2
    refine ⟨st₂, ?_, hdone₁.cons hls hdone₂⟩
    rw [List.foldlM_cons, hone]
    exact hrun

/-! The migration as a whole. -/

/-- What a migration comes to. -/
structure Migrated (fs : PyStr → Reading) (db db' : Db) : Prop where
  instances : db'.instances = db.instances
  ids : db'.loopStates.rows.map LoopState.id = db.loopStates.rows.map LoopState.id
  wrote : ∃ ms evs, db'.memories = db.memories ++ ms ∧ db'.events = db.events ++ evs ∧
    ms.map Memory.toNote = db.loopStates.rows.flatMap (rowNotes fs db) ∧
    evs.map OrphanEvent.toOrphan = db.loopStates.rows.flatMap (rowOrphans fs db) ∧
    ∀ ls ∈ db.loopStates.rows, ∃ ls' ∈ db'.loopStates.rows, RowDone fs db ms ls ls'

/-- Every file of a row with an owner can be read or not, and what is read can be stored. -/
def AllAccepted (fs : PyStr → Reading) (db : Db) : Prop :=
  ∀ ls ∈ db.loopStates.rows, (ownerOf db ls).isSome = true → ∀ ref ∈ refsOf ls,
    ∀ path ∈ pathsOf ref.2, Accepted fs ref.1 path

theorem ownerOf_eq_none (h : ls ∈ db.loopStates.rows) (hout : ls ∉ selectRows db) :
    ownerOf db₀ ls = none := by
  unfold selectRows at hout
  rw [List.mem_filter, not_and, Bool.and_eq_true, not_and_or] at hout
  unfold ownerOf
  rcases hout h with hnone | hdeleted
  · have hrefs : refsOf ls = [] := by
      rw [Bool.not_eq_true, Option.isSome_eq_false_iff, Option.isNone_iff_eq_none] at hnone
      rw [refsOf, hnone]
    rw [hrefs, List.isEmpty_nil, Bool.or_true]
    rfl
  · rw [Bool.not_eq_true, Option.isNone_eq_false_iff] at hdeleted
    rw [hdeleted, Bool.true_or]
    rfl

/-- Rows that are not selected have nothing to be written for. -/
theorem flatMap_selectRows {α : Type} (f : LoopState → List α)
    (hf : ∀ ls, ownerOf db ls = none → f ls = []) :
    (selectRows db).flatMap f = db.loopStates.rows.flatMap f := by
  have hall (rows : List LoopState) (hrows : rows ⊆ db.loopStates.rows) (p : LoopState → Bool)
      (hp : ∀ ls ∈ db.loopStates.rows, p ls = false → f ls = []) :
      (rows.filter p).flatMap f = rows.flatMap f := by
    induction rows with
    | nil => rfl
    | cons ls rows ih =>
      rw [List.cons_subset] at hrows
      cases hls : p ls with
      | true =>
        rw [List.filter_cons_of_pos hls, List.flatMap_cons, List.flatMap_cons, ih hrows.2]
      | false =>
        rw [List.filter_cons_of_neg (by rw [hls]; exact Bool.false_ne_true), ih hrows.2,
          List.flatMap_cons, hp ls hrows.1 hls, List.nil_append]
  refine hall _ (List.Subset.refl _) _ fun ls hls hp => hf ls (ownerOf_eq_none hls fun hmem => ?_)
  exact Bool.false_ne_true (hp.symm.trans (List.mem_filter.mp hmem).2)

theorem migrateNotepadRefs_done (h : AllAccepted fs db) :
    ∃ db' report, migrateNotepadRefs fs draw db = .ok (db', report) ∧ Migrated fs db db' := by
  have hsub : ∀ ls ∈ selectRows db, ls ∈ db.loopStates.rows := fun _ hls => (List.mem_filter.mp hls).1
  have hids : ((selectRows db).map LoopState.id).Nodup :=
    (List.filter_sublist.map _).nodup db.loopStates.keys_nodup
  have hlive : ∀ ls ∈ selectRows db, ls.deletedAt = none := by
    intro ls hls
    have hsel := (List.mem_filter.mp hls).2
    rw [Bool.and_eq_true, Option.isNone_iff_eq_none] at hsel
    exact hsel.2
  obtain ⟨st, hrun, hdone⟩ := @migrateRows_done fs draw db
    ⟨db, 0, ⟨0, 0, 0, 0, 0, 0, 0⟩⟩ _ hids hlive fun ls hls entityId howner => h ls (hsub ls hls) (by rw [howner]; rfl)
  obtain ⟨ms, evs, hms, hevs, hwrote, hrows⟩ := hdone.wrote
  refine ⟨st.db, st.report, ?_, hdone.instances, hdone.ids, ms, evs, hms, hevs, ?_, ?_, ?_⟩
  · unfold migrateNotepadRefs
    rw [hrun]
    rfl
  · rw [hwrote.notes]
    exact flatMap_selectRows _ fun ls hnone => by rw [rowNotes, hnone]; rfl
  · rw [hwrote.orphans]
    exact flatMap_selectRows _ fun ls hnone => by rw [rowOrphans, hnone]; rfl
  · intro ls hls
    by_cases hmem : ls ∈ selectRows db
    · exact hrows ls hmem hls
    · refine ⟨ls, hdone.others ls hls fun hid => hmem ?_, .untouched (ownerOf_eq_none hls hmem) rfl⟩
      obtain ⟨ls', hls', heq⟩ := List.mem_map.mp hid
      exact db.loopStates.eq_of_key_eq (hsub ls' hls') hls heq ▸ hls'

/-! Another run. -/

/-- A row that a migration leaves as it is: without an owner, or with ids for refs. -/
def Settled (db : Db) (ls : LoopState) : Prop :=
  ownerOf db ls = none ∨ ∃ refs : NewRefs, ls.notepadRefs = some refs.column ∧
    ∀ kv ∈ refs.1, PyUuid.isUuid kv.2 = true

theorem RowDone.settled {ms : List Memory} {ls' : LoopState} (h : RowDone fs db ms ls ls')
    (hinstances : db'.instances = db.instances) : Settled db' ls' := by
  have howner (ls : LoopState) : ownerOf db' ls = ownerOf db ls := by
    unfold ownerOf entityOf
    rw [hinstances]
  cases h with
  | untouched hnone heq => exact .inl (heq ▸ (howner ls).trans hnone)
  | rewritten entityId newRefs _ heq hdone =>
    refine .inr ⟨newRefs, heq ▸ rfl, fun kv hkv => ?_⟩
    obtain ⟨ref, -, hdone⟩ := exists_mem_of_forall₂ hdone.flip hkv
    exact hdone.isUuid

theorem migrateRefs_ids (st : State) {entityId : Id} (newRefs : NewRefs)
    {kvs : List (PyStr × PyStr)} (hnames : (newRefs.1.map Prod.fst ++ kvs.map Prod.fst).Nodup)
    (hids : ∀ kv ∈ kvs, PyUuid.isUuid kv.2 = true) :
    ∃ newRefs', (kvs.map fun kv => (kv.1, Json.str kv.2)).foldlM
        (migrateRef fs draw ls entityId) (st, newRefs) = .ok (st, newRefs') ∧
      newRefs'.1 = newRefs.1 ++ kvs := by
  induction kvs generalizing newRefs with
  | nil => exact ⟨newRefs, rfl, (List.append_nil _).symm⟩
  | cons kv kvs ih =>
    rw [List.forall_mem_cons] at hids
    have hfree : kv.1 ∉ newRefs.1.map Prod.fst := by
      intro hmem
      exact (List.nodup_append.mp hnames).2.2 _ hmem kv.1 List.mem_cons_self rfl
    have hset : (newRefs.set kv.1 kv.2).1 = newRefs.1 ++ [kv] := Dict.set_of_not_mem hfree
    have hnames' : ((newRefs.set kv.1 kv.2).1.map Prod.fst ++ kvs.map Prod.fst).Nodup := by
      rw [hset, List.map_append, List.append_assoc]
      exact hnames
    obtain ⟨newRefs', hrun, heq⟩ := ih (newRefs.set kv.1 kv.2) hnames' hids.2
    refine ⟨newRefs', ?_, ?_⟩
    · rw [List.map_cons, List.foldlM_cons, migrateRef]
      dsimp only
      rw [uuidRef?, if_pos hids.1]
      exact hrun
    · rw [heq, hset, List.append_assoc]
      rfl

theorem setRefs_eq {refs : Refs} (hls : ls ∈ db.loopStates.rows) (h : ls.notepadRefs = some refs) :
    db.setRefs ls.id refs = db := by
  have hsame : ls.withRefs refs = ls := by
    unfold LoopState.withRefs
    rw [← h]
  have hrows : (db.setRefs ls.id refs).loopStates = db.loopStates := by
    refine Table.eq_of_rows_eq ?_
    change db.loopStates.rows.map _ = _
    conv_rhs => rw [← List.map_id db.loopStates.rows]
    refine List.map_congr_left fun r hr => ?_
    split
    · rename_i hid
      obtain rfl := db.loopStates.eq_of_key_eq hr hls (of_decide_eq_true hid)
      exact hsame
    · rfl
  unfold Db.setRefs at hrows ⊢
  dsimp only at hrows
  rw [hrows]

theorem migrateRow_settled (st : State) (hls : ls ∈ st.db.loopStates.rows)
    (hlive : ls.deletedAt = none) (h : Settled db₀ ls) :
    ∃ st', migrateRow fs draw db₀ st ls = .ok st' ∧ st'.db = st.db := by
  have howner : ownerOf db₀ ls = if (refsOf ls).isEmpty then none else entityOf db₀ ls := by
    rw [ownerOf, hlive, Option.isSome_none, Bool.false_or]
  unfold migrateRow
  split
  · exact ⟨st, rfl, rfl⟩
  · rename_i hrefs
    rw [if_neg (mt List.isEmpty_iff.mp hrefs)] at howner
    dsimp only
    split
    · exact ⟨_, rfl, rfl⟩
    · rename_i entityId hentity
      obtain hnone | ⟨refs, hcolumn, hids⟩ := h
      · rw [howner, hentity] at hnone
        cases hnone
      · have hrefsOf : refsOf ls = refs.1.map fun kv => (kv.1, Json.str kv.2) := by
          rw [refsOf, hcolumn]
          rfl
        obtain ⟨newRefs, hrun, heq⟩ :=
          @migrateRefs_ids fs draw ls { st with report.scanned := st.report.scanned + 1 } entityId
            ⟨[], Dict.distinct_nil⟩ refs.1 refs.2 hids
        obtain rfl : newRefs = refs := Subtype.ext heq
        rw [hrefsOf, hrun]
        exact ⟨_, rfl, setRefs_eq hls hcolumn⟩

theorem migrateRows_settled (st : State) {rows : List LoopState}
    (h : ∀ ls ∈ rows, ls ∈ st.db.loopStates.rows ∧ ls.deletedAt = none ∧ Settled db₀ ls) :
    ∃ st', rows.foldlM (migrateRow fs draw db₀) st = .ok st' ∧ st'.db = st.db := by
  induction rows generalizing st with
  | nil => exact ⟨st, rfl, rfl⟩
  | cons ls rows ih =>
    rw [List.forall_mem_cons] at h
    obtain ⟨hmem, hlive, hsettled⟩ := h.1
    obtain ⟨st₁, hone, hdb₁⟩ := migrateRow_settled st hmem hlive hsettled
    obtain ⟨st₂, hrun, hdb₂⟩ := ih st₁ (hdb₁ ▸ h.2)
    refine ⟨st₂, ?_, hdb₂.trans hdb₁⟩
    rw [List.foldlM_cons, hone]
    exact hrun

theorem migrateNotepadRefs_settled (h : ∀ ls ∈ db.loopStates.rows, Settled db ls) :
    ∃ report, migrateNotepadRefs fs draw db = .ok (db, report) := by
  have hrows : ∀ ls ∈ selectRows db,
      ls ∈ db.loopStates.rows ∧ ls.deletedAt = none ∧ Settled db ls := by
    intro ls hls
    obtain ⟨hmem, hsel⟩ := List.mem_filter.mp hls
    rw [Bool.and_eq_true, Option.isNone_iff_eq_none] at hsel
    exact ⟨hmem, hsel.2, h ls hmem⟩
  obtain ⟨st, hrun, hdb⟩ := migrateRows_settled ⟨db, 0, ⟨0, 0, 0, 0, 0, 0, 0⟩⟩ hrows
  refine ⟨st.report, ?_⟩
  unfold migrateNotepadRefs
  rw [hrun]
  exact congrArg (fun db => Except.ok (db, st.report)) hdb

theorem Migrated.settled (h : Migrated fs db db') : ∀ ls ∈ db'.loopStates.rows, Settled db' ls := by
  intro ls' hls'
  obtain ⟨ms, evs, -, -, -, -, hrows⟩ := h.wrote
  have hid : ls'.id ∈ db.loopStates.rows.map LoopState.id := h.ids ▸ List.mem_map_of_mem hls'
  obtain ⟨ls, hls, heq⟩ := List.mem_map.mp hid
  obtain ⟨ls'', hls'', hrow⟩ := hrows ls hls
  obtain rfl := db'.loopStates.eq_of_key_eq hls'' hls' (hrow.id.trans heq)
  exact hrow.settled h.instances

/-- The migration does what it is for, and another one changes nothing. -/
theorem notepads_migrated (draw : Nat → Nat) (h : AllAccepted fs db) :
    ∃ db' report, migrateNotepadRefs fs draw db = .ok (db', report) ∧ Migrated fs db db' ∧
      ∀ (fs' : PyStr → Reading) (draw' : Nat → Nat), ∃ report',
        migrateNotepadRefs fs' draw' db' = .ok (db', report') := by
  obtain ⟨db', report, hrun, hmigrated⟩ := migrateNotepadRefs_done h
  exact ⟨db', report, hrun, hmigrated, fun _ _ => migrateNotepadRefs_settled hmigrated.settled⟩

/-! One row with one ref. -/

def oneRef : Refs :=
  ⟨.obj [(py "plan", .str (py "/plan.md"))], by
    intro kvs h
    obtain rfl := Json.obj.inj h
    exact List.nodup_singleton _⟩

def oneRow (deletedAt : Option Time) : Db where
  loopStates := .single ⟨"l1", "i1", some oneRef, deletedAt⟩
  instances := .single ⟨"i1", "e1", "w1", .running, none⟩
  memories := []
  events := []

theorem mem_oneRow {deletedAt : Option Time} (h : ls ∈ (oneRow deletedAt).loopStates.rows)
    {ref : PyStr × Json PyStr} (href : ref ∈ refsOf ls) {path : PyStr}
    (hpath : path ∈ pathsOf ref.2) : ref.1 = py "plan" ∧ path = py "/plan.md" := by
  obtain rfl := List.mem_singleton.mp h
  obtain rfl : ref = (py "plan", .str (py "/plan.md")) := List.mem_singleton.mp href
  have hpaths : pathsOf (.str (py "/plan.md")) = [py "/plan.md"] := by decide
  exact ⟨rfl, List.mem_singleton.mp (hpaths ▸ hpath)⟩

theorem allAccepted_oneRow {fs : PyStr → Reading} (deletedAt : Option Time) {t : PyStr}
    (hread : fs (py "/plan.md") = .text t) (ht : t.isStorable = true) :
    AllAccepted fs (oneRow deletedAt) := by
  intro ls hls _ ref href path hpath
  obtain ⟨hname, rfl⟩ := mem_oneRow hls href hpath
  rw [hname]
  refine ⟨?_, by decide, by decide, ?_⟩
  · rw [hread]
    exact Reading.noConfusion
  · unfold contentOf
    rw [hread]
    exact List.all_eq_true.mpr fun c hc => List.all_eq_true.mp ht c (List.mem_of_mem_take hc)

theorem notepads_migrated_oneRow :
    AllAccepted (fun _ => .text (py "notes")) (oneRow none) ∧
      ∃ db' report, migrateNotepadRefs (fun _ => .text (py "notes")) id (oneRow none) =
          .ok (db', report) ∧ Migrated (fun _ => .text (py "notes")) (oneRow none) db' ∧
        ∀ (fs' : PyStr → Reading) (draw' : Nat → Nat), ∃ report',
          migrateNotepadRefs fs' draw' db' = .ok (db', report') :=
  ⟨allAccepted_oneRow none rfl (by decide),
    notepads_migrated id (allAccepted_oneRow none rfl (by decide))⟩

def longText : PyStr := List.replicate 2001 (.ofNat 0x61)

theorem longText_isStorable : longText.isStorable = true := by
  refine List.all_eq_true.mpr fun c hc => ?_
  rw [List.eq_of_mem_replicate hc]
  decide

/-- A file longer than the cap is cut, a deleted row is passed over, and a path that `open` does
not take ends the run. -/
theorem cut_passed_over_or_ended :
    (∃ db' report m, migrateNotepadRefs (fun _ => .text longText) id (oneRow none) =
        .ok (db', report) ∧ db'.memories = [m] ∧ m.content ≠ longText) ∧
      (∃ report, migrateNotepadRefs (fun _ => .text (py "notes")) id (oneRow (some 1)) =
        .ok (oneRow (some 1), report)) ∧
      migrateNotepadRefs (fun _ => .valueError) id (oneRow none) = .error .valueError := by
  refine ⟨?_, ⟨_, rfl⟩, rfl⟩
  have haccepted : AllAccepted (fun _ => .text longText) (oneRow none) :=
    @allAccepted_oneRow (fun _ => .text longText) none longText rfl longText_isStorable
  obtain ⟨db', report, hrun, hmigrated⟩ := @migrateNotepadRefs_done _ id _ haccepted
  obtain ⟨ms, evs, hms, -, hnotes, -⟩ := hmigrated.wrote
  have hone : ms.map Memory.toNote =
      [newNote ⟨"l1", "i1", some oneRef, none⟩ "e1" (py "plan") (longText.take MAX_CONTENT_CHARS)] :=
    hnotes
  obtain ⟨m, rest, rfl, hm, hrest⟩ := List.map_eq_cons_iff.mp hone
  obtain rfl := List.map_eq_nil_iff.mp hrest
  refine ⟨db', report, m, hrun, hms, fun heq => ?_⟩
  have hcontent := congrArg (fun n => List.length n.content) hm
  dsimp only [newNote] at hcontent
  rw [heq, List.length_take, longText, List.length_replicate] at hcontent
  exact absurd hcontent (by decide)

end Eyot.Learning.Notepad
