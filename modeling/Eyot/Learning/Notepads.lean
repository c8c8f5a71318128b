import Eyot.Learning.NotepadMigration

/-! What the migration of the notepads comes to. -/

namespace Eyot.Learning.Notepad

/-! What is to be written for a row. -/

/-- The paths a ref stands for; a ref that is an id stands for none. -/
def pathsOf (value : Json PyStr) : List PyStr :=
  if (uuidRef? value).isSome then [] else (iterPaths value).filter fun path => !hasTraversal path

theorem pathsOf_eq_nil {value : Json PyStr} {id : PyStr} (h : uuidRef? value = some id) :
    pathsOf value = [] := by
  rw [pathsOf, h]
  rfl

theorem pathsOf_eq {value : Json PyStr} (h : uuidRef? value = none) :
    pathsOf value = (iterPaths value).filter fun path => !hasTraversal path := by
  rw [pathsOf, h]
  rfl

def contentOf (fs : PyStr → Reading) (path : PyStr) : PyStr :=
  match fs path with
  | .text t => t.take MAX_CONTENT_CHARS
  | _ => path

def isOrphan (fs : PyStr → Reading) (path : PyStr) : Bool :=
  match fs path with
  | .text _ => false
  | _ => true

def orphanOf (ls : LoopState) (name path : PyStr) : Orphan where
  type := ORPHAN_EVENT_TYPE
  actorType := "system"
  resourceType := "memory"
  loopStateId := ls.id
  instanceId := ls.instanceId
  notepadName := name
  path := path

section

variable (fs : PyStr → Reading) (ls : LoopState) (entityId : Id) (name : PyStr)

def notesOfPaths (paths : List PyStr) : List Note :=
  paths.map fun path => newNote ls entityId name (contentOf fs path)

def orphansOfPaths (paths : List PyStr) : List Orphan :=
  (paths.filter (isOrphan fs)).map (orphanOf ls name)

def notesOf (refs : List (PyStr × Json PyStr)) : List Note :=
  refs.flatMap fun ref => notesOfPaths fs ls entityId ref.1 (pathsOf ref.2)

def orphansOf (refs : List (PyStr × Json PyStr)) : List Orphan :=
  refs.flatMap fun ref => orphansOfPaths fs ls ref.1 (pathsOf ref.2)

end

/-- Reading the file and storing what is read raises nothing. -/
structure Accepted (fs : PyStr → Reading) (name path : PyStr) : Prop where
  read : fs path ≠ .valueError
  length : (py "notepad/" ++ name).length ≤ 255
  name : name.isStorable = true
  content : (contentOf fs path).isStorable = true

/-- What has been put in. -/
def Db.grow (db : Db) (memories : List Memory) (events : List OrphanEvent) : Db :=
  { db with memories := db.memories ++ memories, events := db.events ++ events }

theorem Db.grow_nil (db : Db) : db.grow [] [] = db := by
  rw [grow, List.append_nil, List.append_nil]

theorem Db.grow_grow (db : Db) (ms ms' : List Memory) (evs evs' : List OrphanEvent) :
    (db.grow ms evs).grow ms' evs' = db.grow (ms ++ ms') (evs ++ evs') := by
  simp only [grow, List.append_assoc]

variable {fs : PyStr → Reading} {draw : Nat → Nat} {ls : LoopState} {entityId : Id} {name : PyStr}

/-- The memories and events between two databases are those for some notes and orphans. -/
structure Wrote (notes : List Note) (orphans : List Orphan) (ms : List Memory)
    (evs : List OrphanEvent) : Prop where
  notes : ms.map Memory.toNote = notes
  orphans : evs.map OrphanEvent.toOrphan = orphans
  ids : ∀ m ∈ ms, PyUuid.isUuid m.id = true

theorem wrote_nil : Wrote [] [] [] [] := ⟨rfl, rfl, List.forall_mem_nil _⟩

theorem Wrote.append {notes notes' : List Note} {orphans orphans' : List Orphan}
    {ms ms' : List Memory} {evs evs' : List OrphanEvent} (h : Wrote notes orphans ms evs)
    (h' : Wrote notes' orphans' ms' evs') :
    Wrote (notes ++ notes') (orphans ++ orphans') (ms ++ ms') (evs ++ evs') := by
  refine ⟨?_, ?_, fun m hm => ?_⟩
  · rw [List.map_append, h.notes, h'.notes]
  · rw [List.map_append, h.orphans, h'.orphans]
  · exact (List.mem_append.mp hm).elim (h.ids m) (h'.ids m)

/-! One path. -/

theorem varchar_eq {n : Nat} {t : PyStr} (h : t.length ≤ n) : varchar n t = some t := by
  rw [varchar, List.drop_eq_nil_of_le h, List.take_of_length_le h]
  rfl

theorem isStorable_key (h : name.isStorable = true) :
    (py "notepad/" ++ name).isStorable = true := by
  rw [PyStr.isStorable, List.all_append, Bool.and_eq_true]
  exact ⟨by decide, h⟩

theorem insertMemory_done (st : State) {content : PyStr}
    (hlength : (py "notepad/" ++ name).length ≤ 255) (hname : name.isStorable = true)
    (hcontent : content.isStorable = true) :
    ∃ st' m, st.insertMemory draw (newNote ls entityId name content) = .ok (st', m.id) ∧
      st'.db = st.db.grow [m] [] ∧ Wrote [newNote ls entityId name content] [] [m] [] := by
  unfold State.insertMemory
  have hkey : varchar 255 (newNote ls entityId name content).key =
      some (newNote ls entityId name content).key := varchar_eq hlength
  have hstorable : ((newNote ls entityId name content).key.isStorable &&
      (newNote ls entityId name content).content.isStorable) = true := by
    rw [Bool.and_eq_true]
    exact ⟨isStorable_key hname, hcontent⟩
  rw [hkey]
  dsimp only
  rw [if_pos hstorable]
  refine ⟨_, ⟨newNote ls entityId name content, PyUuid.uuidText (draw st.drawn)⟩, rfl, ?_, rfl, rfl,
    ?_⟩
  · simp [Db.grow]
  · exact List.forall_mem_singleton.mpr (PyUuid.isUuid_uuidText _)

theorem contentOr_done (st : State) {path : PyStr} (h : Accepted fs name path) :
    ∃ text, readText fs path = .ok text ∧ ∃ st' evs,
      st.contentOr draw ls name path text = .ok (st', contentOf fs path) ∧
        st'.db = st.db.grow [] evs ∧ Wrote [] (orphansOfPaths fs ls name [path]) [] evs := by
  have hpath := h.content
  unfold readText
  unfold orphansOfPaths
  unfold contentOf at hpath ⊢
  have hfiltered : [path].filter (isOrphan fs) = if isOrphan fs path then [path] else [] := by
    rw [List.filter_singleton]
    cases isOrphan fs path <;> rfl
  rw [hfiltered]
  unfold isOrphan
  have horphan : path.isStorable = true → ∃ st' evs,
      st.contentOr draw ls name path none = .ok (st', path) ∧ st'.db = st.db.grow [] evs ∧
        Wrote [] ([path].map (orphanOf ls name)) [] evs := by
    intro hpath
    unfold State.contentOr State.recordOrphan
    dsimp only
    rw [if_pos (Bool.and_eq_true _ _ ▸ ⟨h.name, hpath⟩)]
    refine ⟨_, [⟨orphanOf ls name path, PyUuid.uuidText (draw st.drawn)⟩], rfl, ?_, rfl, rfl,
      List.forall_mem_nil _⟩
    simp [Db.grow, orphanOf]
  cases hread : fs path with
  | text t => exact ⟨_, rfl, st, [], rfl, st.db.grow_nil.symm, wrote_nil⟩
  | osError =>
    rw [hread] at hpath
    exact ⟨_, rfl, horphan hpath⟩
  | unicodeDecodeError =>
    rw [hread] at hpath
    exact ⟨_, rfl, horphan hpath⟩
  | valueError => exact absurd hread h.read

theorem migratePath_done (st : State) (id : Option PyStr) {path : PyStr}
    (hsafe : hasTraversal path = false) (h : Accepted fs name path) :
    ∃ st' m evs, migratePath fs draw ls entityId name (st, id) path = .ok (st', some m.id) ∧
      st'.db = st.db.grow [m] evs ∧
      Wrote (notesOfPaths fs ls entityId name [path]) (orphansOfPaths fs ls name [path]) [m] evs := by
  obtain ⟨text, hread, st₁, evs, hcontent, hdb₁, hwrote₁⟩ := contentOr_done st h
  obtain ⟨st₂, m, hinsert, hdb₂, hwrote₂⟩ :=
    insertMemory_done st₁ h.length h.name h.content
  refine ⟨st₂, m, evs, ?_, ?_, ?_⟩
  · unfold migratePath
    dsimp only
    rw [if_neg (hsafe ▸ Bool.false_ne_true), hread]
    dsimp only [bind, Except.bind]
    rw [hcontent]
    dsimp only
    rw [hinsert]
    rfl
  · rw [hdb₂, hdb₁, Db.grow_grow, List.append_nil]
    rfl
  · have h := hwrote₁.append hwrote₂
    rwa [List.append_nil, List.append_nil] at h

/-! The paths of a ref. -/

theorem migratePaths_done (st : State) (id : Option PyStr) {paths : List PyStr}
    (h : ∀ path ∈ paths, hasTraversal path = false → Accepted fs name path) :
    ∃ st' ms evs, paths.foldlM (migratePath fs draw ls entityId name) (st, id) =
        .ok (st', (ms.getLast?.map Memory.id).or id) ∧ st'.db = st.db.grow ms evs ∧
      Wrote (notesOfPaths fs ls entityId name (paths.filter fun path => !hasTraversal path))
        (orphansOfPaths fs ls name (paths.filter fun path => !hasTraversal path)) ms evs := by
  induction paths generalizing st id with
  | nil => exact ⟨st, [], [], rfl, st.db.grow_nil.symm, wrote_nil⟩
  | cons path paths ih =>
    rw [List.forall_mem_cons] at h
    cases hpath : hasTraversal path with
    | true =>
      obtain ⟨st₂, ms, evs, hrun, hdb, hwrote⟩ :=
        ih { st with report.skippedTraversal := st.report.skippedTraversal + 1 } id h.2
      refine ⟨st₂, ms, evs, ?_, hdb, ?_⟩
      · rw [List.foldlM_cons, migratePath]
        dsimp only
        rw [if_pos hpath]
        exact hrun
      · rwa [List.filter_cons_of_neg (by rw [hpath]; exact Bool.false_ne_true)]
    | false =>
      obtain ⟨st₁, m, evs, hone, hdb₁, hwrote₁⟩ := migratePath_done st id hpath (h.1 hpath)
      obtain ⟨st₂, ms, evs', hrun, hdb₂, hwrote₂⟩ := ih st₁ (some m.id) h.2
      refine ⟨st₂, m :: ms, evs ++ evs', ?_, ?_, ?_⟩
      · rw [List.foldlM_cons, hone]
        refine hrun.trans (congrArg (fun id => Except.ok (st₂, id)) ?_)
        rw [List.getLast?_cons]
        cases ms.getLast? <;> rfl
      · rw [hdb₂, hdb₁, Db.grow_grow]
        rfl
      · rw [List.filter_cons_of_pos (by rw [hpath]; rfl)]
        have happend := hwrote₁.append hwrote₂
        unfold notesOfPaths orphansOfPaths at happend ⊢
        rwa [← List.map_append, ← List.map_append, ← List.filter_append] at happend

/-! The refs of a row. -/

/-- The value of a ref, with the memories made for it. -/
def newValue (value : Json PyStr) (ms : List Memory) : Option PyStr :=
  (uuidRef? value).or (ms.getLast?.map Memory.id)

theorem migrateRef_done (st : State) (newRefs : NewRefs) {ref : PyStr × Json PyStr}
    (h : ∀ path ∈ pathsOf ref.2, Accepted fs ref.1 path) :
    ∃ st' ms evs, migrateRef fs draw ls entityId (st, newRefs) ref =
        .ok (st', setRef newRefs ref.1 (newValue ref.2 ms)) ∧ st'.db = st.db.grow ms evs ∧
      Wrote (notesOf fs ls entityId [ref]) (orphansOf fs ls [ref]) ms evs := by
  have hnotes : notesOf fs ls entityId [ref] =
      notesOfPaths fs ls entityId ref.1 (pathsOf ref.2) := List.flatMap_singleton ..
  have horphans : orphansOf fs ls [ref] = orphansOfPaths fs ls ref.1 (pathsOf ref.2) :=
    List.flatMap_singleton ..
  rw [hnotes, horphans]
  unfold migrateRef newValue
  dsimp only
  cases hid : uuidRef? ref.2 with
  | some id =>
    rw [pathsOf_eq_nil hid]
    exact ⟨st, [], [], rfl, st.db.grow_nil.symm, wrote_nil⟩
  | none =>
    rw [pathsOf_eq hid] at h ⊢
    dsimp only
    split
    · rename_i hnone
      rw [hnone]
      exact ⟨{ st with report.unparseable := st.report.unparseable + 1 }, [], [], rfl,
        st.db.grow_nil.symm, wrote_nil⟩
    · obtain ⟨st', ms, evs, hrun, hdb, hwrote⟩ := migratePaths_done st none fun path hpath hsafe =>
        h path (List.mem_filter.mpr ⟨hpath, by rw [hsafe]; rfl⟩)
      refine ⟨st', ms, evs, ?_, hdb, hwrote⟩
      rw [hrun]
      dsimp only [bind, Except.bind]
      rw [Option.or_none, Option.none_or]
      rfl

/-- What has come of a ref that is kept. -/
structure RefDone (fs : PyStr → Reading) (ls : LoopState) (entityId : Id) (ms : List Memory)
    (ref : PyStr × Json PyStr) (kv : PyStr × PyStr) : Prop where
  name : kv.1 = ref.1
  isUuid : PyUuid.isUuid kv.2 = true
  value : uuidRef? ref.2 = some kv.2 ∨ uuidRef? ref.2 = none ∧
    ∃ path, (pathsOf ref.2).getLast? = some path ∧
      ∃ m ∈ ms, m.id = kv.2 ∧ m.toNote = newNote ls entityId ref.1 (contentOf fs path)

def isKept (ref : PyStr × Json PyStr) : Bool :=
  (uuidRef? ref.2).isSome || !(pathsOf ref.2).isEmpty

theorem RefDone.mono {ms ms' : List Memory} {ref : PyStr × Json PyStr} {kv : PyStr × PyStr}
    (h : RefDone fs ls entityId ms ref kv) (hsub : ms ⊆ ms') :
    RefDone fs ls entityId ms' ref kv := by
  refine ⟨h.name, h.isUuid, h.value.imp_right ?_⟩
  rintro ⟨hnone, path, hpath, m, hm, hrest⟩
  exact ⟨hnone, path, hpath, m, hsub hm, hrest⟩

theorem uuidRef?_isUuid {value : Json PyStr} {id : PyStr} (h : uuidRef? value = some id) :
    PyUuid.isUuid id = true ∧ value = .str id := by
  cases value with
  | str t =>
    rw [uuidRef?] at h
    split at h
    · rename_i ht
      obtain rfl := Option.some.inj h
      exact ⟨ht, rfl⟩
    · cases h
  | null => cases h
  | bool b => cases h
  | num n => cases h
  | arr vs => cases h
  | obj kvs => cases h

theorem newValue_eq_none {ref : PyStr × Json PyStr} {ms : List Memory} {evs : List OrphanEvent}
    (h : Wrote (notesOf fs ls entityId [ref]) (orphansOf fs ls [ref]) ms evs)
    (hkept : isKept ref = false) : newValue ref.2 ms = none := by
  rw [isKept, Bool.or_eq_false_iff, Bool.not_eq_false', List.isEmpty_iff] at hkept
  obtain ⟨hid, hpaths⟩ := hkept
  rw [Option.isSome_eq_false_iff, Option.isNone_iff_eq_none] at hid
  have hms : ms.map Memory.toNote = [] := by
    rw [h.notes, notesOf, List.flatMap_singleton, hpaths]
    rfl
  rw [newValue, hid, List.map_eq_nil_iff.mp hms]
  rfl

theorem newValue_eq_some {ref : PyStr × Json PyStr} {ms : List Memory} {evs : List OrphanEvent}
    (h : Wrote (notesOf fs ls entityId [ref]) (orphansOf fs ls [ref]) ms evs)
    (hkept : isKept ref = true) :
    ∃ v, newValue ref.2 ms = some v ∧ RefDone fs ls entityId ms ref (ref.1, v) := by
  unfold newValue
  cases hid : uuidRef? ref.2 with
  | some id => exact ⟨id, rfl, rfl, (uuidRef?_isUuid hid).1, .inl hid⟩
  | none =>
    rw [isKept, hid, Option.isSome_none, Bool.false_or, Bool.not_eq_true', List.isEmpty_eq_false_iff]
      at hkept
    obtain ⟨path, hpath⟩ := Option.ne_none_iff_exists'.mp (mt List.getLast?_eq_none_iff.mp hkept)
    have hlast : (ms.getLast?.map Memory.toNote) =
        some (newNote ls entityId ref.1 (contentOf fs path)) := by
      rw [← List.getLast?_map, h.notes, notesOf, List.flatMap_singleton, notesOfPaths,
        List.getLast?_map, hpath]
      rfl
    obtain ⟨m, hm, hnote⟩ := Option.map_eq_some_iff.mp hlast
    have hmem := List.mem_of_getLast? hm
    refine ⟨m.id, by rw [hm]; rfl, rfl, h.ids m hmem, .inr ⟨hid, path, hpath, m, hmem, rfl, hnote⟩⟩

theorem migrateRefs_done (st : State) (newRefs : NewRefs) {refs : List (PyStr × Json PyStr)}
    (hnames : (newRefs.1.map Prod.fst ++ refs.map Prod.fst).Nodup)
    (h : ∀ ref ∈ refs, ∀ path ∈ pathsOf ref.2, Accepted fs ref.1 path) :
    ∃ st' newRefs' ms evs added, refs.foldlM (migrateRef fs draw ls entityId) (st, newRefs) =
        .ok (st', newRefs') ∧ st'.db = st.db.grow ms evs ∧
      Wrote (notesOf fs ls entityId refs) (orphansOf fs ls refs) ms evs ∧
      newRefs'.1 = newRefs.1 ++ added ∧
      List.Forall₂ (RefDone fs ls entityId ms) (refs.filter isKept) added := by
  induction refs generalizing st newRefs with
  | nil =>
    exact ⟨st, newRefs, [], [], [], rfl, st.db.grow_nil.symm, wrote_nil,
      (List.append_nil _).symm, .nil⟩
  | cons ref refs ih =>
    rw [List.forall_mem_cons] at h
    obtain ⟨st₁, ms, evs, hone, hdb₁, hwrote₁⟩ := migrateRef_done st newRefs h.1
    have hfree : ref.1 ∉ newRefs.1.map Prod.fst := by
      intro hmem
      exact (List.nodup_append.mp hnames).2.2 _ hmem ref.1 List.mem_cons_self rfl
    have hset (v : PyStr) : (newRefs.set ref.1 v).1 = newRefs.1 ++ [(ref.1, v)] :=
      Dict.set_of_not_mem hfree
    obtain ⟨first, hfirst, hfirstDone⟩ : ∃ first,
        (setRef newRefs ref.1 (newValue ref.2 ms)).1 = newRefs.1 ++ first ∧
          List.Forall₂ (RefDone fs ls entityId ms) ([ref].filter isKept) first := by
      cases hkept : isKept ref with
      | false =>
        rw [newValue_eq_none hwrote₁ hkept, List.filter_cons_of_neg (by simp [hkept])]
        exact ⟨[], (List.append_nil _).symm, .nil⟩
      | true =>
        obtain ⟨v, hv, hdone⟩ := newValue_eq_some hwrote₁ hkept
        rw [hv, List.filter_cons_of_pos hkept]
        exact ⟨[(ref.1, v)], hset v, .cons hdone .nil⟩
    have hnames' : ((setRef newRefs ref.1 (newValue ref.2 ms)).1.map Prod.fst ++
        refs.map Prod.fst).Nodup := by
      cases hv : newValue ref.2 ms with
      | none =>
        refine List.Nodup.sublist ?_ hnames
        exact (List.sublist_cons_self _ _).append_left _
      | some v =>
        change ((newRefs.set ref.1 v).1.map Prod.fst ++ refs.map Prod.fst).Nodup
        rw [hset, List.map_append, List.append_assoc]
        exact hnames
    obtain ⟨st₂, newRefs', ms', evs', added, hrun, hdb₂, hwrote₂, hadded, hdone⟩ :=
      ih st₁ (setRef newRefs ref.1 (newValue ref.2 ms)) hnames' h.2
    refine ⟨st₂, newRefs', ms ++ ms', evs ++ evs', first ++ added, ?_, ?_, ?_, ?_, ?_⟩
    · rw [List.foldlM_cons, hone]
      exact hrun
    · rw [hdb₂, hdb₁, Db.grow_grow]
    · have happend := hwrote₁.append hwrote₂
      rwa [notesOf, notesOf, ← List.flatMap_append, orphansOf, orphansOf, ← List.flatMap_append]
        at happend
    · rw [hadded, hfirst, List.append_assoc]
    · have hfilter : (ref :: refs).filter isKept = [ref].filter isKept ++ refs.filter isKept :=
        List.filter_append [ref] refs
      rw [hfilter]
      refine List.rel_append (hfirstDone.imp fun _ _ h => h.mono ?_)
        (hdone.imp fun _ _ h => h.mono ?_)
      · exact List.subset_append_left ms ms'
      · exact List.subset_append_right ms ms'

end Eyot.Learning.Notepad
