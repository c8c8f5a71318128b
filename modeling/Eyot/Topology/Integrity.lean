import Eyot.Library.FailingFold
import Eyot.Library.Keeps
import Eyot.Library.Run
import Eyot.Topology.ForestLaws
import Eyot.Topology.Seats

/-! What memberships and passages point at is there. -/

namespace Eyot.Topology

variable {db db' : Db} {ctx : Context}

def InstanceActive (db : Db) (id : Id) : Prop :=
  ∃ i, db.instances.find? id = some i ∧ i.deletedAt = none

/-- An active membership of the workspace. -/
def Seated (db : Db) (workspaceId id : Id) : Prop :=
  ∃ m, db.memberships.find? id = some m ∧ m.deletedAt = none ∧ m.workspaceId = workspaceId

structure Intact (db : Db) : Prop where
  memberships : ∀ m ∈ db.memberships.rows, m.deletedAt = none → ∀ id, m.instanceId = some id →
    InstanceActive db id
  passages : ∀ p ∈ db.passages.rows, p.deletedAt = none →
    Seated db p.workspaceId p.fromMembershipId ∧ Seated db p.workspaceId p.toMembershipId

/-- What every row of the memberships satisfies: its key was drawn, and
`ck_memberships_exclusive_fk`. -/
structure Constrained (db : Db) : Prop where
  id_ne : ∀ m ∈ db.memberships.rows, m.id ≠ ""
  exclusive : ∀ m ∈ db.memberships.rows, m.userId.isSome = !m.instanceId.isSome

theorem seated_congr (h : db'.memberships = db.memberships) {workspaceId id : Id} :
    Seated db' workspaceId id ↔ Seated db workspaceId id := by
  rw [Seated, Seated, h]

theorem instanceActive_congr (h : db'.instances = db.instances) {id : Id} :
    InstanceActive db' id ↔ InstanceActive db id := by
  rw [InstanceActive, InstanceActive, h]

/-- Only the passages are others. -/
theorem intact_passages (hs : Intact db) (hmemberships : db'.memberships = db.memberships)
    (hinstances : db'.instances = db.instances) :
    Intact db' ↔ ∀ p ∈ db'.passages.rows, p.deletedAt = none →
      Seated db p.workspaceId p.fromMembershipId ∧ Seated db p.workspaceId p.toMembershipId := by
  constructor
  · intro hs' p hp hactive
    rw [← seated_congr hmemberships, ← seated_congr hmemberships]
    exact hs'.passages p hp hactive
  · intro h
    refine ⟨?_, ?_⟩
    · intro m hm hactive id hid
      rw [instanceActive_congr hinstances]
      exact hs.memberships m (hmemberships ▸ hm) hactive id hid
    · intro p hp hactive
      rw [seated_congr hmemberships, seated_congr hmemberships]
      exact h p hp hactive

/-! The cleanup of passages. -/

theorem mem_softDeletePassagesTouching {now : Time} {passages : Table Passage.id} {ids : List Id}
    {p : Passage} (hp : p ∈ (softDeletePassagesTouching now passages ids).rows)
    (hactive : p.deletedAt = none) : p ∈ passages.rows ∧
      ∀ id ∈ ids, id ≠ "" → p.fromMembershipId ≠ id ∧ p.toMembershipId ≠ id := by
  simp only [softDeletePassagesTouching] at hp
  split at hp
  · rename_i hempty
    refine ⟨hp, ?_⟩
    intro id hid hne
    rw [List.isEmpty_iff, List.filter_eq_nil_iff] at hempty
    exact absurd (decide_eq_true hne) (hempty id hid)
  · obtain ⟨hp, htouches⟩ := Table.mem_of_not_marked (fun p : Passage => p.deletedAt.isSome)
      (softDeletePassage_id now) (fun _ => rfl) hp (by rw [hactive]; rfl)
    refine ⟨hp, ?_⟩
    intro id hid hne
    have hmem : id ∈ ids.filter (· ≠ "") := List.mem_filter.mpr ⟨hid, decide_eq_true hne⟩
    simp only [touches, hactive, Option.isNone_none, Bool.true_and, Bool.or_eq_false_iff,
      decide_eq_false_iff_not] at htouches
    constructor
    · rintro rfl
      exact htouches.1 hmem
    · rintro rfl
      exact htouches.2 hmem

/-- Seats go, and with them the passages that touch them and perhaps the instance they were for. -/
theorem intact_leave (hc : Constrained db) (hs : Intact db) {now : Time} {q : Membership → Bool}
    {ids : List Id} (hids : ∀ m ∈ db.memberships.rows, q m = true → m.id ∈ ids)
    (hmemberships : db'.memberships = db.memberships.updateWhere q (leave now) (leave_id now))
    (hpassages : db'.passages = softDeletePassagesTouching now db.passages ids)
    (hinstances : ∀ m ∈ db.memberships.rows, m.deletedAt = none → q m = false →
      ∀ id, m.instanceId = some id → InstanceActive db id → InstanceActive db' id) :
    Intact db' := by
  have hstay : ∀ workspaceId id, Seated db workspaceId id → (∀ id' ∈ ids, id' ≠ "" → id ≠ id') →
      Seated db' workspaceId id := by
    rintro workspaceId id ⟨m, hm, hactive, hws⟩ hnot
    have hq : q m = false := by
      by_contra hq
      rw [Bool.not_eq_false] at hq
      have hmem := Table.find?_mem hm
      exact hnot m.id (hids m hmem hq) (hc.id_ne m hmem) (Table.find?_key hm).symm
    rw [Seated, hmemberships]
    refine ⟨m, ?_, hactive, hws⟩
    rw [Table.find?_eq_some]
    exact ⟨Table.mem_updateWhere_of_not _ (Table.find?_mem hm) hq, Table.find?_key hm⟩
  refine ⟨?_, ?_⟩
  · intro m hm hactive id hid
    rw [hmemberships] at hm
    obtain ⟨hm, hq⟩ := Table.mem_of_not_marked (fun m : Membership => m.deletedAt.isSome)
      (leave_id now) (fun _ => rfl) hm (by rw [hactive]; rfl)
    exact hinstances m hm hactive hq id hid (hs.memberships m hm hactive id hid)
  · intro p hp hactive
    rw [hpassages] at hp
    obtain ⟨hp, hnot⟩ := mem_softDeletePassagesTouching hp hactive
    obtain ⟨hfrom, hto⟩ := hs.passages p hp hactive
    exact ⟨hstay _ _ hfrom fun id hid hne => (hnot id hid hne).1,
      hstay _ _ hto fun id hid hne => (hnot id hid hne).2⟩

/-! The seats. -/

theorem find?_of_rows {t t' : Table Membership.id} {seat : Membership}
    (hkept : ∀ m ∈ t.rows, m.deletedAt = none → m ∈ t'.rows) {id : Id}
    (h : t.find? id = some seat) (hactive : seat.deletedAt = none) : t'.find? id = some seat := by
  rw [Table.find?_eq_some]
  exact ⟨hkept seat (Table.find?_mem h) hactive, Table.find?_key h⟩

/-- One seat is taken, and the others stay as they are. -/
theorem intact_seat (hs : Intact db) (seat : Membership) (hseat : seat.deletedAt = none)
    (hpassages : db'.passages = db.passages) (hinstances : db'.instances = db.instances)
    (hkept : ∀ m ∈ db.memberships.rows, m.deletedAt = none → m ∈ db'.memberships.rows)
    (hnew : seat ∈ db'.memberships.rows)
    (hback : ∀ m ∈ db'.memberships.rows, m.deletedAt = none →
      m ∈ db.memberships.rows ∨ m = seat) :
    Intact db' ↔ ∀ id, seat.instanceId = some id → InstanceActive db id := by
  constructor
  · intro hs' id hid
    rw [← instanceActive_congr hinstances]
    exact hs'.memberships seat hnew hseat id hid
  · intro h
    refine ⟨?_, ?_⟩
    · intro m hm hactive id hid
      rw [instanceActive_congr hinstances]
      rcases hback m hm hactive with hold | rfl
      · exact hs.memberships m hold hactive id hid
      · exact h id hid
    · have hstay : ∀ workspaceId id, Seated db workspaceId id → Seated db' workspaceId id := by
        rintro workspaceId id ⟨m, hm, hactive, hws⟩
        exact ⟨m, find?_of_rows hkept hm hactive, hactive, hws⟩
      intro p hp hactive
      rw [hpassages] at hp
      obtain ⟨hfrom, hto⟩ := hs.passages p hp hactive
      exact ⟨hstay _ _ hfrom, hstay _ _ hto⟩

theorem firstSeat_mem {ctx : Context} {ms : List Membership} {m : Membership}
    (h : firstSeat ctx ms = some m) : m ∈ ms :=
  List.mem_of_getElem? h

theorem holds_user {m : Membership} (hc : Constrained db) (hm : m ∈ db.memberships.rows) {id : Id}
    (h : (Holder.user id).holds m = true) : m.instanceId = none := by
  have huser : m.userId = some id := of_decide_eq_true h
  have hexclusive := hc.exclusive m hm
  rw [huser, Option.isSome_some, eq_comm, Bool.not_eq_true'] at hexclusive
  exact Option.isNone_iff_eq_none.mp (Option.isSome_eq_false_iff.mp hexclusive)

/-- For a seat of an instance, the instance is active. -/
def Holder.Active (db : Db) : Holder → Prop
  | .user _ => True
  | .instance_ id => InstanceActive db id

theorem active_iff (m : Membership) (holder : Holder)
    (hinstance : ∀ id, holder = .instance_ id → m.instanceId = some id)
    (huser : ∀ id, holder = .user id → m.instanceId = none) :
    (∀ id, m.instanceId = some id → InstanceActive db id) ↔ holder.Active db := by
  cases holder with
  | user id =>
    rw [huser id rfl]
    exact iff_of_true (fun _ h => by cases h) trivial
  | instance_ id =>
    rw [hinstance id rfl]
    constructor
    · intro h
      exact h id rfl
    · intro h id' hid
      exact Option.some.inj hid ▸ h

/-- A seat that was given up is taken again. -/
theorem intact_takeAgain (hc : Constrained db) (hs : Intact db) {existing : Membership}
    (hmem : existing ∈ db.memberships.rows) (hgone : existing.deletedAt.isNone = false)
    (hpassages : db'.passages = db.passages) (hinstances : db'.instances = db.instances)
    (hmemberships : db'.memberships = db.memberships.update existing.id takeAgain takeAgain_id) :
    Constrained db' ∧
      (Intact db' ↔ ∀ id, existing.instanceId = some id → InstanceActive db id) := by
  have hback : ∀ m ∈ db'.memberships.rows, m ∈ db.memberships.rows ∨ m = takeAgain existing := by
    intro m hm
    rw [hmemberships] at hm
    rcases Table.mem_update_cases takeAgain_id hm with ⟨hm, _⟩ | ⟨r, hr, hid, rfl⟩
    · exact .inl hm
    · exact .inr (congrArg takeAgain (db.memberships.eq_of_key_eq hr hmem hid))
  refine ⟨⟨?_, ?_⟩, ?_⟩
  · intro m hm
    rcases hback m hm with hm | rfl
    · exact hc.id_ne m hm
    · exact hc.id_ne existing hmem
  · intro m hm
    rcases hback m hm with hm | rfl
    · exact hc.exclusive m hm
    · exact hc.exclusive existing hmem
  · refine intact_seat hs (takeAgain existing) rfl hpassages hinstances ?_ ?_ ?_
    · intro m hm hactive
      rw [hmemberships]
      refine Table.mem_updateWhere_of_not takeAgain_id hm (decide_eq_false ?_)
      intro hid
      rw [db.memberships.eq_of_key_eq hm hmem hid] at hactive
      rw [hactive] at hgone
      cases hgone
    · rw [hmemberships]
      exact Table.mem_update_self takeAgain takeAgain_id hmem rfl
    · exact fun m hm _ => hback m hm

theorem intact_newSeat (hc : Constrained db) (hs : Intact db) {seat : Membership}
    (hid : seat.id ≠ "") (hexclusive : seat.userId.isSome = !seat.instanceId.isSome)
    (hseat : seat.deletedAt = none)
    (hpassages : db'.passages = db.passages) (hinstances : db'.instances = db.instances)
    (hinsert : db.memberships.insert? seat = some db'.memberships) :
    Constrained db' ∧ (Intact db' ↔ ∀ id, seat.instanceId = some id → InstanceActive db id) := by
  refine ⟨⟨?_, ?_⟩, ?_⟩
  · intro m hm
    rcases (Table.mem_insert? hinsert).mp hm with hm | rfl
    · exact hc.id_ne m hm
    · exact hid
  · intro m hm
    rcases (Table.mem_insert? hinsert).mp hm with hm | rfl
    · exact hc.exclusive m hm
    · exact hexclusive
  · refine intact_seat hs seat hseat hpassages hinstances ?_ ?_ ?_
    · exact fun m hm _ => (Table.mem_insert? hinsert).mpr (.inl hm)
    · exact (Table.mem_insert? hinsert).mpr (.inr rfl)
    · exact fun m hm _ => (Table.mem_insert? hinsert).mp hm

theorem intact_createMembership (hc : Constrained db) (hs : Intact db) {ctx : SeatContext}
    {workspaceId : Id} {holder : Holder} {position : Int × Int} {positionTaken : Bool}
    (h : createMembership ctx db workspaceId holder position positionTaken = .ok db') :
    Constrained db' ∧ (Intact db' ↔ holder.Active db) := by
  simp only [createMembership] at h
  split at h
  · cases h
  · split at h
    · rename_i existing hexisting
      obtain ⟨hmem, hholds⟩ := List.mem_filter.mp (firstSeat_mem hexisting)
      rw [Bool.and_eq_true] at hholds
      split at h
      · cases h
      · rename_i hgone
        split at h
        · cases h
        · obtain ⟨hpassages, hmemberships, hinstances⟩ := commit_eq_ok h
          rw [← active_iff existing holder]
          · exact intact_takeAgain hc hs hmem (Bool.not_eq_true _ ▸ hgone) hpassages hinstances
              hmemberships
          · rintro id rfl
            exact of_decide_eq_true hholds.2
          · rintro id rfl
            exact holds_user hc hmem hholds.2
    · split at h
      · cases h
      · split at h
        · cases h
        · rename_i memberships hinsert
          obtain ⟨hpassages, hmemberships, hinstances⟩ := commit_eq_ok h
          rw [show memberships = db'.memberships from hmemberships.symm] at hinsert
          rw [← active_iff (holder.seat ctx.newId workspaceId) holder]
          · cases holder with
            | user id =>
              exact intact_newSeat hc hs ctx.newId_ne rfl rfl hpassages hinstances hinsert
            | instance_ id =>
              exact intact_newSeat hc hs ctx.newId_ne rfl rfl hpassages hinstances hinsert
          · rintro id rfl
            rfl
          · rintro id rfl
            rfl

/-! The passages. -/

theorem seated_keeps (hmemberships : db'.memberships = db.memberships)
    (hinstances : db'.instances = db.instances) (hs : Intact db)
    (h : ∀ q ∈ db'.passages.rows, q.deletedAt = none → ∃ p ∈ db.passages.rows, p.deletedAt = none ∧
      p.workspaceId = q.workspaceId ∧ p.fromMembershipId = q.fromMembershipId ∧
        p.toMembershipId = q.toMembershipId) : Intact db' := by
  rw [intact_passages hs hmemberships hinstances]
  intro q hq hactive
  obtain ⟨p, hp, hpactive, hws, hfrom, hto⟩ := h q hq hactive
  rw [← hws, ← hfrom, ← hto]
  exact hs.passages p hp hpactive

/-- One passage is joined, and the others stay as they are. -/
theorem intact_joined (hs : Intact db) {p : Passage} (hactive : p.deletedAt = none)
    (hmemberships : db'.memberships = db.memberships) (hinstances : db'.instances = db.instances)
    (hnew : p ∈ db'.passages.rows)
    (hback : ∀ q ∈ db'.passages.rows, q ∈ db.passages.rows ∨ q = p) :
    Intact db' ↔
      Seated db p.workspaceId p.fromMembershipId ∧ Seated db p.workspaceId p.toMembershipId := by
  rw [intact_passages hs hmemberships hinstances]
  constructor
  · intro h
    exact h p hnew hactive
  · intro h q hq hqactive
    rcases hback q hq with hold | rfl
    · exact hs.passages q hold hqactive
    · exact h

/-- The membership, if there is one, belongs to the workspace. -/
def OfWorkspace (db : Db) (workspaceId id : Id) : Prop :=
  ∀ m, db.memberships.find? id = some m → m.workspaceId = workspaceId

theorem seated_iff {workspaceId id : Id} (h : hasMembership db id = true) :
    Seated db workspaceId id ↔ OfWorkspace db workspaceId id := by
  simp only [hasMembership, Option.any_eq_true, Option.isNone_iff_eq_none] at h
  obtain ⟨m, hm, hactive⟩ := h
  constructor
  · rintro ⟨m', hm', _, hws⟩ m'' hm''
    rw [← hws, Option.some.inj (hm'.symm.trans hm'')]
  · intro hof
    exact ⟨m, hm, hactive, hof m hm⟩

theorem normalizeEndpoints_and (a b : Id) (q : Id → Prop) :
    q (normalizeEndpoints a b).1 ∧ q (normalizeEndpoints a b).2 ↔ q a ∧ q b := by
  unfold normalizeEndpoints
  split
  · exact Iff.rfl
  · exact and_comm

theorem intact_createPassage (hs : Intact db) {body : PassageCreate} {p : Passage}
    (h : createPassage ctx db body = .ok (db', p)) :
    db'.memberships = db.memberships ∧
      (Intact db' ↔ OfWorkspace db body.workspaceId body.fromMembershipId ∧
        OfWorkspace db body.workspaceId body.toMembershipId) := by
  rw [← normalizeEndpoints_and]
  rcases hends : normalizeEndpoints body.fromMembershipId body.toMembershipId with ⟨fromId, toId⟩
  simp only [createPassage, hends] at h
  split at h
  · cases h
  · rename_i hfrom
    split at h
    · cases h
    · rename_i hto
      rw [Bool.not_eq_true, Bool.not_eq_false'] at hfrom hto
      rw [← seated_iff hfrom, ← seated_iff hto]
      split at h
      · rename_i existing hexisting
        obtain ⟨hmem, hws⟩ := existingPassage_eq_some hexisting
        split at h
        · cases h
        · obtain ⟨db₁, hcommit, h⟩ := FailingFold.bind_eq_ok.mp h
          obtain ⟨rfl, rfl⟩ := Prod.mk.inj (Except.ok.inj h)
          obtain ⟨hpassages, hmemberships, hinstances⟩ := commit_eq_ok hcommit
          refine ⟨hmemberships, ?_⟩
          rw [intact_joined hs (p := revive fromId toId existing) rfl hmemberships hinstances]
          · rw [← hws]
            rfl
          · rw [hpassages]
            exact Table.mem_update_self _ _ hmem rfl
          · intro q hq
            rw [hpassages] at hq
            rcases Table.mem_update_cases _ hq with ⟨hq, _⟩ | ⟨r, hr, hid, rfl⟩
            · exact .inl hq
            · exact .inr (congrArg _ (db.passages.eq_of_key_eq hr hmem hid))
      · split at h
        · cases h
        · obtain ⟨db₁, hinsert, h⟩ := FailingFold.bind_eq_ok.mp h
          obtain ⟨rfl, rfl⟩ := Prod.mk.inj (Except.ok.inj h)
          obtain ⟨hrows, hmemberships, hinstances⟩ := insertPassage_eq_ok hinsert
          refine ⟨hmemberships, ?_⟩
          rw [intact_joined hs (p := newPassage ctx body fromId toId) rfl hmemberships hinstances]
          · rfl
          · rw [hrows]
            exact List.mem_append_right _ (List.mem_singleton_self _)
          · intro q hq
            rw [hrows, List.mem_append, List.mem_singleton] at hq
            exact hq

theorem intact_updatePassage (hs : Intact db) {passageId : Id} {body : PassageUpdate} {p : Passage}
    (h : updatePassage ctx db passageId body = .ok (db', p)) :
    db'.memberships = db.memberships ∧ Intact db' := by
  simp only [updatePassage] at h
  split at h
  · cases h
  · split at h
    · cases h
    · split at h
      · cases h
      · obtain ⟨db₁, hcommit, h⟩ := FailingFold.bind_eq_ok.mp h
        obtain ⟨rfl, -⟩ := Prod.mk.inj (Except.ok.inj h)
        obtain ⟨hpassages, hmemberships, hinstances⟩ := commit_eq_ok hcommit
        refine ⟨hmemberships, seated_keeps hmemberships hinstances hs ?_⟩
        intro q hq hactive
        rw [hpassages] at hq
        rcases Table.mem_update_cases _ hq with ⟨hq, _⟩ | ⟨r, hr, _, rfl⟩
        · exact ⟨q, hq, hactive, rfl, rfl, rfl⟩
        · exact ⟨r, hr, hactive, rfl, rfl, rfl⟩

theorem intact_deletePassage (hs : Intact db) {passageId : Id}
    (h : deletePassage ctx db passageId = .ok db') :
    db'.memberships = db.memberships ∧ Intact db' := by
  simp only [deletePassage] at h
  split at h
  · cases h
  · split at h
    · cases h
    · obtain ⟨hpassages, hmemberships, hinstances⟩ := commit_eq_ok h
      refine ⟨hmemberships, seated_keeps hmemberships hinstances hs ?_⟩
      intro q hq hactive
      rw [hpassages] at hq
      rcases Table.mem_update_cases _ hq with ⟨hq, _⟩ | ⟨r, _, _, rfl⟩
      · exact ⟨q, hq, hactive, rfl, rfl, rfl⟩
      · cases hactive

theorem intact_cleanup (hs : Intact db) {ids : List Id}
    (h : commit ctx db (softDeletePassagesTouching ctx.now db.passages ids) = .ok db') :
    db'.memberships = db.memberships ∧ Intact db' := by
  obtain ⟨hpassages, hmemberships, hinstances⟩ := commit_eq_ok h
  refine ⟨hmemberships, seated_keeps hmemberships hinstances hs ?_⟩
  intro q hq hactive
  rw [hpassages] at hq
  exact ⟨q, (mem_softDeletePassagesTouching hq hactive).1, hactive, rfl, rfl, rfl⟩

/-! The deletions. -/

theorem Constrained.leave (hc : Constrained db) {now : Time} {q : Membership → Bool}
    (hmemberships : db'.memberships = db.memberships.updateWhere q (leave now) (leave_id now)) :
    Constrained db' := by
  have hold : ∀ m ∈ db'.memberships.rows, ∃ r ∈ db.memberships.rows,
      r.id = m.id ∧ r.userId = m.userId ∧ r.instanceId = m.instanceId := by
    intro m hm
    rw [hmemberships] at hm
    obtain ⟨r, hr, rfl⟩ := Table.mem_updateWhere.mp hm
    refine ⟨r, hr, ?_⟩
    split <;> exact ⟨rfl, rfl, rfl⟩
  refine ⟨?_, ?_⟩
  · intro m hm
    obtain ⟨r, hr, hid, _⟩ := hold m hm
    exact hid ▸ hc.id_ne r hr
  · intro m hm
    obtain ⟨r, hr, _, huser, hinstance⟩ := hold m hm
    rw [← huser, ← hinstance]
    exact hc.exclusive r hr

/-- An instance goes, and all its seats with it. -/
theorem intact_teardown (hc : Constrained db) (hs : Intact db) {now : Time} {instanceId : Id}
    (hmemberships : db'.memberships =
      db.memberships.updateWhere (seatOf instanceId) (leave now) (leave_id now))
    (hinstances : db'.instances =
      db.instances.update instanceId (teardown now) (teardown_id now))
    (hpassages : db'.passages = softDeletePassagesTouching now db.passages
      ((db.memberships.rows.filter (seatOf instanceId)).map Membership.id)) :
    Constrained db' ∧ Intact db' := by
  refine ⟨hc.leave hmemberships, intact_leave hc hs ?_ hmemberships hpassages ?_⟩
  · intro m hm hseat
    exact List.mem_map.mpr ⟨m, List.mem_filter.mpr ⟨hm, hseat⟩, rfl⟩
  · rintro m _ hactive hseat id hid ⟨i, hi, hiactive⟩
    have hne : id ≠ instanceId := by
      rintro rfl
      rw [seatOf, hactive, hid, decide_eq_true rfl] at hseat
      cases hseat
    rw [InstanceActive, hinstances, Table.find?_update, if_neg hne]
    exact ⟨i, hi, hiactive⟩

theorem intact_deleteInstance (hc : Constrained db) (hs : Intact db) {instanceId : Id}
    (h : deleteInstance ctx db instanceId = .ok db') : Constrained db' ∧ Intact db' := by
  simp only [deleteInstance] at h
  split at h
  · cases h
  · split at h
    · obtain rfl := Except.ok.inj h
      exact ⟨hc, hs⟩
    · obtain ⟨hpassages, hmemberships, hinstances⟩ := commit_eq_ok h
      exact intact_teardown hc hs hmemberships hinstances hpassages

theorem intact_deleteMembership (hc : Constrained db) (hs : Intact db) {membershipId : Id}
    (h : deleteMembership ctx db membershipId = .ok db') : Constrained db' ∧ Intact db' := by
  simp only [deleteMembership] at h
  split at h
  · cases h
  · split at h
    · cases h
    · split at h
      · obtain ⟨hpassages, hmemberships, hinstances⟩ := commit_eq_ok h
        exact intact_teardown hc hs hmemberships hinstances hpassages
      · obtain ⟨hpassages, hmemberships, hinstances⟩ := commit_eq_ok h
        refine ⟨hc.leave hmemberships, intact_leave hc hs ?_ hmemberships hpassages ?_⟩
        · intro m _ hm
          exact List.mem_singleton.mpr (of_decide_eq_true hm)
        · intro m _ _ _ id _ hactive
          rwa [instanceActive_congr hinstances]

/-- No active seat elsewhere is for an instance of the workspace. -/
def NoSeatElsewhere (db : Db) (workspaceId : Id) : Prop :=
  ∀ m ∈ db.memberships.rows, m.deletedAt = none → m.workspaceId ≠ workspaceId →
    ∀ id, m.instanceId = some id → ∀ i, db.instances.find? id = some i →
      i.workspaceId ≠ workspaceId

theorem isSome_eq_false {t : Option Time} : t.isSome = false ↔ t = none := by
  rw [← Bool.not_eq_true, Option.not_isSome_iff_eq_none]

theorem instanceActive_updateWhere {q : Instance → Bool} {now : Time}
    (hinstances : db'.instances =
      db.instances.updateWhere q (softDeleteInstance now) (softDeleteInstance_id now)) {id : Id} :
    InstanceActive db' id ↔
      ∃ i, db.instances.find? id = some i ∧ i.deletedAt = none ∧ q i = false := by
  rw [InstanceActive, hinstances]
  simp only [← isSome_eq_false]
  exact exists_congr fun _ =>
    Table.find?_updateWhere_iff (fun i : Instance => i.deletedAt.isSome) fun _ => rfl

theorem seated_updateWhere {q : Membership → Bool} {now : Time}
    (hmemberships : db'.memberships = db.memberships.updateWhere q (leave now) (leave_id now))
    {workspaceId id : Id} (hq : ∀ m, m.workspaceId = workspaceId → q m = false)
    (h : Seated db workspaceId id) : Seated db' workspaceId id := by
  obtain ⟨m, hm, hactive, hws⟩ := h
  rw [Seated, hmemberships]
  refine ⟨m, ?_, hactive, hws⟩
  rw [Table.find?_eq_some]
  exact ⟨Table.mem_updateWhere_of_not _ (Table.find?_mem hm) (hq m hws), Table.find?_key hm⟩

theorem intact_deleteWorkspace (hc : Constrained db) (hs : Intact db) {workspaceId : Id}
    (h : deleteWorkspace ctx db workspaceId = .ok db') :
    Constrained db' ∧ (Intact db' ↔ NoSeatElsewhere db workspaceId) := by
  simp only [deleteWorkspace] at h
  split at h
  · cases h
  · obtain ⟨hpassages, hmemberships, hinstances⟩ := commit_eq_ok h
    refine ⟨hc.leave hmemberships, ?_⟩
    constructor
    · intro hs' m hm hactive hws id hid i hi hiws
      have hstays : m ∈ db'.memberships.rows := by
        rw [hmemberships]
        exact Table.mem_updateWhere_of_not (leave_id ctx.now) hm
          (by rw [decide_eq_false hws, Bool.false_and])
      obtain ⟨i', hi', hiactive, hq⟩ :=
        (instanceActive_updateWhere hinstances).mp (hs'.memberships m hstays hactive id hid)
      obtain rfl := Option.some.inj (hi.symm.trans hi')
      rw [decide_eq_true hiws, hiactive] at hq
      cases hq
    · intro hnone
      refine ⟨?_, ?_⟩
      · intro m hm hactive id hid
        rw [hmemberships] at hm
        obtain ⟨hm, hq⟩ := Table.mem_of_not_marked (fun m : Membership => m.deletedAt.isSome)
          (leave_id ctx.now) (fun _ => rfl) hm (isSome_eq_false.mpr hactive)
        rw [hactive, Option.isNone_none, Bool.and_true, decide_eq_false_iff_not] at hq
        obtain ⟨i, hi, hiactive⟩ := hs.memberships m hm hactive id hid
        rw [instanceActive_updateWhere hinstances]
        refine ⟨i, hi, hiactive, ?_⟩
        rw [decide_eq_false (hnone m hm hactive hq id hid i hi), Bool.false_and]
      · intro p hp hactive
        rw [hpassages] at hp
        obtain ⟨hp, hq⟩ := Table.mem_of_not_marked (fun p : Passage => p.deletedAt.isSome)
          (softDeletePassage_id ctx.now) (fun _ => rfl) hp (isSome_eq_false.mpr hactive)
        rw [hactive, Option.isNone_none, Bool.and_true, decide_eq_false_iff_not] at hq
        have hstay : ∀ id, Seated db p.workspaceId id → Seated db' p.workspaceId id := by
          intro id hseated
          refine seated_updateWhere hmemberships ?_ hseated
          intro m hm
          rw [hm, decide_eq_false hq, Bool.false_and]
        obtain ⟨hfrom, hto⟩ := hs.passages p hp hactive
        exact ⟨hstay _ hfrom, hstay _ hto⟩

/-! Runs. -/

/-- What an operation that goes through has to bring along. -/
def KeepsIntact (db : Db) : Operation → Prop
  | .messaging ⟨_, _, .createPassage body⟩ =>
    OfWorkspace db body.workspaceId body.fromMembershipId ∧
      OfWorkspace db body.workspaceId body.toMembershipId
  | .createMembership _ _ holder _ _ => holder.Active db
  | .deleteWorkspace _ workspaceId => NoSeatElsewhere db workspaceId
  | _ => True

theorem Constrained.congr (hc : Constrained db) (h : db'.memberships = db.memberships) :
    Constrained db' := by
  refine ⟨?_, ?_⟩
  · rw [h]
    exact hc.id_ne
  · rw [h]
    exact hc.exclusive

theorem intact_handle (hc : Constrained db) (hs : Intact db) {req : Request}
    (h : handle db req = .ok db') :
    Constrained db' ∧ (Intact db' ↔ KeepsIntact db (.messaging req)) := by
  obtain ⟨actor, ctx, call⟩ := req
  cases call with
  | createPassage body =>
    obtain ⟨⟨_, p⟩, hcreate, rfl⟩ := FailingFold.map_eq_ok.mp h
    obtain ⟨hmemberships, hiff⟩ := intact_createPassage hs hcreate
    exact ⟨hc.congr hmemberships, hiff⟩
  | updatePassage passageId body =>
    obtain ⟨⟨_, p⟩, hupdate, rfl⟩ := FailingFold.map_eq_ok.mp h
    obtain ⟨hmemberships, hs'⟩ := intact_updatePassage hs hupdate
    exact ⟨hc.congr hmemberships, iff_of_true hs' trivial⟩
  | deletePassage passageId =>
    obtain ⟨hmemberships, hs'⟩ := intact_deletePassage hs h
    exact ⟨hc.congr hmemberships, iff_of_true hs' trivial⟩
  | deleteMembership membershipId =>
    obtain ⟨hc', hs'⟩ := intact_deleteMembership hc hs h
    exact ⟨hc', iff_of_true hs' trivial⟩

theorem intact_perform (hc : Constrained db) (hs : Intact db) {op : Operation}
    (h : perform db op = .ok db') : Constrained db' ∧ (Intact db' ↔ KeepsIntact db op) := by
  cases op with
  | messaging req => exact intact_handle hc hs h
  | createMembership ctx workspaceId holder position positionTaken =>
    exact intact_createMembership hc hs h
  | deleteInstance ctx instanceId =>
    obtain ⟨hc', hs'⟩ := intact_deleteInstance hc hs h
    exact ⟨hc', iff_of_true hs' trivial⟩
  | deleteWorkspace ctx workspaceId => exact intact_deleteWorkspace hc hs h
  | cleanup ctx membershipIds =>
    obtain ⟨hmemberships, hs'⟩ := intact_cleanup hs h
    exact ⟨hc.congr hmemberships, iff_of_true hs' trivial⟩

/-- A run keeps the topology intact just when every operation of it that goes through joins
memberships of the passage's workspace, seats an instance that is there, and takes no workspace away
whose instances sit elsewhere. -/
theorem always_intact_iff (hc : Constrained db) (hs : Intact db) (ops : List Operation) :
    Run.Always afterwards Intact db ops ↔
      Run.Meets afterwards (fun db op => (perform db op).isOk → KeepsIntact db op) db ops := by
  have hstep : ∀ db op, Constrained db → Intact db → Constrained (afterwards db op) ∧
      (Intact (afterwards db op) ↔ ((perform db op).isOk → KeepsIntact db op)) := by
    intro db op hc hs
    unfold afterwards
    cases h : perform db op with
    | error e => exact ⟨hc, iff_of_true hs fun hok => by cases hok⟩
    | ok db' =>
      obtain ⟨hc', hiff⟩ := intact_perform hc hs h
      exact ⟨hc', hiff.trans ⟨fun h _ => h, fun h => h rfl⟩⟩
  refine Run.always_iff_meets_of_keeps (r := Constrained) ?_ ?_ hc hs ops
  · intro db op hc hs hmeets
    exact ⟨(hstep db op hc hs).1, (hstep db op hc hs).2.mpr hmeets⟩
  · intro db op hc hs hs'
    exact (hstep db op hc hs).2.mp hs'

theorem twoWorkspaces_nodup : ["v", "w"].Nodup := by decide

theorem twoSeats_nodup : ["a", "b"].Nodup := by decide

/-- Two users share the one workspace, and nobody sits in the other. -/
def twoWorkspaces : Db where
  workspaces := ⟨[⟨"v", "n", none⟩, ⟨"w", "n", none⟩], twoWorkspaces_nodup⟩
  entities := .empty
  instances := .empty
  memberships := ⟨[seat "a", seat "b"], twoSeats_nodup⟩
  passages := .empty
  loopStates := .empty
  uniqueActiveEdge := Passage.uniqueActiveEdge_nil

theorem twoWorkspaces_constrained : Constrained twoWorkspaces := ⟨by decide, by decide⟩

theorem twoWorkspaces_intact : Intact twoWorkspaces := by
  refine ⟨?_, ?_⟩
  · intro m hm _ id hid
    simp only [twoWorkspaces, List.mem_cons, List.not_mem_nil, or_false] at hm
    rcases hm with rfl | rfl <;> cases hid
  · intro p hp
    cases hp

def join (workspaceId : Id) : Operation :=
  .messaging (requestAt 1 "p" (.createPassage ⟨workspaceId, "a", "b", none⟩))

def part : Operation := .messaging (requestAt 2 "" (.deleteMembership "a"))

theorem always_intact_join_part : Run.Always afterwards Intact twoWorkspaces [join "w", part] := by
  refine (always_intact_iff twoWorkspaces_constrained twoWorkspaces_intact _).mpr
    ⟨fun _ => ⟨?_, ?_⟩, fun _ => trivial, trivial⟩
  · intro m hm
    obtain rfl : seat "a" = m := Option.some.inj hm
    rfl
  · intro m hm
    obtain rfl : seat "b" = m := Option.some.inj hm
    rfl

/-- Nobody compares the workspace of a passage with that of its endpoints. -/
theorem not_intact_join_elsewhere : ¬∀ db, Constrained db → Intact db →
    ∀ ops, Run.Always afterwards Intact db ops := by
  intro h
  have hend := (h twoWorkspaces twoWorkspaces_constrained twoWorkspaces_intact [join "v"]).exec
  have hrows : (Run.exec afterwards twoWorkspaces [join "v"]).passages.rows =
      [⟨"p", "v", "a", "b", true, passageModeDual, none, none⟩] := by rfl
  obtain ⟨⟨m, hm, _, hws⟩, _⟩ := hend.passages _ (hrows ▸ List.mem_singleton_self _) rfl
  have hseat : (Run.exec afterwards twoWorkspaces [join "v"]).memberships.find? "a" =
      some (seat "a") := by rfl
  obtain rfl := Option.some.inj (hseat.symm.trans hm)
  exact absurd hws (by decide)

end Eyot.Topology
