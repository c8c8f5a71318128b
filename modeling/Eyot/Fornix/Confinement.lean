import Eyot.Fornix.Files

/-! Whether the hub's requests stay in the mirror. -/

namespace Eyot.Fornix

open PosixPath

variable {m : Mount} {parentPath : Option Str} {name : Str}

/-- Strictly inside the mirror. -/
def Mount.Below (m : Mount) (p : Path) : Prop := ∃ q, q ≠ [] ∧ m.root ++ q = p

theorem Mount.Below.extend {p q : Path} (h : m.Below p) (hpq : p <+: q) : m.Below q := by
  obtain ⟨r, hr, rfl⟩ := h
  obtain ⟨r', rfl⟩ := hpq
  exact ⟨r ++ r', List.append_ne_nil_of_left_ne_nil hr r', (List.append_assoc ..).symm⟩

/-- The path under the mirror is relative and has a name in it, or it is absolute and leads there
all the same. -/
def Stays (m : Mount) (parentPath : Option Str) (name : Str) : Prop :=
  if isAbsolute (mirrorRel parentPath name) then m.Below (parts (mirrorRel parentPath name))
  else parts (mirrorRel parentPath name) ≠ []

theorem below_mirrorPath : m.Below (mirrorPath m parentPath name) ↔ Stays m parentPath name := by
  unfold mirrorPath Stays
  split
  · exact Iff.rfl
  · constructor
    · rintro ⟨q, hq, heq⟩
      rwa [← List.append_cancel_left heq]
    · exact fun hne => ⟨_, hne, rfl⟩

/-- The names that a change hands to the mirror. -/
def Change.spots : Change → List (Option Str × Str)
  | .stay _ | .broken => []
  | .put f | .drop f => [(f.parentPath, f.name)]
  | .move f f' => [(f.parentPath, f.name), (f'.parentPath, f'.name)]

/-- A write to the hub, or the read of a file of it by an agent. -/
inductive Access where
  | write (r : Request)
  | read (path : Str)

/-- `internal_hub_read` looks for the file of its path. -/
def hubRead (path : Str) : Option (Option Str × Str) :=
  if validateNoTraversal path then splitHubPath path else none

def Access.spots (m : Mount) (h : Hub) (d : Draw) : Access → List (Option Str × Str)
  | .write r =>
    match r.plan m h d with
    | .error _ => []
    | .ok plan => plan.change.spots
  | .read path => (hubRead path).toList

/-- All paths that are made out for a request are strictly inside the mirror. -/
def Confined (m : Mount) (h : Hub) (d : Draw) (a : Access) : Prop :=
  ∀ spot ∈ a.spots m h d, ∀ target, mirrorAbsPath m spot.1 spot.2 = some target →
    m.Below (m.resolve target)

/-! What a call leaves alone. -/

def Call.targets : Call → List Path
  | .check _ _ | .makedirs _ => []
  | .write p _ | .remove p => [p]
  | .move src dst => [src, dst]

/-- A file that is not in or below a target stays, and none comes up. -/
theorem perform_file {c : Call} {t t' : Disk} {q : Path} {text : Str} (h : c.perform t = some t')
    (hq : ∀ p ∈ c.targets, ¬p <+: q) :
    t'.node q = some (.file text) ↔ t.node q = some (.file text) := by
  have hmoved : ∀ {src dst : Path} {u : Disk}, ¬src <+: q → ¬dst <+: q → t.rename src dst = some u →
      u.node q = t.node q := by
    intro src dst u hsrc hdst hu
    rw [(FileTree.rename_eq_some hu).2, FileTree.renameNode, if_neg hdst, if_neg hsrc]
  cases c with
  | check src dst =>
    rw [Call.perform] at h
    split at h
    · cases h
    · cases h
      exact Iff.rfl
  | makedirs d =>
    obtain ⟨hcan, hnode⟩ := FileTree.mkdirs_eq_some h
    rw [hnode, FileTree.mkdirsNode]
    split
    · rename_i hprefix
      obtain hnone | hdirectory := FileTree.canMkdirs_iff.mp hcan q hprefix
      · simp [hnone]
      · simp [hdirectory]
    · exact Iff.rfl
  | write p text' =>
    obtain ⟨_, hnode⟩ := FileTree.write_eq_some h
    have hne : q ≠ p := by
      rintro rfl
      exact hq q List.mem_cons_self List.prefix_rfl
    rw [hnode, FileTree.writeNode, if_neg hne]
  | move src dst =>
    have hsrc : ¬src <+: q := hq src List.mem_cons_self
    have hdst : ¬dst <+: q := hq dst (List.mem_cons_of_mem _ List.mem_cons_self)
    obtain ⟨_, rfl⟩ | ⟨_, _, _, hrename⟩ | ⟨_, _, hrename⟩ := shutilMove_eq_some h
    · exact Iff.rfl
    · rw [hmoved hsrc (fun hprefix => hdst ((List.prefix_append _ _).trans hprefix)) hrename]
    · rw [hmoved hsrc hdst hrename]
  | remove p =>
    rw [Call.perform] at h
    split at h
    · cases h
      exact Iff.rfl
    · obtain ⟨_, hnode⟩ := FileTree.remove_eq_some h
      rw [hnode, FileTree.removeNode, if_neg (hq p List.mem_cons_self)]

theorem runCalls_file {cs : List Call} {fault : Option Nat} {t : Disk} {q : Path} {text : Str}
    (hq : ∀ c ∈ cs, ∀ p ∈ c.targets, ¬p <+: q) :
    (runCalls t cs fault).2.node q = some (.file text) ↔ t.node q = some (.file text) := by
  induction cs generalizing t fault with
  | nil => exact Iff.rfl
  | cons c cs ih =>
    rw [runCalls]
    split
    · exact Iff.rfl
    · split
      · exact Iff.rfl
      · rename_i hperform
        exact (ih fun c' hc' => hq c' (List.mem_cons_of_mem _ hc')).trans
          (perform_file hperform (hq _ List.mem_cons_self))

/-- The calls of a change are for the places of its names. -/
theorem targets_below {change : Change} {cs : List Call} (hcs : change.calls m = some cs)
    (h : ∀ spot ∈ change.spots, (mirrorAbsPath m spot.1 spot.2).isSome → Stays m spot.1 spot.2) :
    ∀ c ∈ cs, ∀ p ∈ c.targets, m.Below p := by
  have hbelow : ∀ {parentPath name target},
      ((mirrorAbsPath m parentPath name).isSome → Stays m parentPath name) →
        mirrorAbsPath m parentPath name = some target → m.Below (m.resolve target) := by
    intro parentPath name target hstays htarget
    rw [resolve_mirrorAbsPath htarget]
    rw [htarget] at hstays
    exact below_mirrorPath.mpr (hstays rfl)
  cases change with
  | stay f =>
    cases hcs
    exact nofun
  | broken => cases hcs
  | put f =>
    obtain ⟨target, htarget, rfl⟩ := Option.map_eq_some_iff.mp hcs
    have hplace := hbelow (h _ List.mem_cons_self) htarget
    split
    · simp [Call.targets]
    · simpa [Call.targets] using hplace
  | drop f =>
    obtain ⟨target, htarget, rfl⟩ := Option.map_eq_some_iff.mp hcs
    simpa [Call.targets] using hbelow (h _ List.mem_cons_self) htarget
  | move f f' =>
    obtain ⟨src, hsrc, hcs⟩ := Option.bind_eq_some_iff.mp hcs
    obtain ⟨dst, hdst, rfl⟩ := Option.map_eq_some_iff.mp hcs
    simpa [Call.targets] using And.intro (hbelow (h _ List.mem_cons_self) hsrc)
      (hbelow (h _ (List.mem_cons_of_mem _ List.mem_cons_self)) hdst)

/-- The mirror after a request is the mirror that some of its calls have left. -/
theorem serve_disk (m : Mount) (s : State) (r : Request) (d : Draw) (fault : Fault) :
    (serve m s r d fault).2.disk = s.disk ∨ ∃ plan cs, r.plan m s.hub d = .ok plan ∧
      plan.change.calls m = some cs ∧
        (serve m s r d fault).2.disk = (runCalls s.disk cs fault.call?).2 := by
  unfold serve
  split
  · exact .inl rfl
  · rename_i plan hplan
    split
    · exact .inl rfl
    · split
      · exact .inl rfl
      · rename_i cs hcs
        refine .inr ⟨plan, cs, hplan, hcs, ?_⟩
        split
        · rename_i hrun
          rw [hrun]
        · rename_i hrun
          rw [hrun]
          split <;> rfl

/-- The names that are not refused for a `..` stay in the mirror. -/
def Tame (m : Mount) (h : Hub) (d : Draw) (a : Access) : Prop :=
  ∀ spot ∈ a.spots m h d, (mirrorAbsPath m spot.1 spot.2).isSome → Stays m spot.1 spot.2

/-- The paths of a request are strictly inside the mirror exactly if its names stay there; and then
it leaves all files outside alone, wherever it fails. -/
theorem confined_iff (m : Mount) (s : State) (d : Draw) (a : Access) :
    (Confined m s.hub d a ↔ Tame m s.hub d a) ∧
      (Tame m s.hub d a → ∀ r, a = .write r → ∀ fault q text, ¬m.Below q →
        ((serve m s r d fault).2.disk.node q = some (.file text) ↔
          s.disk.node q = some (.file text))) := by
  constructor
  · apply forall₂_congr
    intro spot _
    rw [Option.isSome_iff_exists, forall_exists_index]
    apply forall₂_congr
    intro target htarget
    rw [resolve_mirrorAbsPath htarget, below_mirrorPath]
  · rintro hstays r rfl fault q text hq
    obtain hsame | ⟨plan, cs, hplan, hcs, hdisk⟩ := serve_disk m s r d fault
    · rw [hsame]
    · have hspots : ∀ spot ∈ plan.change.spots,
          (mirrorAbsPath m spot.1 spot.2).isSome → Stays m spot.1 spot.2 := by
        simpa only [Tame, Access.spots, hplan] using hstays
      rw [hdisk]
      apply runCalls_file
      intro c hc p hp hprefix
      exact hq ((targets_below hcs hspots c hc p hp).extend hprefix)

def defaultMount : Mount := ⟨[], "/var/eyot/workspaces".toList, "w".toList⟩

theorem passwd_nameMaxLength : "/etc/passwd".toList.length ≤ 255 := by decide

def passwd : FornixFileCreate where
  name := "/etc/passwd".toList
  parentPath := none
  storageKey := []
  contentType := none
  fileSize := none
  isDirectory := false
  content := some []
  nameMaxLength := passwd_nameMaxLength

/-- A name that starts with a slash is a path of its own. -/
theorem not_confined_passwd : ¬∀ m h d a, Confined m h d a := by
  intro h
  have hbelow := h defaultMount ⟨.empty, .empty⟩ ⟨"f", "v", ['k'], 0⟩ (.write (.createFile passwd))
    (none, "/etc/passwd".toList) (by decide) "/etc/passwd".toList (by decide)
  obtain ⟨q, _, heq⟩ := hbelow
  exact absurd (congrArg (List.take 4) heq) (by
    rw [List.take_append_of_le_length (by decide)]
    decide)

end Eyot.Fornix
