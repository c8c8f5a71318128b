import Mathlib.Data.List.Induction
import Mathlib.Data.List.Infix

/-! A tree of directories and files, each under the names that lead to it. What an operation asks
for and does not find makes it fail. -/

universe u v

namespace Eyot

inductive Node (β : Type v) where
  | directory
  | file (text : β)
  deriving DecidableEq

/-- What is there is in a directory. -/
structure FileTree (α : Type u) (β : Type v) where
  node : List α → Option (Node β)
  root : node [] = some .directory
  closed : ∀ p x, node (p ++ [x]) ≠ none → node p = some .directory

namespace FileTree

variable {α : Type u} {β : Type v} {t : FileTree α β} {p q : List α}

/-- All that is above what is there are directories. -/
theorem above (t : FileTree α β) {p q : List α} (hq : q ≠ []) (h : t.node (p ++ q) ≠ none) :
    t.node p = some .directory := by
  induction q using List.reverseRecOn with
  | nil => exact absurd rfl hq
  | append_singleton q x ih =>
    rw [← List.append_assoc] at h
    have hdirectory := t.closed (p ++ q) x h
    by_cases hnil : q = []
    · rwa [hnil, List.append_nil] at hdirectory
    · apply ih hnil
      rw [hdirectory]
      exact Option.some_ne_none _

theorem below_file {text : β} (h : t.node p = some (.file text)) (hq : q ≠ []) :
    t.node (p ++ q) = none := by
  by_contra hsome
  have hdirectory := t.above hq hsome
  rw [h] at hdirectory
  cases hdirectory

theorem empty_closed (p : List α) (x : α)
    (h : (if p ++ [x] = [] then some Node.directory else (none : Option (Node β))) ≠ none) :
    (if p = [] then some Node.directory else (none : Option (Node β))) = some .directory := by
  rw [if_neg (List.concat_ne_nil x p)] at h
  exact absurd rfl h

/-- The root alone. -/
def empty : FileTree α β := ⟨fun p => if p = [] then some .directory else none, rfl, empty_closed⟩

def isFile (t : FileTree α β) (p : List α) : Bool :=
  match t.node p with
  | some (.file _) => true
  | _ => false

theorem isFile_eq_false : t.isFile p = false ↔ t.node p = none ∨ t.node p = some .directory := by
  unfold isFile
  split
  · rename_i text h
    simp [h]
  · rename_i h
    refine iff_of_true rfl ?_
    cases hnode : t.node p with
    | none => exact .inl rfl
    | some n =>
      cases n with
      | directory => exact .inr rfl
      | file text => exact absurd hnode (h text)

def isDirectory (t : FileTree α β) (p : List α) : Bool :=
  match t.node p with
  | some .directory => true
  | _ => false

theorem isDirectory_iff : t.isDirectory p = true ↔ t.node p = some .directory := by
  unfold isDirectory
  split
  · rename_i h
    exact iff_of_true rfl h
  · rename_i h
    exact iff_of_false Bool.false_ne_true h

/-- The place is a file's or free, and in a directory. -/
def canWrite (t : FileTree α β) (p : List α) : Bool :=
  p ≠ [] && t.isDirectory p.dropLast && !t.isDirectory p

theorem canWrite_iff :
    t.canWrite p = true ↔ p ≠ [] ∧ t.node p.dropLast = some .directory ∧
      t.node p ≠ some .directory := by
  simp only [canWrite, Bool.and_eq_true, decide_eq_true_eq, Bool.not_eq_true', and_assoc,
    ← isDirectory_iff, ne_eq, Bool.not_eq_true]

/-- No file is in the way. -/
def canMkdirs (t : FileTree α β) (d : List α) : Bool := d.inits.all fun q => !t.isFile q

theorem canMkdirs_iff {d : List α} :
    t.canMkdirs d = true ↔ ∀ q, q <+: d → t.node q = none ∨ t.node q = some .directory := by
  simp only [canMkdirs, List.all_eq_true, List.mem_inits, Bool.not_eq_true', isFile_eq_false]

variable [DecidableEq α]

section Mkdirs

def mkdirsNode (t : FileTree α β) (d : List α) (q : List α) : Option (Node β) :=
  if q <+: d then some .directory else t.node q

theorem mkdirs_root (t : FileTree α β) (d : List α) : t.mkdirsNode d [] = some .directory :=
  if_pos List.nil_prefix

theorem mkdirs_closed (t : FileTree α β) (d p : List α) (x : α)
    (hp : t.mkdirsNode d (p ++ [x]) ≠ none) : t.mkdirsNode d p = some .directory := by
  unfold mkdirsNode at hp ⊢
  split at hp
  · rename_i hunder
    exact if_pos ((List.prefix_append p [x]).trans hunder)
  · split
    · rfl
    · exact t.closed p x hp

/-- `mkdir -p`. -/
def mkdirs (t : FileTree α β) (d : List α) : Option (FileTree α β) :=
  if t.canMkdirs d then
    some ⟨t.mkdirsNode d, t.mkdirs_root d, t.mkdirs_closed d⟩
  else none

theorem mkdirs_eq_some {d : List α} {t' : FileTree α β} (h : t.mkdirs d = some t') :
    t.canMkdirs d = true ∧ ∀ q, t'.node q = t.mkdirsNode d q := by
  unfold mkdirs at h
  split at h
  · rename_i hcan
    cases h
    exact ⟨hcan, fun _ => rfl⟩
  · cases h

theorem mkdirs_isSome {d : List α} : (t.mkdirs d).isSome = t.canMkdirs d := by
  unfold mkdirs
  split
  · rename_i h
    rw [h]
    rfl
  · rename_i h
    rw [Bool.not_eq_true] at h
    rw [h]
    rfl

end Mkdirs

section Write

def writeNode (t : FileTree α β) (p : List α) (text : β) (q : List α) : Option (Node β) :=
  if q = p then some (.file text) else t.node q

theorem write_root (h : t.canWrite p = true) (text : β) :
    t.writeNode p text [] = some .directory := by
  rw [writeNode, if_neg (Ne.symm (canWrite_iff.mp h).1)]
  exact t.root

theorem write_closed (h : t.canWrite p = true) (text : β) (r : List α) (x : α)
    (hr : t.writeNode p text (r ++ [x]) ≠ none) : t.writeNode p text r = some .directory := by
  obtain ⟨_, hparent, hfile⟩ := canWrite_iff.mp h
  have hdirectory : t.node r = some .directory := by
    unfold writeNode at hr
    split at hr
    · rename_i heq
      rw [← heq, List.dropLast_concat] at hparent
      exact hparent
    · exact t.closed r x hr
  rw [writeNode, if_neg]
  · exact hdirectory
  · rintro rfl
    exact hfile hdirectory

def write (t : FileTree α β) (p : List α) (text : β) : Option (FileTree α β) :=
  if h : t.canWrite p = true then
    some ⟨t.writeNode p text, write_root h text, write_closed h text⟩
  else none

theorem write_eq_some {text : β} {t' : FileTree α β} (h : t.write p text = some t') :
    t.canWrite p = true ∧ ∀ q, t'.node q = t.writeNode p text q := by
  unfold write at h
  split at h
  · rename_i hcan
    cases h
    exact ⟨hcan, fun _ => rfl⟩
  · cases h

theorem write_isSome {text : β} : (t.write p text).isSome = t.canWrite p := by
  unfold write
  split
  · rename_i h
    rw [h]
    rfl
  · rename_i h
    rw [Bool.not_eq_true] at h
    rw [h]
    rfl

end Write

section Remove

def removeNode (t : FileTree α β) (p q : List α) : Option (Node β) :=
  if p <+: q then none else t.node q

theorem remove_root (h : p ≠ []) : t.removeNode p [] = some .directory := by
  rw [removeNode, if_neg (fun hunder => h (List.prefix_nil.mp hunder))]
  exact t.root

theorem remove_closed (p r : List α) (x : α) (hr : t.removeNode p (r ++ [x]) ≠ none) :
    t.removeNode p r = some .directory := by
  unfold removeNode at hr ⊢
  split at hr
  · exact absurd rfl hr
  · rename_i hunder
    rw [if_neg fun h => hunder (h.trans (List.prefix_append r [x]))]
    exact t.closed r x hr

/-- What is there, and all below it. -/
def remove (t : FileTree α β) (p : List α) : Option (FileTree α β) :=
  if h : p = [] then none
  else some ⟨t.removeNode p, remove_root h, remove_closed p⟩

theorem remove_eq_some {t' : FileTree α β} (h : t.remove p = some t') :
    p ≠ [] ∧ ∀ q, t'.node q = t.removeNode p q := by
  unfold remove at h
  split at h
  · cases h
  · rename_i hp
    cases h
    exact ⟨hp, fun _ => rfl⟩

end Remove

section Rename

def renameNode (t : FileTree α β) (p p' q : List α) : Option (Node β) :=
  if p' <+: q then t.node (p ++ q.drop p'.length)
  else if p <+: q then none
  else t.node q

/-- The new place is free and in a directory, and not below the old one; or both are files. -/
def canRename (t : FileTree α β) (p p' : List α) : Bool :=
  p' ≠ [] && (t.node p).isSome && t.isDirectory p'.dropLast && !p.isPrefixOf p' &&
    ((t.node p').isNone || t.isFile p && t.isFile p')

theorem canRename_iff {p' : List α} :
    t.canRename p p' = true ↔ p' ≠ [] ∧ t.node p ≠ none ∧ t.node p'.dropLast = some .directory ∧
      ¬p <+: p' ∧ (t.node p' = none ∨ t.isFile p = true ∧ t.isFile p' = true) := by
  simp only [canRename, Bool.and_eq_true, Bool.or_eq_true, decide_eq_true_eq, Bool.not_eq_true',
    isDirectory_iff, and_assoc, Option.isNone_iff_eq_none, Option.isSome_iff_ne_none]
  rw [← Bool.not_eq_true, List.isPrefixOf_iff_prefix]

theorem rename_root {p' : List α} (h : t.canRename p p' = true) :
    t.renameNode p p' [] = some .directory := by
  obtain ⟨hp', _, _, hbelow, _⟩ := canRename_iff.mp h
  rw [renameNode, if_neg fun hunder => hp' (List.prefix_nil.mp hunder), if_neg]
  · exact t.root
  · intro hunder
    rw [List.prefix_nil.mp hunder] at hbelow
    exact hbelow List.nil_prefix

theorem rename_closed {p' : List α} (h : t.canRename p p' = true) (r : List α) (x : α)
    (hr : t.renameNode p p' (r ++ [x]) ≠ none) : t.renameNode p p' r = some .directory := by
  obtain ⟨hp', _, hparent, hbelow, _⟩ := canRename_iff.mp h
  unfold renameNode at hr ⊢
  split at hr
  · rename_i hunder
    obtain hself | hunder := (List.prefix_concat_iff).mp hunder
    · have hnot : ¬p' <+: r := by
        intro hlonger
        have hlength := hlonger.length_le
        rw [hself, List.length_append, List.length_singleton] at hlength
        omega
      have hnotp : ¬p <+: r := fun hp => hbelow (hself ▸ hp.trans (List.prefix_append r [x]))
      rw [hself, List.dropLast_concat] at hparent
      rw [if_neg hnot, if_neg hnotp]
      exact hparent
    · rw [List.drop_append_of_le_length hunder.length_le, ← List.append_assoc] at hr
      rw [if_pos hunder]
      exact t.closed _ x hr
  · rename_i hnot
    split at hr
    · exact absurd rfl hr
    · rename_i hnotp
      have hinit := List.prefix_append r [x]
      rw [if_neg fun hunder => hnot (hunder.trans hinit),
        if_neg fun hunder => hnotp (hunder.trans hinit)]
      exact t.closed r x hr

def rename (t : FileTree α β) (p p' : List α) : Option (FileTree α β) :=
  if h : t.canRename p p' = true then
    some ⟨t.renameNode p p', rename_root h, rename_closed h⟩
  else none

theorem rename_eq_some {p' : List α} {t' : FileTree α β} (h : t.rename p p' = some t') :
    t.canRename p p' = true ∧ ∀ q, t'.node q = t.renameNode p p' q := by
  unfold rename at h
  split at h
  · rename_i hcan
    cases h
    exact ⟨hcan, fun _ => rfl⟩
  · cases h

end Rename

end FileTree

end Eyot
