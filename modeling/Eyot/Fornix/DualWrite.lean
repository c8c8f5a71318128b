import Eyot.Fornix.Confinement
import Eyot.Fornix.TreeLaws

/-! Whether the rows of a hub and its mirror go together, wherever a request is hit. -/

namespace Eyot.Fornix

open PosixPath

variable {m : Mount} {h h' : Hub} {t t' : Disk} {f f' g : FornixFile} {p q : Path} {k : Nat}

/-- What the mirror has for a row. -/
def FornixFile.node (f : FornixFile) : Node Str :=
  if f.isDirectory then .directory else .file (f.content.getD [])

/-- Every active row is in the mirror as it is in the table, and nothing else is. -/
structure Agree (m : Mount) (s : State) : Prop where
  rows : ∀ f ∈ s.hub.active, m.Below (f.path m) ∧ s.disk.node (f.path m) = some f.node
  nodes : ∀ p, m.Below p → s.disk.node p ≠ none → ∃ f ∈ s.hub.active, f.path m = p

/-- How many calls go through. -/
def performed (t : Disk) : List Call → Option Nat → Nat
  | [], _ => 0
  | c :: cs, fault =>
    if fault = some 0 then 0
    else
      match c.perform t with
      | none => 0
      | some t' => performed t' cs (fault.map (· - 1)) + 1

/-- Below the root, all directories down to `d` are there. -/
def Mount.Dirs (m : Mount) (t : Disk) (d : Path) : Prop :=
  ∀ q, m.Below q → q <+: d → t.node q = some .directory

/-- The directory that is made for a file. -/
def FornixFile.dir (m : Mount) (f : FornixFile) : Path :=
  match mirrorAbsPath m f.parentPath f.name with
  | none => []
  | some target => m.resolve (dirnameOrDot target)

/-- The first `k` calls of a change find nothing to do: the directories are there, and so is the
text, and a move has the same place at both ends. -/
def Change.Idle (m : Mount) (t : Disk) : Change → Nat → Prop
  | _, 0 => True
  | .put f, k + 1 =>
    if f.isDirectory then m.Dirs t (f.path m)
    else m.Dirs t (f.dir m) ∧
      match k with
      | 0 => True
      | 1 => m.Below (f.path m) → t.node (f.path m) = some (.file [])
      | _ + 2 => m.Below (f.path m) → t.node (f.path m) = some f.node
  | .drop _, _ + 1 => False
  | .move f f', k + 1 =>
    match k with
    | 0 => True
    | 1 => m.Dirs t (f'.dir m)
    | _ + 2 => f.path m = f'.path m
  | .stay _, _ + 1 | .broken, _ + 1 => True

/-- What the mirror and the other rows must be like for a change to leave them as one: a new place
is below the root in directories that are there, and nothing else goes with an old one. -/
def Change.Settles (m : Mount) (h : Hub) (t : Disk) : Change → Prop
  | .stay _ | .broken => True
  | .put f =>
    m.Below (f.path m) ∧ m.Dirs t (f.path m).dropLast ∧
      ∀ g, h.Others f.id g → g.path m = f.path m → g.node = f.node
  | .drop f => ∀ g, h.Others f.id g → ¬f.path m <+: g.path m
  | .move f f' =>
    f.path m = f'.path m ∨
      m.Below (f'.path m) ∧ f'.dir m ≠ f'.path m ∧ t.node (f'.path m) ≠ some .directory ∧
        m.Dirs t (f'.path m).dropLast ∧
          ∀ g, h.Others f.id g → ¬f.path m <+: g.path m ∧ (g.path m = f'.path m → g.node = f.node)

/-- A request goes all the way to its commit. -/
def Commits (t : Disk) (plan : Plan) (cs : List Call) (fault : Fault) : Prop :=
  performed t cs fault.call? = cs.length ∧ fault ≠ .after ∧ ∃ hub, plan.hub = .ok hub

/-- A request that is committed settles, and one that fails at a call of the mirror or after has
found nothing to do there. -/
def Guarded (m : Mount) (s : State) (r : Request) (d : Draw) (fault : Fault) : Prop :=
  ∀ plan, r.plan m s.hub d = .ok plan → fault ≠ .before →
    ∀ cs, plan.change.calls m = some cs →
      (Commits s.disk plan cs fault → plan.change.Settles m s.hub s.disk) ∧
        (¬Commits s.disk plan cs fault →
          plan.change.Idle m s.disk (performed s.disk cs fault.call?))

end Eyot.Fornix
