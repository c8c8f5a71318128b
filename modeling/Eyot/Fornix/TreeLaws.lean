import Eyot.Fornix.Plans
import Eyot.Library.Seating

/-! Whether the rows of a hub make a tree. -/

namespace Eyot.Fornix

open PosixPath
open FailingFold (bind_eq_ok map_eq_ok)
open Routing (scalarOneOrNone scalarOneOrNone_eq_ok)
open Seating (Sound Sits Fits)

variable {m : Mount} {h h' : Hub} {f g : FornixFile} {d : Draw} {plan : Plan} {r : Request}

/-- The place of a file in the mirror. -/
def FornixFile.path (m : Mount) (f : FornixFile) : Path := mirrorPath m f.parentPath f.name

/-- The place its parent path leads to, where this is not the root. -/
def FornixFile.up (m : Mount) (f : FornixFile) : Option Path :=
  if parts (f.parentPath.getD []) = [] then none
  else some (m.root ++ parts (f.parentPath.getD []))

def FornixFile.Holds (f : FornixFile) : Prop := f.isDirectory = true

/-- Every parent path leads to the root or to an active directory, and on to the root; and no two
active rows have the same place in the mirror. -/
def Consistent (m : Mount) (h : Hub) : Prop :=
  Sound (FornixFile.path m) (FornixFile.up m) FornixFile.Holds (· ∈ h.active)

/-- The other active rows. -/
def Hub.Others (h : Hub) (fileId : Id) (g : FornixFile) : Prop := g ∈ h.active ∧ g.id ≠ fileId

/-- No other active row has the place of the file. -/
def Free (m : Mount) (h : Hub) (f : FornixFile) : Prop :=
  ∀ g, h.Others f.id g → g.path m ≠ f.path m

/-- The parent path leads to the root or to another active directory. -/
def HasParent (m : Mount) (h : Hub) (f : FornixFile) : Prop :=
  Sits (FornixFile.path m) (FornixFile.up m) FornixFile.Holds (h.Others f.id) f

/-- Another active row is in the file. -/
def Hosts (m : Mount) (h : Hub) (f : FornixFile) : Prop :=
  ∃ g, h.Others f.id g ∧ g.up m = some (f.path m)

/-- What the rows must be like before a request that goes through. -/
def Tidy (m : Mount) (h : Hub) (r : Request) (change : Change) : Prop :=
  match r, change with
  | .createFile _, .put f | .hubWriteShared _ _, .put f => Free m h f
  | .restoreVaultEntry _, .put f => Free m h f ∧ HasParent m h f
  | .updateFile _ _, .move f f' =>
    Free m h f' ∧ HasParent m h f' ∧ (Hosts m h f → f'.path m = f.path m)
  | .deleteFile _, .drop f => ¬Hosts m h f
  | _, _ => True

/-! What a request leaves of the active rows. -/

theorem enter_active {entry : VaultEntry} (henter : h.enter entry = .ok h') :
    h'.active = h.active := by
  unfold Hub.enter at henter
  split at henter
  · cases henter
  · cases henter
    rfl

theorem retire_active (h : Hub) (d : Draw) (entryId : Id) :
    (h.retire d entryId).active = h.active := rfl

/-- All other rows stay, and the one the request is about becomes the one of its change. -/
theorem Outcome.active (ho : Outcome m h d r plan) (hhub : plan.hub = .ok h')
    (hbroken : plan.change ≠ .broken) (g : FornixFile) :
    g ∈ h'.active ↔ h.Others plan.fileId g ∨ g ∈ plan.change.row := by
  have hkept : ∀ {f f' : FornixFile} {hub : Hub}, f ∈ h.active → f'.id = f.id → f'.isActive = true →
      h.update f' = .ok hub → (g ∈ hub.active ↔ h.Others f.id g ∨ g ∈ some f') := by
    intro f f' hub hf hid hactive hupdate
    rw [update_active hupdate ⟨f, (mem_active.mp hf).1, hid.symm⟩, hactive, hid, and_iff_left rfl]
    rfl
  have hdropped : ∀ {f f' : FornixFile} {hub : Hub}, f ∈ h.active → f'.id = f.id →
      f'.isActive = false → h.update f' = .ok hub →
        (g ∈ hub.active ↔ h.Others f.id g ∨ g ∈ (none : Option FornixFile)) := by
    intro f f' hub hf hid hgone hupdate
    rw [update_active hupdate ⟨f, (mem_active.mp hf).1, hid.symm⟩, hgone, hid]
    simp [Hub.Others]
  cases ho with
  | made hr hactive hparent hinsert =>
    cases hhub
    rw [(insert_active hinsert hactive).1, Change.row, Option.mem_some_iff, eq_comm (a := g)]
    rfl
  | broken => exact absurd rfl hbroken
  | stayed hf => exact hkept hf rfl (mem_active.mp hf).2 hhub
  | moved hf hid hactive hkind hcontent => exact hkept hf hid hactive hhub
  | deleted hf hid hgone => exact hdropped hf hid hgone hhub
  | archived hf hid hgone hkind =>
    obtain ⟨hub, hupdate, henter⟩ := bind_eq_ok.mp hhub
    rw [enter_active henter]
    exact hdropped hf hid hgone hupdate
  | restored hsource hid hactive hname hparent hkind =>
    obtain ⟨hub, hupdate, rfl⟩ := map_eq_ok.mp hhub
    rw [retire_active, update_active hupdate ⟨_, hsource, hid.symm⟩, hactive, hid,
      and_iff_left rfl]
    rfl
  | remade hactive hinsert =>
    cases hhub
    rw [retire_active, (insert_active hinsert hactive).1, Change.row, Option.mem_some_iff,
      eq_comm (a := g)]
    rfl

/-- What is not a directory hosts nothing. -/
theorem Consistent.holds (hs : Consistent m h) (hf : f ∈ h.active) (hhosts : Hosts m h f) :
    f.isDirectory = true := by
  obtain ⟨g, hg, hup⟩ := hhosts
  exact hs.holds_of_up hg.1 hf hup

/-- A request, what is drawn for it, and where it is hit. -/
structure Input where
  request : Request
  draw : Draw
  fault : Fault

def step (m : Mount) (s : State) (i : Input) : State := (serve m s i.request i.draw i.fault).2

/-- Should the request go through, the rows are as it needs them. -/
def Careful (m : Mount) (s : State) (i : Input) : Prop :=
  (serve m s i.request i.draw i.fault).1 = .ok () →
    ∀ plan, i.request.plan m s.hub i.draw = .ok plan → Tidy m s.hub i.request plan.change

def State.empty : State := ⟨⟨.empty, .empty⟩, .empty⟩

def mount : Mount := ⟨[], [], ['w']⟩

end Eyot.Fornix
