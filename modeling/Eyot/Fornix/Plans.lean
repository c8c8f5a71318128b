import Eyot.Fornix.Files
import Eyot.Library.FailingFold
import Eyot.Library.Keeps

/-! What the requests of the hub do to its active rows. -/

namespace Eyot.Fornix

open FailingFold (bind_eq_ok map_eq_ok)
open Routing (scalarOneOrNone scalarOneOrNone_eq_ok)

variable {m : Mount} {h h' : Hub} {f g : FornixFile} {d : Draw} {plan : Plan}

theorem mem_active : g ∈ h.active ↔ g ∈ h.files.rows ∧ g.isActive = true := List.mem_filter

theorem find?_eq_some {fileId : Id} : h.find? fileId = some f ↔ f ∈ h.active ∧ f.id = fileId := by
  rw [Hub.find?, Option.filter_eq_some_iff, Table.find?_eq_some, mem_active, and_right_comm]

/-- The row at the end of a change, if the request leaves one. -/
def Change.row : Change → Option FornixFile
  | .stay f | .put f | .move _ f => some f
  | .drop _ | .broken => none

theorem check_eq_ok (hcheck : h.check f = .ok ()) : f.fits = true ∧ h.isUnique f = true := by
  unfold Hub.check at hcheck
  split at hcheck
  · cases hcheck
  · rename_i hfits
    split at hcheck
    · cases hcheck
    · rename_i hunique
      simp only [Bool.not_eq_true', Bool.not_eq_false] at hfits hunique
      exact ⟨hfits, hunique⟩

theorem insert_active (hinsert : h.insert f = .ok h') (hf : f.isActive = true) :
    (∀ g, g ∈ h'.active ↔ g ∈ h.active ∧ g.id ≠ f.id ∨ g = f) ∧ h.find? f.id = none := by
  rw [Hub.insert, bind_eq_ok] at hinsert
  obtain ⟨_, _, hinsert⟩ := hinsert
  split at hinsert
  · cases hinsert
  · rename_i files hfiles
    cases hinsert
    have hfresh : ∀ g ∈ h.files.rows, g.id ≠ f.id := by
      intro g hg hid
      exact Table.key_not_mem_of_insert? hfiles (List.mem_map.mpr ⟨g, hg, hid⟩)
    constructor
    · intro g
      rw [mem_active, mem_active, Table.mem_insert? hfiles]
      constructor
      · rintro ⟨hg | rfl, hactive⟩
        · exact .inl ⟨⟨hg, hactive⟩, hfresh g hg⟩
        · exact .inr rfl
      · rintro (⟨⟨hg, hactive⟩, _⟩ | rfl)
        · exact ⟨.inl hg, hactive⟩
        · exact ⟨.inr rfl, hf⟩
    · rw [Option.eq_none_iff_forall_not_mem]
      intro g hg
      obtain ⟨hactive, hid⟩ := find?_eq_some.mp hg
      exact hfresh g (mem_active.mp hactive).1 hid

theorem update_active (hupdate : h.update f = .ok h') (hf : ∃ r ∈ h.files.rows, r.id = f.id)
    (g : FornixFile) :
    g ∈ h'.active ↔ g ∈ h.active ∧ g.id ≠ f.id ∨ g ∈ some f ∧ f.isActive = true := by
  rw [Hub.update, bind_eq_ok] at hupdate
  obtain ⟨_, _, hupdate⟩ := hupdate
  cases hupdate
  rw [mem_active, mem_active, Option.mem_some_iff]
  constructor
  · rintro ⟨hg, hactive⟩
    obtain ⟨hg, hid⟩ | ⟨r, _, hid, rfl⟩ := Table.mem_update_cases f.overwrite_id hg
    · exact .inl ⟨⟨hg, hactive⟩, hid⟩
    · have heq : f.overwrite r = f := by rw [FornixFile.overwrite, hid]
      rw [heq] at hactive ⊢
      exact .inr ⟨rfl, hactive⟩
  · rintro (⟨⟨hg, hactive⟩, hid⟩ | ⟨rfl, hactive⟩)
    · exact ⟨Table.mem_updateWhere_of_not f.overwrite_id hg (by simpa using hid), hactive⟩
    · obtain ⟨r, hr, hid⟩ := hf
      have heq : f.overwrite r = f := by rw [FornixFile.overwrite, hid]
      have hmem := Table.mem_update_self f.overwrite f.overwrite_id hr hid
      rw [heq] at hmem
      exact ⟨hmem, hactive⟩

/-- What a request is about, once it goes ahead. -/
inductive Outcome (m : Mount) (h : Hub) (d : Draw) : Request → Plan → Prop
  | made {r : Request} {f : FornixFile} {h' : Hub}
      (hr : (∃ body, r = .createFile body) ∨ ∃ path content, r = .hubWriteShared path content)
      (hactive : f.isActive = true) (hparent : validateParentDirectory m h f.parentPath = .ok ())
      (hinsert : h.insert f = .ok h') : Outcome m h d r ⟨f.id, .put f, .ok h'⟩
  | broken {fileId : Id} {body : FornixFileUpdate} {f : FornixFile} :
      Outcome m h d (.updateFile fileId body) ⟨f.id, .broken, .ok h⟩
  | stayed {fileId : Id} {body : FornixFileUpdate} {f : FornixFile} (hf : f ∈ h.active) :
      Outcome m h d (.updateFile fileId body) ⟨f.id, .stay f, h.update f⟩
  | moved {fileId : Id} {body : FornixFileUpdate} {f f' : FornixFile} (hf : f ∈ h.active)
      (hid : f'.id = f.id) (hactive : f'.isActive = true) (hkind : f'.isDirectory = f.isDirectory)
      (hcontent : f'.content = f.content) :
      Outcome m h d (.updateFile fileId body) ⟨f.id, .move f f', h.update f'⟩
  | deleted {fileId : Id} {f f' : FornixFile} (hf : f ∈ h.active) (hid : f'.id = f.id)
      (hgone : f'.isActive = false) :
      Outcome m h d (.deleteFile fileId) ⟨f.id, .drop f, h.update f'⟩
  | archived {fileId : Id} {f f' : FornixFile} {entry : VaultEntry} (hf : f ∈ h.active)
      (hid : f'.id = f.id) (hgone : f'.isActive = false) (hkind : f.isDirectory = false) :
      Outcome m h d (.archiveFileToVault fileId)
        ⟨f.id, .drop f, h.update f' >>= fun hub => hub.enter entry⟩
  | restored {entryId : Id} {source f : FornixFile} (hsource : source ∈ h.files.rows)
      (hid : f.id = source.id) (hactive : f.isActive = true) (hname : f.name = source.name)
      (hparent : f.parentPath = source.parentPath) (hkind : f.isDirectory = source.isDirectory) :
      Outcome m h d (.restoreVaultEntry entryId)
        ⟨source.id, .put f, (h.update f).map (·.retire d entryId)⟩
  | remade {entryId : Id} {f : FornixFile} {h' : Hub} (hactive : f.isActive = true)
      (hinsert : h.insert f = .ok h') :
      Outcome m h d (.restoreVaultEntry entryId) ⟨f.id, .put f, .ok (h'.retire d entryId)⟩

theorem outcome_createFile {body : FornixFileCreate} (hplan : createFile m h d body = .ok plan) :
    Outcome m h d (.createFile body) plan := by
  rw [createFile, bind_eq_ok] at hplan
  obtain ⟨_, hparent, hplan⟩ := hplan
  split at hplan
  · cases hplan
  · rw [bind_eq_ok] at hplan
    obtain ⟨_, _, hplan⟩ := hplan
    rw [bind_eq_ok] at hplan
    obtain ⟨h', hinsert, hplan⟩ := hplan
    cases hplan
    exact .made (.inl ⟨body, rfl⟩) rfl hparent hinsert

theorem outcome_hubWriteShared {path content : Str}
    (hplan : hubWriteShared m h d path content = .ok plan) :
    Outcome m h d (.hubWriteShared path content) plan := by
  unfold hubWriteShared at hplan
  split at hplan
  · cases hplan
  · split at hplan
    · cases hplan
    · rw [bind_eq_ok] at hplan
      obtain ⟨_, hparent, hplan⟩ := hplan
      rw [bind_eq_ok] at hplan
      obtain ⟨_, _, hplan⟩ := hplan
      rw [bind_eq_ok] at hplan
      obtain ⟨h', hinsert, hplan⟩ := hplan
      cases hplan
      exact .made (.inr ⟨path, content, rfl⟩) rfl hparent hinsert

theorem outcome_updateFile {fileId : Id} {body : FornixFileUpdate}
    (hplan : updateFile m h fileId body = .ok plan) :
    Outcome m h d (.updateFile fileId body) plan := by
  unfold updateFile at hplan
  split at hplan
  · cases hplan
  · rename_i file hfile
    obtain ⟨hactive, _⟩ := find?_eq_some.mp hfile
    rw [bind_eq_ok] at hplan
    obtain ⟨_, _, hplan⟩ := hplan
    split at hplan
    · cases hplan
      exact .broken
    · cases hplan
      split
      · exact .moved hactive rfl (mem_active.mp hactive).2 rfl rfl
      · rename_i hsame
        rw [not_or, not_not, not_not] at hsame
        obtain ⟨hparent, hname⟩ := hsame
        dsimp only at hparent hname
        rw [hparent, hname]
        exact .stayed hactive

theorem outcome_deleteFile {fileId : Id} (hplan : deleteFile h d fileId = .ok plan) :
    Outcome m h d (.deleteFile fileId) plan := by
  unfold deleteFile at hplan
  split at hplan
  · cases hplan
  · rename_i file hfile
    dsimp only at hplan
    split at hplan
    · cases hplan
    · cases hplan
      exact .deleted (find?_eq_some.mp hfile).1 rfl rfl

theorem outcome_archiveFileToVault {fileId : Id}
    (hplan : archiveFileToVault h d fileId = .ok plan) :
    Outcome m h d (.archiveFileToVault fileId) plan := by
  unfold archiveFileToVault at hplan
  split at hplan
  · cases hplan
  · rename_i file hfile
    split at hplan
    · cases hplan
    · rename_i hkind
      cases hplan
      exact .archived (find?_eq_some.mp hfile).1 rfl rfl (Bool.not_eq_true _ ▸ hkind)

theorem outcome_restoreVaultEntry {entryId : Id}
    (hplan : restoreVaultEntry h d entryId = .ok plan) :
    Outcome m h d (.restoreVaultEntry entryId) plan := by
  unfold restoreVaultEntry at hplan
  split at hplan
  · cases hplan
  · split at hplan
    · rename_i source hsource
      obtain ⟨_, _, hsource⟩ := Option.bind_eq_some_iff.mp hsource
      rw [bind_eq_ok] at hplan
      obtain ⟨_, _, hplan⟩ := hplan
      cases hplan
      exact .restored (Table.find?_mem hsource) rfl rfl rfl rfl rfl
    · rw [bind_eq_ok] at hplan
      obtain ⟨_, _, hplan⟩ := hplan
      rw [bind_eq_ok] at hplan
      obtain ⟨h', hinsert, hplan⟩ := hplan
      cases hplan
      exact .remade rfl hinsert

theorem outcome (r : Request) (hplan : r.plan m h d = .ok plan) : Outcome m h d r plan := by
  cases r with
  | createFile body => exact outcome_createFile hplan
  | updateFile fileId body => exact outcome_updateFile hplan
  | deleteFile fileId => exact outcome_deleteFile hplan
  | archiveFileToVault fileId => exact outcome_archiveFileToVault hplan
  | restoreVaultEntry entryId => exact outcome_restoreVaultEntry hplan
  | hubWriteShared path content => exact outcome_hubWriteShared hplan

end Eyot.Fornix
