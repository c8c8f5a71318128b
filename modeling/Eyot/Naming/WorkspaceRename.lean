import Eyot.Data.Errors
import Eyot.Library.FailingFold
import Eyot.Library.Table
import Eyot.Market.AssetRequests
import Eyot.Routing.Effects

/-! The slug of a workspace is unique in its namespace. -/

namespace Eyot.Naming

open FailingFold (bind_eq_ok)
open Market (matchesSlugPattern)
open Routing (scalarOneOrNone)

/-- Letters, digits, and hyphens between segments: the pattern, without the line break that it lets
through at the end. -/
def isKebab (value : Str) : Bool := matchesSlugPattern value && decide (value.getLast? ≠ some '\n')

/-- A row that the query finds is in the way. -/
def requireNone {α : Type} (rows : List α) (taken : EyotError) : Except Failure Unit := do
  if (← scalarOneOrNone rows).isSome then throw (.eyot taken)

theorem requireNone_eq_ok {α : Type} {rows : List α} {taken : EyotError} :
    requireNone rows taken = .ok () ↔ rows = [] := by
  rcases rows with _ | ⟨r, _ | ⟨r', rows⟩⟩
  · exact iff_of_true rfl rfl
  · exact iff_of_false nofun nofun
  · exact iff_of_false nofun nofun

/-- What a `VARCHAR(255)` takes. -/
def fits (value : Str) : Bool := decide (value.length ≤ 255) && !value.contains '\x00'

structure Workspace where
  id : Id
  namespaceId : Id
  name : Str
  slug : Str
  deletedAt : Option Time
deriving DecidableEq

def Workspace.isActive (w : Workspace) : Bool := w.deletedAt.isNone

def Workspace.place (w : Workspace) : Id × Str := (w.namespaceId, w.slug)

/-- With `uq_workspaces_namespace_slug`. -/
structure Workspaces where
  table : Table Workspace.id
  uniqueSlug : UniqueOn Workspace.isActive Workspace.place table.rows

/-- A field that is not sent is `none`; either may be sent as null. -/
structure WorkspaceUpdate where
  name : Option (Option Str)
  slug : Option (Option Str)

inductive Denial where
  | invalidSlug
  | failure (f : Failure)
  | notNull
  | dataError
  | uniqueSlug

namespace Workspaces

variable (s : Workspaces)

def active? (id : Id) : Option Workspace := (s.table.find? id).filter Workspace.isActive

/-- The active workspaces with that slug, of whatever namespace. -/
def holders (id : Id) (slug : Option Str) : List Workspace :=
  s.table.rows.filter fun r => decide (some r.slug = slug) && r.isActive && decide (r.id ≠ id)

def requireFreeSlug (w : Workspace) (slug : Option Str) : Except Denial Unit :=
  if slug = some w.slug then .ok ()
  else (requireNone (s.holders w.id slug)
    (ConflictError "workspace.slug_taken" "errors.workspace.slug_taken"
      s!"Workspace slug '{String.ofList (slug.getD [])}' is already taken")).mapError .failure

def put (w : Workspace) (name slug : Str) : Table Workspace.id :=
  s.table.update w.id (fun r => { r with name := name, slug := slug }) fun _ => rfl

/-- The columns are not null, take what is new in them, and the index is kept. -/
def commit (w : Workspace) (name slug : Option Str) : Except Denial Workspaces :=
  match name, slug with
  | some name, some slug =>
    if (name = w.name ∨ fits name = true) ∧ (slug = w.slug ∨ fits slug = true) then
      if h : UniqueOn Workspace.isActive Workspace.place (s.put w name slug).rows then
        .ok ⟨s.put w name slug, h⟩
      else .error .uniqueSlug
    else .error .dataError
  | _, _ => .error .notNull

def updateWorkspace (id : Id) (body : WorkspaceUpdate) : Except Denial Workspaces :=
  if body.slug.all fun slug => slug.all matchesSlugPattern then
    match s.active? id with
    | none => .error (.failure (.eyot (NotFoundError "workspace.not_found"
        "errors.workspace.not_found" s!"Workspace '{id}' not found")))
    | some w => do
      body.slug.elim (.ok ()) (s.requireFreeSlug w)
      s.commit w (body.name.getD (some w.name)) (body.slug.getD (some w.slug))
  else .error .invalidSlug

end Workspaces

section

variable (s : Workspaces) (w : Workspace)

/-- No other active workspace of the namespace has the slug. -/
def Free (slug : Str) : Prop :=
  ∀ r ∈ s.table.rows, r.isActive = true → r.namespaceId = w.namespaceId → r.slug = slug →
    r.id = w.id

/-- None has it in any namespace. -/
def FreeEverywhere (slug : Str) : Prop :=
  ∀ r ∈ s.table.rows, r.isActive = true → r.slug = slug → r.id = w.id

/-- The name that comes along, if one does, can be stored. -/
def NameFits (body : WorkspaceUpdate) : Prop :=
  ∀ name, body.name = some name → ∃ text, name = some text ∧ (text = w.name ∨ fits text = true)

/-- What the code makes of a slug that passes the pattern. -/
def Passes (body : WorkspaceUpdate) (slug : Str) : Prop :=
  NameFits w body ∧ (slug = w.slug ∨ fits slug = true ∧ FreeEverywhere s w slug)

/-- The slug is accepted if and only if it is well formed and free, and the index is never what
refuses it. -/
def Exact (body : WorkspaceUpdate) (slug : Str) : Prop :=
  ((∃ s' w', s.updateWorkspace w.id body = .ok s' ∧ s'.active? w.id = some w' ∧ w'.slug = slug) ↔
    isKebab slug = true ∧ Free s w slug) ∧
  s.updateWorkspace w.id body ≠ .error .uniqueSlug

end

theorem matches_of_isKebab {value : Str} (h : isKebab value = true) :
    matchesSlugPattern value = true :=
  (Bool.and_eq_true_iff.mp h).1

namespace Workspaces

variable {s s' : Workspaces} {w : Workspace} {body : WorkspaceUpdate} {name slug : Str}

theorem active?_eq_some {id : Id} :
    s.active? id = some w ↔ s.table.find? id = some w ∧ w.isActive = true :=
  Option.filter_eq_some_iff

theorem holders_eq_nil : s.holders w.id (some slug) = [] ↔ FreeEverywhere s w slug := by
  simp only [holders, FreeEverywhere, List.filter_eq_nil_iff, Bool.and_eq_true, decide_eq_true_eq,
    Option.some.injEq, not_and, Decidable.not_not]
  exact ⟨fun h r hr hactive hslug => h r hr ⟨hslug, hactive⟩,
    fun h r hr hmatch => h r hr hmatch.2 hmatch.1⟩

theorem requireFreeSlug_eq_ok :
    s.requireFreeSlug w (some slug) = .ok () ↔ slug = w.slug ∨ FreeEverywhere s w slug := by
  by_cases hsame : slug = w.slug
  · simp [requireFreeSlug, hsame]
  · rw [requireFreeSlug, if_neg (fun h => hsame (Option.some.inj h)), or_iff_right hsame,
      mapError_eq_ok, requireNone_eq_ok, holders_eq_nil]

/-- Its own slug the workspace may keep; any other that none has anywhere is free in its
namespace. -/
theorem uniqueOn_put (hw : s.active? w.id = some w) (h : slug = w.slug ∨ FreeEverywhere s w slug) :
    UniqueOn Workspace.isActive Workspace.place (s.put w name slug).rows := by
  obtain ⟨hfind, hactive⟩ := active?_eq_some.mp hw
  have hself : ∀ r ∈ s.table.rows, r.id = w.id → r = w := fun r hr hid =>
    s.table.eq_of_key_eq hr (Table.find?_mem hfind) hid
  have hother : ∀ r ∈ s.table.rows, r.isActive = true → r.id ≠ w.id →
      (w.namespaceId, slug) = r.place → w.place = r.place := by
    intro r hr hr' hid hplace
    obtain rfl | hfree := h
    · exact hplace
    · exact absurd (hfree r hr hr' (congrArg Prod.snd hplace).symm) hid
  refine s.uniqueSlug.map ?_ ?_
  · intro r _ hr
    split at hr <;> exact hr
  · intro r hr r' hr' hp hp' heq
    by_cases hid : r.id = w.id <;> by_cases hid' : r'.id = w.id
    · rw [hself r hr hid, hself r' hr' hid']
    · simp only [hid', decide_true, decide_false, if_true, if_false, Bool.false_eq_true,
        hself r hr hid] at hp' heq
      rw [hself r hr hid]
      exact hother r' hr' hp' hid' heq
    · simp only [hid, decide_true, decide_false, if_true, if_false, Bool.false_eq_true,
        hself r' hr' hid'] at hp heq
      rw [hself r' hr' hid']
      exact (hother r hr hp hid heq.symm).symm
    · simpa [hid, hid'] using heq

theorem nameFits_iff :
    NameFits w body ↔
      ∃ text, body.name.getD (some w.name) = some text ∧ (text = w.name ∨ fits text = true) := by
  cases hname : body.name with
  | none => simp [NameFits, hname]
  | some name => simp [NameFits, hname]

theorem put_active? (hw : s.active? w.id = some w) :
    ((s.put w name slug).find? w.id).filter Workspace.isActive =
      some { w with name := name, slug := slug } := by
  obtain ⟨hfind, hactive⟩ := active?_eq_some.mp hw
  have hput : (s.put w name slug).find? w.id = some { w with name := name, slug := slug } := by
    rw [put, Table.update, Table.find?_updateWhere, hfind]
    simp
  rw [hput]
  exact Option.filter_eq_some_iff.mpr ⟨rfl, hactive⟩

/-- What can be stored is stored, unless another workspace is in the way. -/
theorem commit_eq_ok (hw : s.active? w.id = some w) (h : slug = w.slug ∨ FreeEverywhere s w slug)
    {name : Option Str} :
    (∃ s' w', s.commit w name (some slug) = .ok s' ∧ s'.active? w.id = some w' ∧ w'.slug = slug) ↔
      (∃ text, name = some text ∧ (text = w.name ∨ fits text = true)) ∧
        (slug = w.slug ∨ fits slug = true) := by
  cases name with
  | none => simp [commit]
  | some text =>
    rw [commit, dif_pos (uniqueOn_put hw h)]
    by_cases hfits : (text = w.name ∨ fits text = true) ∧ (slug = w.slug ∨ fits slug = true)
    · rw [if_pos hfits]
      refine iff_of_true ⟨_, _, rfl, put_active? hw, rfl⟩ ⟨⟨text, rfl, hfits.1⟩, hfits.2⟩
    · rw [if_neg hfits]
      refine iff_of_false (by rintro ⟨_, _, ⟨⟩, _⟩) ?_
      rintro ⟨⟨_, ⟨⟩, hname⟩, hslug⟩
      exact hfits ⟨hname, hslug⟩

theorem commit_ne_uniqueSlug (hw : s.active? w.id = some w)
    (h : slug = w.slug ∨ FreeEverywhere s w slug) {name : Option Str} :
    s.commit w name (some slug) ≠ .error .uniqueSlug := by
  cases name with
  | none => simp [commit]
  | some text =>
    rw [commit, dif_pos (uniqueOn_put hw h)]
    split <;> simp

theorem requireFreeSlug_ne_uniqueSlug {slug : Option Str} :
    s.requireFreeSlug w slug ≠ .error .uniqueSlug := by
  rw [requireFreeSlug]
  split
  · simp
  · generalize requireNone (s.holders w.id slug) _ = x
    cases x with
    | error e => exact fun h => by cases h
    | ok a => exact fun h => by cases h

theorem updateWorkspace_eq (hw : s.active? w.id = some w) (hslug : body.slug = some (some slug)) :
    s.updateWorkspace w.id body =
      if matchesSlugPattern slug = true then do
        s.requireFreeSlug w (some slug)
        s.commit w (body.name.getD (some w.name)) (some slug)
      else .error .invalidSlug := by
  simp only [updateWorkspace, hw, hslug, Option.all_some, Option.elim_some, Option.getD_some]

theorem updateWorkspace_eq_ok (hw : s.active? w.id = some w)
    (hslug : body.slug = some (some slug)) :
    (∃ s' w', s.updateWorkspace w.id body = .ok s' ∧ s'.active? w.id = some w' ∧
        w'.slug = slug) ↔
      matchesSlugPattern slug = true ∧ Passes s w body slug := by
  rw [updateWorkspace_eq hw hslug]
  by_cases hmatch : matchesSlugPattern slug = true
  · rw [if_pos hmatch, and_iff_right hmatch, Passes, nameFits_iff]
    by_cases hfree : slug = w.slug ∨ FreeEverywhere s w slug
    · rw [requireFreeSlug_eq_ok.mpr hfree]
      refine (commit_eq_ok hw hfree).trans (and_congr_right fun _ => ?_)
      exact ⟨fun h => h.elim .inl fun hfits => hfree.imp_right fun hfree => ⟨hfits, hfree⟩,
        fun h => h.imp_right And.left⟩
    · refine iff_of_false ?_ fun h => hfree (h.2.imp_right And.right)
      rintro ⟨s', w', hok, _⟩
      obtain ⟨_, hrequire, _⟩ := bind_eq_ok.mp hok
      exact hfree (requireFreeSlug_eq_ok.mp hrequire)
  · rw [if_neg hmatch]
    exact iff_of_false (by rintro ⟨_, _, ⟨⟩, _⟩) fun h => hmatch h.1

/-- The check is stricter than the index. -/
theorem updateWorkspace_ne_uniqueSlug (hw : s.active? w.id = some w)
    (hslug : body.slug = some (some slug)) :
    s.updateWorkspace w.id body ≠ .error .uniqueSlug := by
  rw [updateWorkspace_eq hw hslug]
  split
  · cases hrequire : s.requireFreeSlug w (some slug) with
    | error e =>
      rintro ⟨⟩
      exact requireFreeSlug_ne_uniqueSlug hrequire
    | ok u => exact commit_ne_uniqueSlug hw (requireFreeSlug_eq_ok.mp hrequire)
  · simp

theorem free_of_passes (hw : s.active? w.id = some w) (h : Passes s w body slug) :
    Free s w slug := by
  obtain ⟨hfind, hactive⟩ := active?_eq_some.mp hw
  intro r hr hractive hns hslug
  obtain rfl | ⟨-, hfree⟩ := h.2
  · exact congrArg Workspace.id (s.uniqueSlug.eq hr (Table.find?_mem hfind) hractive hactive
      (Prod.ext hns hslug))
  · exact hfree r hr hractive hslug

end Workspaces

open Workspaces

section

variable {s : Workspaces} {w : Workspace} {body : WorkspaceUpdate} {slug : Str}

theorem exact_iff (hw : s.active? w.id = some w) (hslug : body.slug = some (some slug)) :
    Exact s w body slug ↔
      (isKebab slug = true → Free s w slug → Passes s w body slug) ∧
      (isKebab slug = false → matchesSlugPattern slug = true → ¬ Passes s w body slug) := by
  rw [Exact, updateWorkspace_eq_ok hw hslug,
    and_iff_left (updateWorkspace_ne_uniqueSlug hw hslug)]
  constructor
  · intro h
    refine ⟨fun hkebab hfree => (h.mpr ⟨hkebab, hfree⟩).2, fun hkebab hmatch hpasses => ?_⟩
    rw [(h.mp ⟨hmatch, hpasses⟩).1] at hkebab
    cases hkebab
  · rintro ⟨hfree, hkebab⟩
    constructor
    · rintro ⟨hmatch, hpasses⟩
      refine ⟨?_, free_of_passes hw hpasses⟩
      by_contra hnot
      exact hkebab (Bool.not_eq_true _ ▸ hnot) hmatch hpasses
    · rintro ⟨hk, hf⟩
      exact ⟨matches_of_isKebab hk, hfree hk hf⟩

end

namespace TwoNamespaces

def notes : Workspace := ⟨"w1", "n1", "Notes".toList, "notes".toList, none⟩

def guides : Workspace := ⟨"w2", "n2", "Guides".toList, "guides".toList, none⟩

def workspaces : Workspaces := ⟨⟨[notes, guides], by decide⟩, by decide⟩

def rename (slug : String) : WorkspaceUpdate := ⟨none, some (some slug.toList)⟩

theorem renamed_exact : Exact workspaces notes (rename "drafts") "drafts".toList := by
  refine (exact_iff (by decide) rfl).mpr
    ⟨fun _ _ => ⟨nofun, .inr ⟨by decide, ?_⟩⟩, fun h => absurd h (by decide)⟩
  intro r hr _ hslug
  obtain rfl | rfl : r = notes ∨ r = guides := by simpa [workspaces] using hr
  · exact absurd hslug (by decide)
  · exact absurd hslug (by decide)

/-- A slug that is used in another namespace only is refused. -/
theorem not_exact :
    workspaces.active? notes.id = some notes ∧
      ¬ Exact workspaces notes (rename "guides") "guides".toList := by
  refine ⟨by decide, fun hexact => ?_⟩
  have hfree : Free workspaces notes "guides".toList := by
    intro r hr _ hns hslug
    obtain rfl | rfl : r = notes ∨ r = guides := by simpa [workspaces] using hr
    · rfl
    · exact absurd hns (by decide)
  obtain ⟨s', _, hok, -⟩ := hexact.1.mpr ⟨by decide, hfree⟩
  have hrefused : (workspaces.updateWorkspace notes.id (rename "guides")).isOk = false := by
    decide
  rw [hok] at hrefused
  cases hrefused

end TwoNamespaces

end Eyot.Naming
