import Eyot.Data.Text
import Eyot.Library.Pattern

/-! The slash protocol: what a line is parsed into, and the parts of the parser that the
backend and the portal write alike.  Both are these definitions, read in their own alphabet. -/

namespace Eyot.Slash

open Scan

structure ContentRef (α : Type) where
  scope : String
  path : Option (List α)
  deriving DecidableEq

structure Directive (α : Type) where
  targetEntity : Option (List α)
  cmd : List α
  args : List (List α)
  contentRef : Option (ContentRef α)
  rawText : List α
  deriving DecidableEq

structure Turn (α : Type) where
  directives : List (Directive α)
  generalText : Option (List α)
  deriving DecidableEq

def normalizeScope (scope : String) : String :=
  if scope ∈ ["workspace", "fornix", "vault", "blackboard"] then "hub"
  else if scope = "memory" then "instance"
  else scope

def contentRefScopes : List String := ["hub", "instance", "workspace", "fornix", "vault", "memory"]

variable {α : Type} (A : Alphabet α)

def isSlug (a : α) : Bool :=
  A.isLower a || A.isUpper a || A.isDigit a || A.is '_' a || A.is '-' a

def isCmdTail (a : α) : Bool := A.isLower a || A.isDigit a || A.is '-' a

def isContentRefScope (slug : List α) : Bool := contentRefScopes.any fun s => A.reads s slug

/-- `^@([a-zA-Z0-9_-]+)(?:\s+|$)`: the slug, and what follows the match. -/
def matchTarget : List α → Option (List α × List α)
  | [] => none
  | c :: cs =>
    if A.is '@' c && !(cs.takeWhile (isSlug A)).isEmpty then
      match cs.dropWhile (isSlug A) with
      | [] => some (cs.takeWhile (isSlug A), [])
      | s :: rest =>
        if A.isSpace s then some (cs.takeWhile (isSlug A), rest.dropWhile A.isSpace) else none
    else none

/-- `/([a-z][a-z0-9-]*)`, capturing the name. -/
def cmdPattern : Pattern α (List α) where
  atHead
    | c :: d :: cs =>
      if A.is '/' c && A.isLower d then
        some (d :: cs.takeWhile (isCmdTail A), 2 + (cs.takeWhile (isCmdTail A)).length)
      else none
    | _ => none
  takes := by
    intro l g n h
    split at h
    · rename_i c d cs
      split at h
      · have hlen := (List.takeWhile_prefix (isCmdTail A) (l := cs)).length_le
        simp only [Option.some.injEq, Prod.mk.injEq] at h
        simp only [List.length_cons]
        omega
      · cases h
    · cases h

/-- `@([a-zA-Z0-9_-]+)`, capturing the slug. -/
def atTokenPattern : Pattern α (List α) where
  atHead
    | [] => none
    | c :: cs =>
      if A.is '@' c && !(cs.takeWhile (isSlug A)).isEmpty then
        some (cs.takeWhile (isSlug A), 1 + (cs.takeWhile (isSlug A)).length)
      else none
  takes := by
    intro l g n h
    split at h
    · cases h
    · rename_i c cs
      split at h
      · have hlen := (List.takeWhile_prefix (isSlug A) (l := cs)).length_le
        simp only [Option.some.injEq, Prod.mk.injEq] at h
        simp only [List.length_cons]
        omega
      · cases h

/-- `(?::(\S+))?`. -/
def matchPath : List α → Option (List α)
  | [] => none
  | c :: cs =>
    if A.is ':' c && !(cs.takeWhile fun a => !A.isSpace a).isEmpty then
      some (cs.takeWhile fun a => !A.isSpace a)
    else none

variable {A} in
theorem matchPath_length {l path : List α} (h : matchPath A l = some path) :
    1 + path.length ≤ l.length := by
  cases l with
  | nil => cases h
  | cons c cs =>
    rw [matchPath] at h
    split at h
    · have hlen := (List.takeWhile_prefix (fun a => !A.isSpace a) (l := cs)).length_le
      obtain rfl := Option.some.inj h
      simp only [List.length_cons]
      omega
    · cases h

def pathLength : Option (List α) → Nat
  | none => 0
  | some path => 1 + path.length

/-- `@(hub|instance|workspace|fornix|vault|memory)(?::(\S+))?`, capturing scope and path. -/
def contentRefPattern : Pattern α (String × Option (List α)) where
  atHead
    | [] => none
    | c :: cs =>
      if A.is '@' c then
        (contentRefScopes.find? fun s => A.startsWith s cs).map fun s =>
          ((s, matchPath A (cs.drop s.length)),
            1 + s.length + pathLength (matchPath A (cs.drop s.length)))
      else none
  takes := by
    intro l g n h
    split at h
    · cases h
    · rename_i c cs
      split at h
      · obtain ⟨s, hs, heq⟩ := Option.map_eq_some_iff.mp h
        obtain ⟨-, rfl⟩ := Prod.mk.inj heq
        have hstart := List.find?_some (p := fun s => A.startsWith s cs) hs
        have hlen := Alphabet.startsWith_length hstart
        rw [List.length_cons]
        cases hp : matchPath A (cs.drop s.length) with
        | none =>
          simp only [pathLength]
          omega
        | some path =>
          have := matchPath_length hp
          rw [List.length_drop] at this
          simp only [pathLength]
          omega
      · cases h

/-- A line without target and command is handed back as it is. -/
def parseDirective (line : List α) : Directive α ⊕ List α :=
  let (target, remaining) :=
    match matchTarget A line with
    | some (slug, rest) => (some slug, rest)
    | none => (none, line)
  match (cmdPattern A).search remaining with
  | none =>
    match target with
    | some slug => .inl ⟨some slug, [], A.words remaining, none, line⟩
    | none => .inr line
  | some m =>
    let remaining := m.before ++ m.after
    let contentRef := ((contentRefPattern A).captures remaining).getLast?.map
      fun (scope, path) => ⟨normalizeScope scope, path⟩
    let remaining :=
      if contentRef.isSome then A.strip ((contentRefPattern A).sub remaining) else remaining
    .inl ⟨target, A.text "/" ++ m.groups, A.words remaining, contentRef, line⟩

variable {A} in
/-- A line becomes a directive that holds all of it, or is handed back. -/
theorem parseDirective_cases (line : List α) :
    (∃ d, parseDirective A line = .inl d ∧ d.rawText = line ∧ ∃ l, d.args = A.words l) ∨
      parseDirective A line = .inr line := by
  unfold parseDirective
  cases matchTarget A line with
  | none =>
    dsimp only
    cases (cmdPattern A).search line with
    | none => exact .inr rfl
    | some m => exact .inl ⟨_, rfl, rfl, _, rfl⟩
  | some r =>
    dsimp only
    cases (cmdPattern A).search r.2 with
    | none => exact .inl ⟨_, rfl, rfl, _, rfl⟩
    | some m => exact .inl ⟨_, rfl, rfl, _, rfl⟩

/-- The chat directive of the mention `m`, whose text goes on up to `stop`. -/
def mentionDirective (raw : List α) (m : Match α (List α)) (stop : Nat) : Directive α where
  targetEntity := some m.groups
  cmd := []
  args := A.words (A.strip (slice raw m.stop stop))
  contentRef := none
  rawText := A.strip (slice raw m.start stop)

def mentionDirectives (raw : List α) : List (Match α (List α)) → List (Directive α)
  | [] => []
  | [m] => [mentionDirective A raw m raw.length]
  | m :: next :: rest =>
    mentionDirective A raw m next.start :: mentionDirectives raw (next :: rest)

/-- Where the parser has got to: directives and lines of general text, in order. -/
structure Parts (α : Type) where
  directives : List (Directive α)
  generalParts : List (List α)
  deriving DecidableEq

/-- One stripped line that is not empty, with what its inline mentions were expanded to. -/
def addLine (expanded : Option (List (Directive α))) (stripped : List α) (parts : Parts α) :
    Parts α :=
  match expanded with
  | some ds => { parts with directives := parts.directives ++ ds }
  | none =>
    match parseDirective A stripped with
    | .inl d => { parts with directives := parts.directives ++ [d] }
    | .inr g => { parts with generalParts := parts.generalParts ++ [g] }

def Parts.turn (parts : Parts α) : Turn α where
  directives := parts.directives
  generalText := if parts.generalParts.isEmpty then none else some (A.join "\n" parts.generalParts)

end Eyot.Slash
