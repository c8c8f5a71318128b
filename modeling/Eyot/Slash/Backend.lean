import Eyot.Slash.Directive

/-! The slash parser of the backend. -/

namespace Eyot.Slash.Backend

open Scan

variable {α : Type} (A : Alphabet α)

/-- The `@slug` tokens that count: no content reference, and not in the middle of a word. -/
def mentions (raw : List α) : List (Match α (List α)) :=
  ((atTokenPattern A).finditer raw).filter fun m =>
    !isContentRefScope A m.groups && m.before.getLast?.all A.isSpace

def expandInlineChatMentions (raw : List α) : Option (List (Directive α)) :=
  if ((cmdPattern A).search raw).isSome then none
  else if (mentions A raw).length ≤ 1 then none
  else some (mentionDirectives A raw (mentions A raw))

def parseLines : Parts α → List (List α) → Parts α
  | parts, [] => parts
  | parts, line :: rest =>
    let stripped := A.strip line
    if stripped.isEmpty then parseLines parts rest
    else parseLines (addLine A (expandInlineChatMentions A stripped) stripped parts) rest

def parseTurn (rawText : List α) : Turn α :=
  (parseLines A ⟨[], []⟩ (A.lines (A.strip rawText))).turn A

end Eyot.Slash.Backend

/-! What holds of every turn the parser of the backend accepts. -/

namespace Eyot.Slash

open Scan

variable {α : Type} (A : Alphabet α)

structure Parts.WellFormed (parts : Parts α) : Prop where
  args : ∀ d ∈ parts.directives, ∀ a ∈ d.args, Trimmed A.isSpace a
  generalParts : ∀ g ∈ parts.generalParts, Trimmed A.isSpace g

structure Turn.WellFormed (turn : Turn α) : Prop where
  args : ∀ d ∈ turn.directives, ∀ a ∈ d.args, Trimmed A.isSpace a
  generalText : ∀ g, turn.generalText = some g → Trimmed A.isSpace g

variable {A}

theorem mentionDirectives_args {raw : List α} {ms : List (Match α (List α))} {d : Directive α}
    (h : d ∈ mentionDirectives A raw ms) : ∃ l, d.args = A.words l := by
  induction ms with
  | nil => cases h
  | cons m ms ih =>
    cases ms with
    | nil =>
      obtain rfl := List.mem_singleton.mp h
      exact ⟨_, rfl⟩
    | cons next rest =>
      rcases List.mem_cons.mp h with rfl | h
      · exact ⟨_, rfl⟩
      · exact ih h

theorem Parts.WellFormed.addLine {parts : Parts α} (h : parts.WellFormed A) {line : List α}
    (hline : Trimmed A.isSpace line) :
    (Slash.addLine A (Backend.expandInlineChatMentions A line) line parts).WellFormed A := by
  have hwords : ∀ d : Directive α, (∃ l, d.args = A.words l) →
      ∀ a ∈ d.args, Trimmed A.isSpace a := by
    rintro d ⟨l, hl⟩ a ha
    rw [hl] at ha
    exact trimmed_of_mem_words ha
  unfold Slash.addLine
  cases hexp : Backend.expandInlineChatMentions A line with
  | some ds =>
    refine ⟨fun d hd => ?_, h.generalParts⟩
    rcases List.mem_append.mp hd with hd | hd
    · exact h.args d hd
    · unfold Backend.expandInlineChatMentions at hexp
      split at hexp
      · cases hexp
      · split at hexp
        · cases hexp
        · obtain rfl := Option.some.inj hexp
          exact hwords d (mentionDirectives_args hd)
  | none =>
    rcases parseDirective_cases (A := A) line with ⟨d, hparse, -, hargs⟩ | hparse
    · rw [hparse]
      refine ⟨fun d' hd => ?_, h.generalParts⟩
      rcases List.mem_append.mp hd with hd | hd
      · exact h.args d' hd
      · obtain rfl := List.mem_singleton.mp hd
        exact hwords d' hargs
    · rw [hparse]
      refine ⟨h.args, fun g hg => ?_⟩
      rcases List.mem_append.mp hg with hg | hg
      · exact h.generalParts g hg
      · obtain rfl := List.mem_singleton.mp hg
        exact hline

theorem Parts.WellFormed.parseLines {parts : Parts α} (h : parts.WellFormed A)
    (ls : List (List α)) : (Backend.parseLines A parts ls).WellFormed A := by
  induction ls generalizing parts with
  | nil => exact h
  | cons line ls ih =>
    rw [Backend.parseLines]
    cases hempty : (A.strip line).isEmpty with
    | true => exact ih h
    | false =>
      have hne : A.strip line ≠ [] := by
        intro heq
        rw [heq] at hempty
        cases hempty
      exact ih (h.addLine (trimmed_strip hne))

theorem Parts.WellFormed.turn {parts : Parts α} (h : parts.WellFormed A) :
    (parts.turn A).WellFormed A := by
  refine ⟨h.args, fun g hg => ?_⟩
  unfold Parts.turn at hg
  dsimp only at hg
  split at hg
  · cases hg
  · rename_i hne
    obtain rfl := Option.some.inj hg
    exact trimmed_intercalate _ (by simpa using hne) h.generalParts

theorem parseTurn_wellFormed (rawText : List α) : (Backend.parseTurn A rawText).WellFormed A :=
  Parts.WellFormed.turn (Parts.WellFormed.parseLines ⟨by simp, by simp⟩ _)

end Eyot.Slash
