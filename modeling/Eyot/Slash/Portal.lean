import Eyot.Slash.Directive
import Mathlib.Algebra.Order.BigOperators.Group.List
import Mathlib.Algebra.Order.Group.Nat

/-! The slash parser of the portal.  Its loop over the inline mentions is run for a number of
rounds, since it need not end. -/

namespace Eyot.Slash.Portal

open Scan

variable {α : Type} (A : Alphabet α)

/-- The variables of the loop: the matches kept, and `m` at the head of what `exec` has still
to return. -/
structure Loop (α : Type) where
  matched : List (Match α (List α))
  upcoming : List (Match α (List α))

/-- One round; both `continue`s leave `m` as it is. -/
def Loop.round (loop : Loop α) : Loop α :=
  match loop.upcoming with
  | [] => loop
  | m :: rest =>
    if isContentRefScope A m.groups then loop
    else if !m.before.getLast?.all A.isSpace then loop
    else ⟨loop.matched ++ [m], rest⟩

def Loop.run : Nat → Loop α → Option (List (Match α (List α)))
  | 0, loop => if loop.upcoming.isEmpty then some loop.matched else none
  | rounds + 1, loop =>
    if loop.upcoming.isEmpty then some loop.matched else Loop.run rounds (loop.round A)

def expandInlineChatMentions (rounds : Nat) (raw : List α) : Option (Option (List (Directive α))) :=
  if ((cmdPattern A).search raw).isSome then some none
  else
    (Loop.run A rounds ⟨[], (atTokenPattern A).finditer raw⟩).map fun matched =>
      if matched.length ≤ 1 then none else some (mentionDirectives A raw matched)

def parseLines (rounds : Nat) : Parts α → List (List α) → Option (Parts α)
  | parts, [] => some parts
  | parts, line :: rest =>
    let stripped := A.strip line
    if stripped.isEmpty then parseLines rounds parts rest
    else
      match expandInlineChatMentions A rounds stripped with
      | none => none
      | some expanded => parseLines rounds (addLine A expanded stripped parts) rest

def parseTurn (rounds : Nat) (rawText : List α) : Option (Turn α) :=
  (parseLines A rounds ⟨[], []⟩ (A.lines (A.strip rawText))).map (Parts.turn A)

/-! When the loop ends. -/

/-- A match the loop gets past. -/
def passes (m : Match α (List α)) : Bool :=
  !isContentRefScope A m.groups && m.before.getLast?.all A.isSpace

variable {A}

theorem round_of_passes {m : Match α (List α)} (h : passes A m = true)
    (matched rest : List (Match α (List α))) :
    Loop.round A ⟨matched, m :: rest⟩ = ⟨matched ++ [m], rest⟩ := by
  simp only [passes, Bool.and_eq_true, Bool.not_eq_true'] at h
  simp [Loop.round, h.1, h.2]

theorem round_of_not_passes {m : Match α (List α)} (h : passes A m = false)
    (matched rest : List (Match α (List α))) :
    Loop.round A ⟨matched, m :: rest⟩ = ⟨matched, m :: rest⟩ := by
  simp only [passes, Bool.and_eq_false_iff, Bool.not_eq_false'] at h
  rcases h with h | h <;> simp [Loop.round, h]

theorem run_stuck {m : Match α (List α)} (h : passes A m = false)
    (matched rest : List (Match α (List α))) (rounds : Nat) :
    Loop.run A rounds ⟨matched, m :: rest⟩ = none := by
  induction rounds with
  | zero => rfl
  | succ rounds ih =>
    simp only [Loop.run, List.isEmpty_cons, Bool.false_eq_true, if_false]
    rw [round_of_not_passes h, ih]

/-- Each round but the last keeps the match at hand, as long as the loop gets past it. -/
theorem run_eq_some {rounds : Nat} {matched upcoming ms : List (Match α (List α))} :
    Loop.run A rounds ⟨matched, upcoming⟩ = some ms ↔
      upcoming.length ≤ rounds ∧ (∀ m ∈ upcoming, passes A m = true) ∧ ms = matched ++ upcoming := by
  induction upcoming generalizing rounds matched with
  | nil =>
    have h : some matched = some ms ↔ ms = matched ++ [] := by
      rw [Option.some_inj, List.append_nil, eq_comm]
    cases rounds <;> simpa [Loop.run] using h
  | cons m rest ih =>
    cases h : passes A m with
    | false =>
      rw [run_stuck h]
      simp [h]
    | true =>
      cases rounds with
      | zero => simp [Loop.run]
      | succ rounds =>
        simp only [Loop.run, List.isEmpty_cons, Bool.false_eq_true, if_false]
        rw [round_of_passes h, ih]
        simp [h]

/-- The lines the loop ends on: those with a command, and those all of whose `@slug` tokens
are mentions. -/
def LoopEnds (A : Alphabet α) (stripped : List α) : Prop :=
  ((cmdPattern A).search stripped).isSome ∨
    ∀ m ∈ (atTokenPattern A).finditer stripped, passes A m = true

theorem expand_isSome {rounds : Nat} {stripped : List α} :
    (expandInlineChatMentions A rounds stripped).isSome ↔
      ((cmdPattern A).search stripped).isSome ∨
        ((atTokenPattern A).finditer stripped).length ≤ rounds ∧
          ∀ m ∈ (atTokenPattern A).finditer stripped, passes A m = true := by
  unfold expandInlineChatMentions
  cases hcmd : ((cmdPattern A).search stripped).isSome with
  | true => simp
  | false =>
    simp only [Bool.false_eq_true, if_false, Option.isSome_map, Option.isSome_iff_exists, false_or]
    constructor
    · rintro ⟨ms, h⟩
      exact ⟨(run_eq_some.mp h).1, (run_eq_some.mp h).2.1⟩
    · rintro ⟨hrounds, hall⟩
      exact ⟨_, run_eq_some.mpr ⟨hrounds, hall, rfl⟩⟩

theorem parseLines_isSome {rounds : Nat} (parts : Parts α) {ls : List (List α)} :
    (parseLines A rounds parts ls).isSome ↔
      ∀ line ∈ ls, A.strip line ≠ [] →
        (expandInlineChatMentions A rounds (A.strip line)).isSome := by
  induction ls generalizing parts with
  | nil => simp [parseLines]
  | cons line rest ih =>
    rw [List.forall_mem_cons, parseLines]
    cases hempty : (A.strip line).isEmpty with
    | true =>
      have hnil : A.strip line = [] := List.isEmpty_iff.mp hempty
      rw [if_pos rfl, ih]
      simp [hnil]
    | false =>
      have hne : A.strip line ≠ [] := fun h => by simp [h] at hempty
      rw [if_neg (by simp)]
      cases hexp : expandInlineChatMentions A rounds (A.strip line) with
      | none => simp [hne]
      | some expanded =>
        rw [← ih (addLine A expanded (A.strip line) parts)]
        simp

theorem parseTurn_isSome {rounds : Nat} {rawText : List α} :
    (parseTurn A rounds rawText).isSome ↔
      ∀ line ∈ A.lines (A.strip rawText), A.strip line ≠ [] →
        (expandInlineChatMentions A rounds (A.strip line)).isSome := by
  rw [parseTurn, Option.isSome_map, parseLines_isSome]

theorem exists_rounds_iff {rawText : List α} :
    (∃ rounds, (parseTurn A rounds rawText).isSome) ↔
      ∀ line ∈ A.lines (A.strip rawText), LoopEnds A (A.strip line) := by
  simp only [parseTurn_isSome, expand_isSome]
  constructor
  · rintro ⟨rounds, h⟩ line hline
    by_cases hne : A.strip line = []
    · rw [hne]
      exact .inr fun m hm => by cases hm
    · exact (h line hline hne).imp_right And.right
  · intro h
    refine ⟨((A.lines (A.strip rawText)).map fun line =>
      ((atTokenPattern A).finditer (A.strip line)).length).sum, ?_⟩
    intro line hline _
    exact (h line hline).imp_right fun hall => ⟨List.le_sum_of_mem (List.mem_map_of_mem hline), hall⟩

/-- The portal parses a text in some number of rounds exactly when the loop ends on each of
its lines. -/
theorem parseTurn_returns_iff (rawText : List UInt16) :
    (∃ rounds, (parseTurn portalText rounds rawText).isSome) ↔
      ∀ line ∈ portalText.lines (portalText.strip rawText),
        LoopEnds portalText (portalText.strip line) :=
  exists_rounds_iff

/-- A lone content reference is tried over and over. -/
theorem hub_never_returns :
    ¬∃ rounds, (parseTurn portalText rounds (portalText.text "@hub")).isSome := by
  rintro ⟨rounds, h⟩
  have hline := parseTurn_isSome.mp h (portalText.text "@hub") (by decide) (by decide)
  rcases expand_isSome.mp hline with hcmd | ⟨-, hall⟩
  · exact absurd hcmd (by decide)
  · exact absurd hall (by decide)

end Eyot.Slash.Portal
