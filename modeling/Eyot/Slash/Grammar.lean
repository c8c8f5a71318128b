import Eyot.Slash.Backend

/-! The documented grammar of a command line, and how far `parse_directive` keeps to it. -/

namespace Eyot.Slash

open Scan

variable {α : Type} (A : Alphabet α)

/-- `"@" <entity-name>` and the white space behind it. -/
structure IsTarget (at_ : α) (slug gap : List α) : Prop where
  at_is : A.is '@' at_ = true
  slug_ne : slug ≠ []
  slug_all : ∀ c ∈ slug, isSlug A c = true
  gap_all : ∀ c ∈ gap, A.isSpace c = true

/-- A tail a token before it ends at. -/
def Delimited (tail : List α) : Prop := ∀ c, tail.head? = some c → A.isSpace c = true

/-- `"/" <name>`, delimited by what follows it. -/
structure IsCommand (slash : α) (name tail : List α) : Prop where
  slash_is : A.is '/' slash = true
  name_lower : ∃ c cs, name = c :: cs ∧ A.isLower c = true ∧ ∀ d ∈ cs, isCmdTail A d = true
  delimited : Delimited A tail

/-- `[<target>] <cmd> ..`. -/
inductive CommandLine : List α → Prop
  | bare (slash : α) (name tail : List α) (hcmd : IsCommand A slash name tail) :
      CommandLine (slash :: (name ++ tail))
  | targeted (at_ : α) (slug gap : List α) (slash : α) (name tail : List α)
      (htarget : IsTarget A at_ slug gap) (hgap : gap ≠ []) (hcmd : IsCommand A slash name tail) :
      CommandLine (at_ :: (slug ++ (gap ++ slash :: (name ++ tail))))

/-- What is left of a line behind its target, if it has one. -/
def afterTarget (line : List α) : List α :=
  match matchTarget A line with
  | some (_, rest) => rest
  | none => line

/-- A text begins with a command that white space or the end of the text delimits. -/
def beginsWithCommand (l : List α) : Bool :=
  match (cmdPattern A).atHead l with
  | some (_, n) => (l.drop n).head?.all A.isSpace
  | none => false

variable {A}

theorem is_iff {c : Char} {a : α} : A.is c a = true ↔ A.code a = c.toNat := by
  simp [Alphabet.is]

theorem not_isSlug_of_isSpace {a : α} (h : A.isSpace a = true) : isSlug A a = false := by
  cases hslug : isSlug A a with
  | false => rfl
  | true =>
    have hcode : 33 ≤ A.code a ∧ A.code a ≤ 126 := by
      simp only [isSlug, Alphabet.isLower, Alphabet.isUpper, Alphabet.isDigit, Alphabet.is,
        Bool.or_eq_true, Bool.and_eq_true, decide_eq_true_eq] at hslug
      have hunder : '_'.toNat = 95 := rfl
      have hdash : '-'.toNat = 45 := rfl
      omega
    rw [A.isSpace_visible hcode.1 hcode.2] at h
    cases h

theorem not_isCmdTail_of_isSpace {a : α} (h : A.isSpace a = true) : isCmdTail A a = false := by
  have hslug := not_isSlug_of_isSpace h
  simp only [isSlug, Bool.or_eq_false_iff] at hslug
  simp [isCmdTail, hslug]

theorem not_is_of_isSpace {a : α} (h : A.isSpace a = true) {c : Char} (hlo : 33 ≤ c.toNat)
    (hhi : c.toNat ≤ 126) : A.is c a = false := by
  cases hc : A.is c a with
  | false => rfl
  | true =>
    rw [is_iff] at hc
    rw [A.isSpace_visible (by omega) (by omega)] at h
    cases h

theorem takeWhile_append_of_stop {p : α → Bool} {l r : List α} (hl : ∀ c ∈ l, p c = true)
    (hr : ∀ c, r.head? = some c → p c = false) : (l ++ r).takeWhile p = l := by
  rw [List.takeWhile_append_of_pos hl]
  cases r with
  | nil => simp
  | cons c r => simp [hr c rfl]

theorem dropWhile_append_of_stop {p : α → Bool} {l r : List α} (hl : ∀ c ∈ l, p c = true)
    (hr : ∀ c, r.head? = some c → p c = false) : (l ++ r).dropWhile p = r := by
  rw [List.dropWhile_append_of_pos hl]
  cases r with
  | nil => simp
  | cons c r => simp [hr c rfl]

/-- The target of a line, its slug as long as it can be. -/
theorem matchTarget_eq_some {line slug rest : List α} :
    matchTarget A line = some (slug, rest) ↔
      ∃ at_ gap, line = at_ :: (slug ++ (gap ++ rest)) ∧ IsTarget A at_ slug gap ∧
        (gap = [] → rest = []) ∧ ∀ c, rest.head? = some c → A.isSpace c = false := by
  constructor
  · intro h
    cases line with
    | nil => cases h
    | cons c cs =>
      rw [matchTarget] at h
      split at h
      · rename_i hat
        simp only [Bool.and_eq_true, Bool.not_eq_true', List.isEmpty_eq_false_iff] at hat
        have hcs := List.takeWhile_append_dropWhile (p := isSlug A) (l := cs)
        have hslug : ∀ d ∈ cs.takeWhile (isSlug A), isSlug A d = true :=
          fun d hd => List.mem_takeWhile_imp hd
        split at h
        · rename_i hdrop
          obtain ⟨rfl, rfl⟩ := Prod.mk.inj (Option.some.inj h)
          refine ⟨c, [], ?_, ⟨hat.1, hat.2, hslug, by simp⟩, fun _ => rfl, by simp⟩
          rw [hdrop] at hcs
          rw [List.nil_append, hcs]
        · rename_i s r hdrop
          split at h
          · rename_i hs
            obtain ⟨rfl, rfl⟩ := Prod.mk.inj (Option.some.inj h)
            refine ⟨c, s :: r.takeWhile A.isSpace, ?_, ⟨hat.1, hat.2, hslug, ?_⟩, by simp, ?_⟩
            · rw [List.cons_append, List.takeWhile_append_dropWhile, ← hdrop, hcs]
            · intro d hd
              rcases List.mem_cons.mp hd with rfl | hd
              · exact hs
              · exact List.mem_takeWhile_imp hd
            · intro d hd
              have := List.head?_dropWhile_not A.isSpace r
              rw [hd] at this
              simpa using this
          · cases h
      · cases h
  · rintro ⟨at_, gap, rfl, ⟨hat, hne, hslug, hgap⟩, hend, hrest⟩
    have hstop : ∀ c, (gap ++ rest).head? = some c → isSlug A c = false := by
      intro c hc
      cases gap with
      | nil => simp [hend rfl] at hc
      | cons s gap =>
        obtain rfl : s = c := by simpa using hc
        exact not_isSlug_of_isSpace (hgap s List.mem_cons_self)
    rw [matchTarget, takeWhile_append_of_stop hslug hstop, dropWhile_append_of_stop hslug hstop]
    have hcond : (A.is '@' at_ && !slug.isEmpty) = true := by simp [hat, hne]
    rw [if_pos hcond]
    cases gap with
    | nil => simp [hend rfl]
    | cons s gap =>
      have hs := hgap s List.mem_cons_self
      have hgap' : ∀ c ∈ gap, A.isSpace c = true := fun c hc => hgap c (List.mem_cons_of_mem s hc)
      simp only [List.cons_append, hs, if_true]
      rw [dropWhile_append_of_stop hgap' hrest]

theorem cmdPattern_atHead {slash : α} {name tail : List α} (h : IsCommand A slash name tail) :
    (cmdPattern A).atHead (slash :: (name ++ tail)) = some (name, 1 + name.length) := by
  obtain ⟨hslash, ⟨c, cs, rfl, hlower, hcs⟩, hdelim⟩ := h
  have hstop : ∀ d, tail.head? = some d → isCmdTail A d = false :=
    fun d hd => not_isCmdTail_of_isSpace (hdelim d hd)
  simp only [cmdPattern, List.cons_append, hslash, hlower, Bool.and_self, if_true,
    takeWhile_append_of_stop hcs hstop, List.length_cons, Option.some.injEq, Prod.mk.injEq, true_and]
  omega

theorem of_cmdPattern_atHead {l name : List α} {n : Nat}
    (h : (cmdPattern A).atHead l = some (name, n)) :
    ∃ slash tail, l = slash :: (name ++ tail) ∧ A.is '/' slash = true ∧ n = 1 + name.length ∧
      ∃ c cs, name = c :: cs ∧ A.isLower c = true ∧ ∀ d ∈ cs, isCmdTail A d = true := by
  simp only [cmdPattern] at h
  split at h
  · rename_i slash c cs
    split at h
    · rename_i hc
      obtain ⟨rfl, rfl⟩ := Prod.mk.inj (Option.some.inj h)
      rw [Bool.and_eq_true] at hc
      refine ⟨slash, cs.dropWhile (isCmdTail A), ?_, hc.1, ?_, c, _, rfl, hc.2, ?_⟩
      · rw [List.cons_append, List.takeWhile_append_dropWhile]
      · rw [List.length_cons]
        omega
      · exact fun d hd => List.mem_takeWhile_imp hd
    · cases h
  · cases h

theorem beginsWithCommand_iff {l : List α} :
    beginsWithCommand A l = true ↔
      ∃ slash name tail, l = slash :: (name ++ tail) ∧ IsCommand A slash name tail := by
  constructor
  · intro h
    rw [beginsWithCommand] at h
    split at h
    · rename_i name n hat
      obtain ⟨slash, tail, rfl, hslash, rfl, hname⟩ := of_cmdPattern_atHead hat
      refine ⟨slash, name, tail, rfl, hslash, hname, fun c hc => ?_⟩
      have hdrop : (slash :: (name ++ tail)).drop (1 + name.length) = tail := by
        rw [Nat.add_comm, List.drop_succ_cons, List.drop_left]
      rw [hdrop, hc] at h
      simpa using h
    · cases h
  · rintro ⟨slash, name, tail, rfl, hcmd⟩
    rw [beginsWithCommand, cmdPattern_atHead hcmd]
    have hdrop : (slash :: (name ++ tail)).drop (1 + name.length) = tail := by
      rw [Nat.add_comm, List.drop_succ_cons, List.drop_left]
    simp only [hdrop]
    cases tail with
    | nil => rfl
    | cons s tail =>
      rw [List.head?_cons, Option.all_some]
      exact hcmd.delimited s rfl

theorem matchTarget_of_slash {slash : α} (h : A.is '/' slash = true) (l : List α) :
    matchTarget A (slash :: l) = none := by
  have hat : A.is '@' slash = false := by
    rw [is_iff] at h
    simp [Alphabet.is, h]
  simp [matchTarget, hat]

theorem matchTarget_of_target {at_ : α} {slug gap : List α} (htarget : IsTarget A at_ slug gap)
    (hgap : gap ≠ []) {slash : α} (hslash : A.is '/' slash = true) (l : List α) :
    matchTarget A (at_ :: (slug ++ (gap ++ slash :: l))) = some (slug, slash :: l) := by
  refine matchTarget_eq_some.mpr ⟨at_, gap, rfl, htarget, fun h => absurd h hgap, fun c hc => ?_⟩
  obtain rfl : slash = c := by simpa using hc
  rw [is_iff] at hslash
  exact A.isSpace_visible (by rw [hslash]; decide) (by rw [hslash]; decide)

theorem commandLine_iff {line : List α} :
    CommandLine A line ↔ beginsWithCommand A (afterTarget A line) = true := by
  rw [beginsWithCommand_iff]
  constructor
  · intro h
    cases h with
    | bare slash name tail hcmd =>
      exact ⟨slash, name, tail, by rw [afterTarget, matchTarget_of_slash hcmd.slash_is], hcmd⟩
    | targeted at_ slug gap slash name tail htarget hgap hcmd =>
      exact ⟨slash, name, tail,
        by rw [afterTarget, matchTarget_of_target htarget hgap hcmd.slash_is], hcmd⟩
  · rintro ⟨slash, name, tail, hrest, hcmd⟩
    rw [afterTarget] at hrest
    cases hm : matchTarget A line with
    | none =>
      rw [hm] at hrest
      subst hrest
      exact .bare slash name tail hcmd
    | some r =>
      obtain ⟨slug, rest⟩ := r
      rw [hm] at hrest
      subst hrest
      obtain ⟨at_, gap, rfl, htarget, hend, -⟩ := matchTarget_eq_some.mp hm
      exact .targeted at_ slug gap slash name tail htarget (fun h => by simpa using hend h) hcmd

/-- A line is read as a command exactly when a command can be found anywhere behind its target. -/
theorem parseDirective_cmd_iff {line : List α} :
    (∃ d, parseDirective A line = .inl d ∧ d.cmd ≠ []) ↔
      (cmdPattern A).search (afterTarget A line) ≠ none := by
  unfold parseDirective afterTarget
  rcases matchTarget A line with _ | ⟨slug, rest⟩
  · cases hs : (cmdPattern A).search line with
    | none => simp [hs]
    | some m => simp [hs, Alphabet.text]
  · cases hs : (cmdPattern A).search rest with
    | none => simp [hs]
    | some m => simp [hs, Alphabet.text]

theorem search_of_beginsWithCommand {l : List α} (h : beginsWithCommand A l = true) :
    (cmdPattern A).search l ≠ none := by
  rw [beginsWithCommand] at h
  split at h
  · rename_i name n hat
    rw [Pattern.search_of_atHead hat]
    simp
  · cases h

/-- The grammar decides what is a command exactly where the text behind the target holds no
slash that a lowercase letter follows, or begins with a delimited command. -/
theorem command_iff_commandLine_iff (line : Str) :
    ((∃ d, parseDirective pythonText line = .inl d ∧ d.cmd ≠ []) ↔ CommandLine pythonText line) ↔
      (cmdPattern pythonText).search (afterTarget pythonText line) = none ∨
        beginsWithCommand pythonText (afterTarget pythonText line) = true := by
  rw [parseDirective_cmd_iff, commandLine_iff]
  constructor
  · intro h
    by_cases hs : (cmdPattern pythonText).search (afterTarget pythonText line) = none
    · exact .inl hs
    · exact .inr (h.mp hs)
  · rintro (hs | hb)
    · refine ⟨fun h => absurd hs h, fun hb => absurd hs (search_of_beginsWithCommand hb)⟩
    · exact ⟨fun _ => hb, search_of_beginsWithCommand⟩

/-- A slash inside a word. -/
theorem alternative_is_command :
    ¬((∃ d, parseDirective pythonText "and/or".toList = .inl d ∧ d.cmd ≠ []) ↔
      CommandLine pythonText "and/or".toList) := by
  rw [parseDirective_cmd_iff, commandLine_iff]
  decide

end Eyot.Slash
