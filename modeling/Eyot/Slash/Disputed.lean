import Eyot.Data.Utf16
import Eyot.Slash.ContentRefs
import Eyot.Slash.Conservation
import Eyot.Slash.Lines
import Eyot.Slash.Recode

/-! A line in two readings, with the white space of Python and with that of ECMAScript: when
both come to the same. -/

namespace Eyot.Slash

open Scan

variable {α : Type} (A : Alphabet α)

/-- The `@slug` a line begins with, and the text behind it, where white space or the end of
the line delimits it. -/
def targetToken (line : List α) : Option (List α × List α) :=
  ((atTokenPattern A).atHead line).bind fun r =>
    if (line.drop r.2).head?.all A.isSpace then some (r.1, line.drop r.2) else none

/-- A line without its target. -/
def behindTarget (line : List α) : List α := (targetToken A line).elim line Prod.snd

/-- A line without its target and its command. -/
def besidesCommand (line : List α) : List α :=
  ((cmdPattern A).search (behindTarget A line)).elim (behindTarget A line) fun m =>
    m.before ++ m.after

/-- The content reference that counts, the last. -/
def lastContentRef (l : List α) : Option (ContentRef α) :=
  ((contentRefPattern A).captures l).getLast?.map fun r => ⟨normalizeScope r.1, r.2⟩

variable {A}

theorem matchTarget_eq (line : List α) :
    matchTarget A line =
      (targetToken A line).map fun r => (r.1, r.2.dropWhile A.isSpace) := by
  cases line with
  | nil => rfl
  | cons c cs =>
    rw [targetToken, matchTarget]
    simp only [atTokenPattern]
    split
    · have hdrop : (c :: cs).drop (1 + (cs.takeWhile (isSlug A)).length) = cs.dropWhile (isSlug A) := by
        rw [Nat.add_comm, List.drop_succ_cons]
        exact drop_length_takeWhile _ _
      simp only [Option.bind_some, hdrop]
      cases cs.dropWhile (isSlug A) with
      | nil => rfl
      | cons s rest =>
        cases hs : A.isSpace s with
        | true => simp [hs]
        | false => simp [hs]
    · rfl

theorem parseDirective_behind (line : List α) :
    parseDirective A line =
      match (cmdPattern A).search (behindTarget A line) with
      | none =>
        match targetToken A line with
        | some r => .inl ⟨some r.1, [], A.words r.2, none, line⟩
        | none => .inr line
      | some m => .inl
          { targetEntity := (targetToken A line).map Prod.fst
            cmd := A.text "/" ++ m.groups
            args := A.words ((contentRefPattern A).sub (m.before ++ m.after))
            contentRef := lastContentRef A (m.before ++ m.after)
            rawText := line } := by
  rw [parseDirective_eq, matchTarget_eq, behindTarget]
  cases targetToken A line with
  | none => rfl
  | some r =>
    have hu : ∀ c ∈ r.2.takeWhile A.isSpace, A.isSpace c = true :=
      fun c hc => List.mem_takeWhile_imp hc
    have hr : r.2.takeWhile A.isSpace ++ (r.2.dropWhile A.isSpace ++ []) = r.2 := by
      rw [List.append_nil, List.takeWhile_append_dropWhile]
    have hwords : A.words (r.2.dropWhile A.isSpace) = A.words r.2 := by
      conv_rhs => rw [← hr, Alphabet.words, words_spaces_append hu, List.append_nil]
      rfl
    have hsearch : (cmdPattern A).search r.2 =
        ((cmdPattern A).search (r.2.dropWhile A.isSpace)).map
          (Pattern.surround (r.2.takeWhile A.isSpace) []) := by
      conv_lhs => rw [← hr]
      rw [Pattern.search, Pattern.finditer_surround cmdPattern_isLocal hu (by simp), List.head?_map]
      rfl
    simp only [Option.map_some, Option.elim_some, hsearch]
    cases (cmdPattern A).search (r.2.dropWhile A.isSpace) with
    | none => simp only [Option.map_none, hwords]
    | some m =>
      simp only [Option.map_some, Pattern.surround, List.append_nil, List.append_assoc,
        lastContentRef, Alphabet.words,
        Pattern.captures_spaces_append contentRefPattern_isLocal hu,
        Pattern.words_sub_spaces_append contentRefPattern_isLocal hu]

theorem of_atTokenPattern_atHead {l slug : List α} {n : Nat}
    (h : (atTokenPattern A).atHead l = some (slug, n)) :
    ∃ at_, l = at_ :: (slug ++ l.drop n) ∧ A.is '@' at_ = true ∧ n = 1 + slug.length ∧
      ∀ c ∈ slug, isSlug A c = true := by
  simp only [atTokenPattern] at h
  split at h
  · cases h
  · rename_i c cs
    split at h
    · rename_i hc
      obtain ⟨rfl, rfl⟩ := Prod.mk.inj (Option.some.inj h)
      rw [Bool.and_eq_true] at hc
      refine ⟨c, ?_, hc.1, rfl, fun d hd => List.mem_takeWhile_imp hd⟩
      rw [Nat.add_comm, List.drop_succ_cons, drop_length_takeWhile,
        List.takeWhile_append_dropWhile]
    · cases h

theorem not_is_of_isSlug {a : α} (h : isSlug A a = true) : A.is '/' a = false := by
  cases hs : A.is '/' a with
  | false => rfl
  | true =>
    have hcode : A.code a = 47 := is_iff.mp hs
    revert h
    simp [isSlug, Alphabet.isLower, Alphabet.isUpper, Alphabet.isDigit, Alphabet.is, hcode]

/-- No command begins in a target. -/
theorem search_behindTarget (line : List α) :
    ((cmdPattern A).search (behindTarget A line)).isSome = ((cmdPattern A).search line).isSome := by
  unfold behindTarget targetToken
  cases hat : (atTokenPattern A).atHead line with
  | none => rfl
  | some r =>
    rw [Option.bind_some]
    split
    · obtain ⟨at_, hline, hat, -, hslug⟩ := of_atTokenPattern_atHead hat
      have hskip : ∀ c ∈ at_ :: r.1, ∀ l, (cmdPattern A).atHead (c :: l) = none := by
        intro c hc l
        apply cmdPattern_none
        rcases List.mem_cons.mp hc with rfl | hc
        · have hcode : A.code c = 64 := is_iff.mp hat
          simp [Alphabet.is, hcode]
        · exact not_is_of_isSlug (hslug c hc)
      have h := Pattern.search_append_of_none hskip (line.drop r.2)
      rw [List.cons_append, ← hline] at h
      exact h.symm
    · rfl

/-! Python and ECMAScript. -/

/-- No character is white space in one of the languages only. -/
def Undisputed (l : Str) : Prop := ∀ c ∈ l, pythonText.isSpace c = ecmaText.isSpace c

instance (l : Str) : Decidable (Undisputed l) :=
  inferInstanceAs (Decidable (∀ c ∈ l, _))

/-- The `@slug` a line begins with is delimited in both languages or in none. -/
def SlugAlike (line : Str) : Prop :=
  ∀ r, (atTokenPattern pythonText).atHead line = some r → Undisputed ((line.drop r.2).take 1)

/-- A text besides target and command, from which both languages take the same words and the
same content reference. -/
def RefsAlike (l : Str) : Prop :=
  Undisputed l ∨
    (contentRefPattern pythonText).captures l ≠ [] ∧
      lastContentRef pythonText l = lastContentRef ecmaText l ∧
      pythonText.words ((contentRefPattern pythonText).sub l) =
        ecmaText.words ((contentRefPattern ecmaText).sub l)

/-- A line with a command. -/
def CommandAlike (line : Str) : Prop :=
  SlugAlike line ∧ RefsAlike (besidesCommand pythonText line)

/-- A line without a command. -/
def ProseAlike (line : Str) : Prop :=
  SlugAlike line ∧ ∀ r, targetToken pythonText line = some r → Undisputed r.2

theorem Undisputed.words {l : Str} : pythonText.words l = ecmaText.words l ↔ Undisputed l :=
  words_eq_iff

theorem Undisputed.strip {l : Str} (h : Undisputed l) : pythonText.strip l = ecmaText.strip l :=
  strip_congr h

theorem undisputed_append {a b : Str} : Undisputed (a ++ b) ↔ Undisputed a ∧ Undisputed b :=
  List.forall_mem_append

theorem Undisputed.of_suffix {a b : Str} (h : Undisputed b) (hab : a <:+ b) : Undisputed a :=
  fun c hc => h c (hab.subset hc)

theorem matchPath_alike {l : Str} (h : Undisputed l) :
    matchPath pythonText l = matchPath ecmaText l := by
  cases l with
  | nil => rfl
  | cons c cs =>
    have htake : (cs.takeWhile fun a => !pythonText.isSpace a) =
        cs.takeWhile fun a => !ecmaText.isSpace a :=
      takeWhile_congr fun d hd => congrArg (!·) (h d (List.mem_cons_of_mem c hd))
    rw [matchPath, matchPath, htake]
    rfl

theorem contentRefPattern_alike {l : Str} (h : Undisputed l) :
    (contentRefPattern pythonText).atHead l = (contentRefPattern ecmaText).atHead l := by
  cases l with
  | nil => rfl
  | cons c cs =>
    have hpath : ∀ k, matchPath pythonText (cs.drop k) = matchPath ecmaText (cs.drop k) :=
      fun k => matchPath_alike (h.of_suffix ((List.drop_suffix k cs).trans (List.suffix_cons c cs)))
    simp only [contentRefPattern, hpath]
    rfl

theorem refsAlike_iff {l : Str} :
    RefsAlike l ↔ lastContentRef pythonText l = lastContentRef ecmaText l ∧
      pythonText.words ((contentRefPattern pythonText).sub l) =
        ecmaText.words ((contentRefPattern ecmaText).sub l) := by
  constructor
  · rintro (h | ⟨-, h⟩)
    · have hat : ∀ t, t <:+ l → (contentRefPattern pythonText).atHead t =
          (contentRefPattern ecmaText).atHead t :=
        fun t ht => contentRefPattern_alike (h.of_suffix ht)
      have hsub : ∀ c ∈ (contentRefPattern ecmaText).sub l, c ∈ l :=
        fun c hc => (Pattern.sub_sublist _ l).subset hc
      refine ⟨?_, ?_⟩
      · rw [lastContentRef, lastContentRef, Pattern.captures_congr hat]
      · rw [Pattern.sub_congr hat]
        exact words_congr fun c hc => h c (hsub c hc)
    · exact h
  · intro h
    by_cases hnone : (contentRefPattern pythonText).captures l = []
    · left
      have hlast : lastContentRef ecmaText l = none := by
        rw [← h.1, lastContentRef, hnone]
        rfl
      have hnone' : (contentRefPattern ecmaText).captures l = [] := by
        rw [lastContentRef, Option.map_eq_none_iff] at hlast
        exact List.getLast?_eq_none_iff.mp hlast
      have hwords := h.2
      rw [Pattern.sub_eq_self hnone, Pattern.sub_eq_self hnone'] at hwords
      exact Undisputed.words.mp hwords
    · exact .inr ⟨hnone, h⟩

theorem SlugAlike.targetToken {line : Str} (h : SlugAlike line) :
    targetToken pythonText line = targetToken ecmaText line := by
  have hpattern : atTokenPattern ecmaText = atTokenPattern pythonText := rfl
  unfold Slash.targetToken
  rw [hpattern]
  cases hat : (atTokenPattern pythonText).atHead line with
  | none => rfl
  | some r =>
    have hnext := h r hat
    rw [Option.bind_some, Option.bind_some]
    cases hrest : line.drop r.2 with
    | nil => rfl
    | cons c cs =>
      have hspace : (c :: cs).head?.all pythonText.isSpace = (c :: cs).head?.all ecmaText.isSpace :=
        hnext c (by simp [hrest])
      rw [hspace]

theorem slugAlike_iff {line : Str} :
    SlugAlike line ↔
      (targetToken pythonText line).map Prod.fst = (targetToken ecmaText line).map Prod.fst := by
  refine ⟨fun h => by rw [h.targetToken], fun h r hat => ?_⟩
  have hpattern : atTokenPattern ecmaText = atTokenPattern pythonText := rfl
  unfold targetToken at h
  rw [hpattern, hat, Option.bind_some, Option.bind_some] at h
  cases hrest : line.drop r.2 with
  | nil => simp [Undisputed]
  | cons c cs =>
    rw [hrest] at h
    simp only [List.head?_cons, Option.all_some] at h
    have hc : pythonText.isSpace c = ecmaText.isSpace c := by
      by_cases hp : pythonText.isSpace c = true <;> by_cases he : ecmaText.isSpace c = true <;>
        simp_all
    simpa [Undisputed] using hc

theorem parseDirective_target (line : List α) :
    (parseDirective A line).elim Directive.targetEntity (fun _ => none) =
      (targetToken A line).map Prod.fst := by
  rw [parseDirective_behind]
  cases (cmdPattern A).search (behindTarget A line) with
  | none => cases targetToken A line <;> rfl
  | some m => rfl

/-- Both languages read a stripped line alike. -/
theorem parseDirective_alike_iff {line : Str} :
    parseDirective pythonText line = parseDirective ecmaText line ↔
      if ((cmdPattern pythonText).search line).isSome then CommandAlike line
      else ProseAlike line := by
  have hpattern : cmdPattern ecmaText = cmdPattern pythonText := rfl
  have hslash : ecmaText.text "/" = pythonText.text "/" := rfl
  have hcmd := search_behindTarget (A := pythonText) line
  by_cases hslug : SlugAlike line
  · have htoken := hslug.targetToken
    have hbehind : behindTarget ecmaText line = behindTarget pythonText line := by
      rw [behindTarget, ← htoken]
      rfl
    rw [parseDirective_behind, parseDirective_behind, hpattern, hslash, hbehind, ← htoken]
    cases hsearch : (cmdPattern pythonText).search (behindTarget pythonText line) with
    | none =>
      rw [hsearch] at hcmd
      rw [← hcmd, Option.isSome_none, if_neg Bool.false_ne_true, ProseAlike]
      cases htarget : targetToken pythonText line with
      | none => simp [hslug]
      | some r => simp [hslug, Undisputed.words]
    | some m =>
      rw [hsearch] at hcmd
      have hbesides : besidesCommand pythonText line = m.before ++ m.after := by
        rw [besidesCommand, hsearch]
        rfl
      rw [← hcmd, Option.isSome_some, if_pos rfl, CommandAlike, hbesides, refsAlike_iff]
      simp [hslug, and_comm]
  · have hright : ¬if ((cmdPattern pythonText).search line).isSome then CommandAlike line
        else ProseAlike line := by
      split
      · exact fun h => hslug h.1
      · exact fun h => hslug h.1
    refine iff_of_false (fun h => hslug (slugAlike_iff.mpr ?_)) hright
    rw [← parseDirective_target, ← parseDirective_target, h]

end Eyot.Slash
