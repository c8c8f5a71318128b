import Eyot.Slash.Grammar
import Eyot.Slash.Portal

/-! A turn is read line by line, and a line as if no white space stood around it. -/

namespace Eyot.Slash

open Scan

variable {α : Type} {A : Alphabet α}

theorem cmdPattern_isLocal : (cmdPattern A).IsLocal A.isSpace where
  atSpace s b hs := by
    have hslash : A.is '/' s = false := not_is_of_isSpace hs (by decide) (by decide)
    cases b <;> simp [cmdPattern, hslash]
  beforeSpace a s b hne hs := by
    have hstop := fun l => takeWhile_append_stop l (not_isCmdTail_of_isSpace hs) b
    have hlower : A.isLower s = false := by
      have := not_isSlug_of_isSpace hs
      simp only [isSlug, Bool.or_eq_false_iff] at this
      exact this.1.1.1.1
    cases a with
    | nil => exact absurd rfl hne
    | cons c cs =>
      cases cs with
      | nil => simp [cmdPattern, hlower]
      | cons d cs => simp [cmdPattern, hstop]

theorem atTokenPattern_isLocal : (atTokenPattern A).IsLocal A.isSpace where
  atSpace s b hs := by
    have hat : A.is '@' s = false := not_is_of_isSpace hs (by decide) (by decide)
    simp [atTokenPattern, hat]
  beforeSpace a s b hne hs := by
    have hstop := fun l => takeWhile_append_stop l (not_isSlug_of_isSpace hs) b
    match a with
    | [] => exact absurd rfl hne
    | c :: cs => simp only [atTokenPattern, List.cons_append, hstop]

/-! White space around a line. -/

section Surround

variable {u v : List α} (hu : ∀ c ∈ u, A.isSpace c = true) (hv : ∀ c ∈ v, A.isSpace c = true)

include hu in
theorem passes_surround (m : Match α (List α)) :
    Portal.passes A (Pattern.surround u v m) = Portal.passes A m := by
  have hlast : (u ++ m.before).getLast?.all A.isSpace = m.before.getLast?.all A.isSpace := by
    cases hm : m.before with
    | nil =>
      rw [List.append_nil]
      cases hlast : u.getLast? with
      | none => rfl
      | some c => exact hu c (List.mem_of_getLast? hlast)
    | cons c cs => rw [List.getLast?_append_of_ne_nil _ (List.cons_ne_nil c cs)]
  simp only [Portal.passes, Pattern.surround, hlast]

include hu hv in
theorem mentions_surround (l : List α) :
    Backend.mentions A (u ++ (l ++ v)) = (Backend.mentions A l).map (Pattern.surround u v) := by
  rw [Backend.mentions, Pattern.finditer_surround atTokenPattern_isLocal hu hv, List.filter_map]
  exact congrArg _ (List.filter_congr fun m _ => passes_surround hu m)

include hu hv in
theorem loopEnds_surround (l : List α) :
    Portal.LoopEnds A (u ++ (l ++ v)) ↔ Portal.LoopEnds A l := by
  unfold Portal.LoopEnds
  rw [Pattern.search, Pattern.finditer_surround cmdPattern_isLocal hu hv,
    Pattern.finditer_surround atTokenPattern_isLocal hu hv, List.head?_map, Option.isSome_map]
  simp only [List.forall_mem_map, passes_surround hu]
  rfl

omit hu in
theorem slice_surround (l : List α) {a b : Nat} (hb : b ≤ l.length) :
    slice (u ++ (l ++ v)) (u.length + a) (u.length + b) = slice l a b := by
  rw [slice, List.take_length_add_append, List.drop_length_add_append,
    List.take_append_of_le_length hb]
  rfl

include hv in
theorem mentionDirectives_surround {l : List α} {ms : List (Match α (List α))}
    (hms : ∀ m ∈ ms, l = m.before ++ (m.text ++ m.after)) :
    mentionDirectives A (u ++ (l ++ v)) (ms.map (Pattern.surround u v)) =
      mentionDirectives A l ms := by
  have hstart : ∀ m : Match α (List α), (Pattern.surround u v m).start = u.length + m.start := by
    intro m
    simp [Match.start, Pattern.surround]
  have hstop : ∀ m : Match α (List α), (Pattern.surround u v m).stop = u.length + m.stop := by
    intro m
    simp [Match.stop, Pattern.surround, Nat.add_assoc]
  have hlast : ∀ a ≤ l.length, slice (u ++ (l ++ v)) (u.length + a) (u ++ (l ++ v)).length =
      slice l a l.length ++ v := by
    intro a ha
    rw [slice, List.take_length, List.drop_length_add_append, List.drop_append_of_le_length ha,
      slice, List.take_length]
  have hstrip : ∀ x : List α, A.strip (x ++ v) = A.strip x := by
    intro x
    have h := strip_append_of_all (u := []) (by simp) hv x
    exact h
  induction ms with
  | nil => rfl
  | cons m ms ih =>
    rw [List.forall_mem_cons] at hms
    have hm := congrArg List.length hms.1
    simp only [List.length_append] at hm
    cases ms with
    | nil =>
      simp only [List.map_cons, List.map_nil, mentionDirectives, mentionDirective, hstart, hstop]
      rw [hlast m.stop (by rw [Match.stop]; omega), hlast m.start (by rw [Match.start]; omega),
        hstrip, hstrip]
      rfl
    | cons next rest =>
      have hnext := congrArg List.length (hms.2 next List.mem_cons_self)
      simp only [List.length_append] at hnext
      have hbound : next.start ≤ l.length := by
        rw [Match.start]
        omega
      have ih := ih hms.2
      simp only [List.map_cons] at ih ⊢
      rw [mentionDirectives, mentionDirectives, ih]
      simp only [mentionDirective, hstart, hstop, slice_surround l hbound]
      rfl

include hu hv in
theorem expandInlineChatMentions_surround (l : List α) :
    Backend.expandInlineChatMentions A (u ++ (l ++ v)) = Backend.expandInlineChatMentions A l := by
  have hms : ∀ m ∈ Backend.mentions A l, l = m.before ++ (m.text ++ m.after) :=
    fun m hm => (Pattern.of_mem_finditer (List.mem_of_mem_filter hm)).1
  unfold Backend.expandInlineChatMentions
  rw [Pattern.search, Pattern.finditer_surround cmdPattern_isLocal hu hv, List.head?_map,
    Option.isSome_map, mentions_surround hu hv, List.length_map, mentionDirectives_surround hv hms]
  rfl

end Surround

theorem expandInlineChatMentions_strip (l : List α) :
    Backend.expandInlineChatMentions A (A.strip l) = Backend.expandInlineChatMentions A l := by
  obtain ⟨u, v, hl, hu, hv⟩ := strip_decompose A.isSpace l
  conv_rhs => rw [hl]
  exact (expandInlineChatMentions_surround hu hv _).symm

theorem loopEnds_strip (l : List α) :
    Portal.LoopEnds A (A.strip l) ↔ Portal.LoopEnds A l := by
  obtain ⟨u, v, hl, hu, hv⟩ := strip_decompose A.isSpace l
  conv_rhs => rw [hl]
  exact (loopEnds_surround hu hv _).symm

/-! Line by line. -/

variable (A) in
/-- What a line adds to a turn. -/
def lineParts (line : List α) : Parts α :=
  if (A.strip line).isEmpty then ⟨[], []⟩
  else addLine A (Backend.expandInlineChatMentions A line) (A.strip line) ⟨[], []⟩

theorem addLine_eq (expanded : Option (List (Directive α))) (line : List α) (parts : Parts α) :
    addLine A expanded line parts =
      ⟨parts.directives ++ (addLine A expanded line ⟨[], []⟩).directives,
        parts.generalParts ++ (addLine A expanded line ⟨[], []⟩).generalParts⟩ := by
  unfold addLine
  cases expanded with
  | some ds => simp
  | none => cases parseDirective A line <;> simp

theorem parseLines_eq (parts : Parts α) (ls : List (List α)) :
    Backend.parseLines A parts ls =
      ⟨parts.directives ++ ls.flatMap fun line => (lineParts A line).directives,
        parts.generalParts ++ ls.flatMap fun line => (lineParts A line).generalParts⟩ := by
  induction ls generalizing parts with
  | nil => simp [Backend.parseLines]
  | cons line ls ih =>
    rw [Backend.parseLines, List.flatMap_cons, List.flatMap_cons, lineParts]
    cases hempty : (A.strip line).isEmpty with
    | true =>
      simp only [if_true, List.nil_append]
      exact ih parts
    | false =>
      simp only [Bool.false_eq_true, if_false]
      rw [ih, expandInlineChatMentions_strip, addLine_eq]
      simp only [List.append_assoc]

theorem lineParts_strip (line : List α) : lineParts A (A.strip line) = lineParts A line := by
  have hstrip : A.strip (A.strip line) = A.strip line := strip_strip line
  rw [lineParts, hstrip, expandInlineChatMentions_strip]
  rfl

theorem lines_append_newline {l : List α} (hl : ∀ c ∈ l, A.is '\n' c = false) {s : α}
    (hs : A.is '\n' s = true) (r : List α) : A.lines (l ++ s :: r) = l :: A.lines r :=
  List.splitOnP_append_cons_of_forall_mem hl s hs r

theorem lines_eq_singleton {l : List α} (hl : ∀ c ∈ l, A.is '\n' c = false) : A.lines l = [l] :=
  List.splitOnP_eq_singleton hl

theorem of_mem_lines {t l : List α} (h : l ∈ A.lines t) : ∀ c ∈ l, A.is '\n' c = false := by
  induction t using induction_on_words (A.is '\n') with
  | hrun a ha =>
    rw [lines_eq_singleton ha, List.mem_singleton] at h
    exact h ▸ ha
  | hspace a s b ha hs ih =>
    rw [lines_append_newline ha hs, List.mem_cons] at h
    exact h.elim (fun h => h ▸ ha) ih

theorem lines_join {ls : List (List α)} (hne : ls ≠ [])
    (hls : ∀ l ∈ ls, ∀ c ∈ l, A.is '\n' c = false) : A.lines (A.join "\n" ls) = ls := by
  have hnewline : A.is '\n' (A.ofAscii '\n') = true :=
    is_iff.mpr (A.code_ofAscii '\n' (by decide))
  have hseparator : A.text "\n" = [A.ofAscii '\n'] := rfl
  rw [Alphabet.join, hseparator]
  induction ls with
  | nil => exact absurd rfl hne
  | cons l ls ih =>
    rw [List.forall_mem_cons] at hls
    cases ls with
    | nil =>
      rw [List.intercalate_singleton]
      exact lines_eq_singleton hls.1
    | cons m ls =>
      rw [List.intercalate_cons_cons, List.append_assoc, List.singleton_append,
        lines_append_newline hls.1 hnewline, ih (List.cons_ne_nil m ls) hls.2]

/-! What is read line by line off a stripped text can be read off the text. -/

section StripText

variable {β : Type} {f : List α → List β} (hf : ∀ l, f (A.strip l) = f l) (hnil : f [] = [])

include hf in
theorem apply_surround {u v : List α} (hu : ∀ c ∈ u, A.isSpace c = true)
    (hv : ∀ c ∈ v, A.isSpace c = true) (l : List α) : f (u ++ (l ++ v)) = f l := by
  rw [← hf, Alphabet.strip, strip_append_of_all hu hv]
  exact hf l

include hf hnil in
theorem flatMap_lines_blank {v : List α} (hv : ∀ c ∈ v, A.isSpace c = true) :
    (A.lines v).flatMap f = [] := by
  have hblank : ∀ a : List α, (∀ c ∈ a, A.isSpace c = true) → f a = [] := by
    intro a ha
    have h := apply_surround hf ha (v := []) (by simp) []
    rwa [List.append_nil, List.append_nil, hnil] at h
  induction v using induction_on_words (A.is '\n') with
  | hrun a ha => rw [lines_eq_singleton ha, List.flatMap_singleton, hblank a hv]
  | hspace a s b ha hs ih =>
    rw [List.forall_mem_append, List.forall_mem_cons] at hv
    rw [lines_append_newline ha hs, List.flatMap_cons, hblank a hv.1, ih hv.2.2]
    rfl

include hf hnil in
theorem flatMap_lines_append {v : List α} (hv : ∀ c ∈ v, A.isSpace c = true) (t : List α) :
    (A.lines (t ++ v)).flatMap f = (A.lines t).flatMap f := by
  have happend : ∀ a v : List α, (∀ c ∈ v, A.isSpace c = true) → f (a ++ v) = f a :=
    fun a v hv => apply_surround hf (u := []) (by simp) hv a
  induction t using induction_on_words (A.is '\n') with
  | hrun a ha =>
    rw [lines_eq_singleton ha, List.flatMap_singleton]
    induction v using induction_on_words (A.is '\n') with
    | hrun b hb =>
      rw [lines_eq_singleton (List.forall_mem_append.mpr ⟨ha, hb⟩), List.flatMap_singleton,
        happend a b hv]
    | hspace b s c hb hs _ =>
      rw [List.forall_mem_append, List.forall_mem_cons] at hv
      rw [← List.append_assoc, lines_append_newline (List.forall_mem_append.mpr ⟨ha, hb⟩) hs,
        List.flatMap_cons, flatMap_lines_blank hf hnil hv.2.2, List.append_nil, happend a b hv.1]
  | hspace a s b ha hs ih =>
    rw [List.append_assoc, List.cons_append, lines_append_newline ha hs, lines_append_newline ha hs,
      List.flatMap_cons, List.flatMap_cons, ih]

include hf hnil in
theorem flatMap_lines_prepend {u : List α} (hu : ∀ c ∈ u, A.isSpace c = true) (t : List α) :
    (A.lines (u ++ t)).flatMap f = (A.lines t).flatMap f := by
  have hprepend : ∀ u a : List α, (∀ c ∈ u, A.isSpace c = true) → f (u ++ a) = f a := by
    intro u a hu
    have h := apply_surround hf hu (v := []) (by simp) a
    rwa [List.append_nil] at h
  induction u using induction_on_words (A.is '\n') with
  | hrun a ha =>
    induction t using induction_on_words (A.is '\n') with
    | hrun b hb =>
      rw [lines_eq_singleton (List.forall_mem_append.mpr ⟨ha, hb⟩), List.flatMap_singleton,
        hprepend a b hu, lines_eq_singleton hb, List.flatMap_singleton]
    | hspace b s c hb hs _ =>
      rw [← List.append_assoc, lines_append_newline (List.forall_mem_append.mpr ⟨ha, hb⟩) hs,
        lines_append_newline hb hs, List.flatMap_cons, List.flatMap_cons, hprepend a b hu]
  | hspace a s b ha hs ih =>
    rw [List.forall_mem_append, List.forall_mem_cons] at hu
    have hblank := hprepend a [] hu.1
    rw [List.append_nil, hnil] at hblank
    rw [List.append_assoc, List.cons_append, lines_append_newline ha hs, List.flatMap_cons, hblank,
      List.nil_append, ih hu.2.2]

include hf hnil in
theorem flatMap_lines_strip (t : List α) :
    (A.lines (A.strip t)).flatMap f = (A.lines t).flatMap f := by
  obtain ⟨u, v, ht, hu, hv⟩ := strip_decompose A.isSpace t
  conv_rhs => rw [ht, flatMap_lines_prepend hf hnil hu, flatMap_lines_append hf hnil hv]
  rfl

end StripText

theorem forall_lines_strip {Q : List α → Prop} (hQ : ∀ l, Q (A.strip l) ↔ Q l) (hnil : Q [])
    (t : List α) : (∀ l ∈ A.lines (A.strip t), Q l) ↔ ∀ l ∈ A.lines t, Q l := by
  classical
  have h := flatMap_lines_strip (A := A) (f := fun l => if Q l then [] else [()])
    (fun l => by simp only [hQ]) (if_pos hnil) t
  have hiff : ∀ ls : List (List α),
      (ls.flatMap fun l => if Q l then [] else [()]) = [] ↔ ∀ l ∈ ls, Q l := by
    intro ls
    simp
  rw [← hiff, ← hiff, h]

variable (A) in
/-- What the lines of a text add to a turn, each on its own. -/
def textParts (t : List α) : Parts α where
  directives := (A.lines t).flatMap fun line => (lineParts A line).directives
  generalParts := (A.lines t).flatMap fun line => (lineParts A line).generalParts

theorem parseTurn_eq (rawText : List α) :
    Backend.parseTurn A rawText = (textParts A rawText).turn A := by
  have hnil : lineParts A [] = ⟨[], []⟩ := rfl
  have hdirectives := flatMap_lines_strip (A := A) (f := fun l => (lineParts A l).directives)
    (fun l => by rw [lineParts_strip]) (by rw [hnil]) rawText
  have hgeneral := flatMap_lines_strip (A := A) (f := fun l => (lineParts A l).generalParts)
    (fun l => by rw [lineParts_strip]) (by rw [hnil]) rawText
  rw [Backend.parseTurn, parseLines_eq, hdirectives, hgeneral]
  rfl

variable (A) in
/-- No command, or a slash and a name. -/
def IsCmd (cmd : List α) : Prop := cmd = [] ∨ ∃ name, cmd = A.text "/" ++ name

theorem isCmd_of_parseDirective {line : List α} {d : Directive α}
    (h : parseDirective A line = .inl d) : IsCmd A d.cmd := by
  unfold parseDirective at h
  dsimp only at h
  split at h
  · split at h
    · obtain rfl := Sum.inl.inj h
      exact .inl rfl
    · cases h
  · obtain rfl := Sum.inl.inj h
    exact .inr ⟨_, rfl⟩

theorem isCmd_of_mentionDirectives {raw : List α} {ms : List (Match α (List α))} {d : Directive α}
    (h : d ∈ mentionDirectives A raw ms) : IsCmd A d.cmd := by
  induction ms with
  | nil => cases h
  | cons m ms ih =>
    cases ms with
    | nil =>
      obtain rfl := List.mem_singleton.mp h
      exact .inl rfl
    | cons next rest =>
      rcases List.mem_cons.mp h with rfl | h
      · exact .inl rfl
      · exact ih h

theorem isCmd_of_lineParts {line : List α} {d : Directive α}
    (h : d ∈ (lineParts A line).directives) : IsCmd A d.cmd := by
  unfold lineParts at h
  split at h
  · cases h
  · unfold addLine at h
    split at h
    · rename_i ds hexp
      unfold Backend.expandInlineChatMentions at hexp
      split at hexp
      · cases hexp
      · split at hexp
        · cases hexp
        · obtain rfl := Option.some.inj hexp
          exact isCmd_of_mentionDirectives h
    · split at h
      · rename_i d' hparse
        obtain rfl := List.mem_singleton.mp h
        exact isCmd_of_parseDirective hparse
      · cases h

/-- The parser knows no other commands. -/
theorem isCmd_of_parseTurn {rawText : List α} {d : Directive α}
    (h : d ∈ (Backend.parseTurn A rawText).directives) : IsCmd A d.cmd := by
  rw [parseTurn_eq] at h
  obtain ⟨line, -, h⟩ := List.mem_flatMap.mp h
  exact isCmd_of_lineParts h

end Eyot.Slash
