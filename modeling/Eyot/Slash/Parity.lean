import Eyot.Slash.Alike

/-! Backend and portal read the same turn off a text exactly when its lines are alike. -/

namespace Eyot.Slash

open Scan

variable {α : Type} {A : Alphabet α}

/-! What a line is good for. -/

/-- A line that is general text. -/
structure IsGeneral (A : Alphabet α) (line : List α) : Prop where
  strip_ne : A.strip line ≠ []
  no_cmd : (cmdPattern A).search line = none
  few_mentions : (Backend.mentions A line).length ≤ 1
  no_target : targetToken A (A.strip line) = none

theorem parseDirective_eq_inr {line g : List α} :
    parseDirective A line = .inr g ↔
      g = line ∧ (cmdPattern A).search line = none ∧ targetToken A line = none := by
  have hcmd := search_behindTarget (A := A) line
  rw [parseDirective_behind]
  cases hs : (cmdPattern A).search (behindTarget A line) with
  | none =>
    rw [hs, Option.isSome_none, eq_comm, Option.isSome_eq_false_iff, Option.isNone_iff_eq_none] at hcmd
    cases targetToken A line with
    | none => simp [hcmd, eq_comm]
    | some r => simp
  | some m =>
    rw [hs, Option.isSome_some, eq_comm, Option.isSome_iff_ne_none] at hcmd
    simp [hcmd]

theorem IsGeneral.lineParts {line : List α} (h : IsGeneral A line) :
    lineParts A line = ⟨[], [A.strip line]⟩ := by
  have hcmd : (cmdPattern A).search (A.strip line) = none := by
    have := search_strip (A := A) line
    rwa [h.no_cmd, Option.isSome_none, Option.isSome_eq_false_iff, Option.isNone_iff_eq_none] at this
  rw [lineParts_of_none (expand_of_short h.few_mentions), singleParts_of_ne h.strip_ne,
    parseDirective_eq_inr.mpr ⟨rfl, hcmd, h.no_target⟩]
  rfl

/-- A line is general text, or blank, or there are directives on it. -/
theorem lineParts_cases (line : List α) :
    IsGeneral A line ∨ lineParts A line = ⟨[], []⟩ ∧ A.strip line = [] ∨
      ∃ ds, ds ≠ [] ∧ lineParts A line = ⟨ds, []⟩ := by
  cases hexp : Backend.expandInlineChatMentions A line with
  | some ds =>
    refine .inr (.inr ⟨ds, ?_, lineParts_of_some hexp⟩)
    rintro rfl
    rw [Backend.expandInlineChatMentions] at hexp
    split at hexp
    · cases hexp
    split at hexp
    · cases hexp
    · rename_i hlong
      have hlen := length_mentionDirectives (A := A) line (Backend.mentions A line)
      rw [Option.some.inj hexp, List.length_nil] at hlen
      omega
  | none =>
    rw [lineParts_of_none hexp]
    by_cases hne : A.strip line = []
    · exact .inr (.inl ⟨by rw [hne]; rfl, hne⟩)
    · rw [singleParts_of_ne hne]
      cases hparse : parseDirective A (A.strip line) with
      | inl d => exact .inr (.inr ⟨[d], by simp, rfl⟩)
      | inr g =>
        obtain ⟨-, hcmd, htarget⟩ := parseDirective_eq_inr.mp hparse
        have hcmd' : (cmdPattern A).search line = none := by
          have := search_strip (A := A) line
          rwa [hcmd, Option.isSome_none, eq_comm, Option.isSome_eq_false_iff,
            Option.isNone_iff_eq_none] at this
        refine .inl ⟨hne, hcmd', ?_, htarget⟩
        by_contra hlong
        rw [expand_of_long hcmd' (by omega)] at hexp
        cases hexp

theorem of_mem_generalParts {line g : List α} (h : g ∈ (lineParts A line).generalParts) :
    IsGeneral A line ∧ g = A.strip line := by
  rcases lineParts_cases (A := A) line with hgeneral | ⟨hparts, -⟩ | ⟨ds, -, hparts⟩
  · rw [hgeneral.lineParts, List.mem_singleton] at h
    exact ⟨hgeneral, h⟩
  · rw [hparts] at h
    cases h
  · rw [hparts] at h
    cases h

theorem targetToken_eq_some {line : List α} {r : List α × List α}
    (h : targetToken A line = some r) :
    ∃ n, (atTokenPattern A).atHead line = some (r.1, n) ∧ r.2 = line.drop n ∧
      r.2.head?.all A.isSpace = true := by
  obtain ⟨⟨slug, n⟩, hat, hr⟩ := Option.bind_eq_some_iff.mp h
  split at hr
  · rename_i hspace
    obtain rfl := Option.some.inj hr
    exact ⟨n, hat, rfl, hspace⟩
  · cases hr

/-- White space of ECMAScript around a text makes no target of it for Python. -/
theorem targetToken_strip {line : Str} {c : Char} {cs : Str}
    (hg : ecmaText.strip line = c :: cs) (hc : pythonText.isSpace c = false)
    (hnone : targetToken pythonText (c :: cs) = none) :
    targetToken pythonText (pythonText.strip line) = none := by
  by_contra hsome
  obtain ⟨r, hr⟩ := Option.ne_none_iff_exists'.mp hsome
  obtain ⟨n, hat, htail, hspace⟩ := targetToken_eq_some hr
  obtain ⟨at_, ht, his, -⟩ := of_atTokenPattern_atHead hat
  have hvisible : ecmaText.isSpace at_ = false := by
    have hcode : ecmaText.code at_ = 64 := is_iff.mp his
    exact ecmaText.isSpace_visible (by omega) (by omega)
  obtain ⟨u, v, hline, hu, hv⟩ := strip_decompose pythonText.isSpace line
  obtain ⟨u', v', hline', hu', hv'⟩ := strip_decompose ecmaText.isSpace line
  have hg' : strip ecmaText.isSpace line = c :: cs := hg
  have ht' : strip pythonText.isSpace line = at_ :: (r.1 ++ (pythonText.strip line).drop n) := ht
  have hsame : pythonText.strip line ++ v = (c :: cs) ++ v' := by
    rw [hg'] at hline'
    rw [ht'] at hline
    obtain ⟨-, h⟩ := eq_of_append_eq (hline.symm.trans hline') hu hu' hvisible hc
    rw [ht]
    exact h
  have hne : pythonText.strip line ≠ [] := by
    rw [ht]
    exact List.cons_ne_nil _ _
  have hat' : (atTokenPattern pythonText).atHead (c :: cs) = some (r.1, n) := by
    rw [← hat, ← atTokenPattern_isLocal.atHead_append hne hv, hsame]
    exact (atTokenPattern_isLocal (A := ecmaText).atHead_append (List.cons_ne_nil c cs) hv').symm
  have hlen := ((atTokenPattern pythonText).takes hat).2
  have hlen' := ((atTokenPattern pythonText).takes hat').2
  have hdrop := congrArg (List.drop n) hsame
  rw [List.drop_append_of_le_length hlen, List.drop_append_of_le_length hlen', ← htail] at hdrop
  have hspace' : ((c :: cs).drop n).head?.all pythonText.isSpace = true := by
    cases hrest : (c :: cs).drop n with
    | nil => rfl
    | cons d ds =>
      rw [hrest] at hdrop
      cases hr2 : r.2 with
      | nil =>
        rw [hr2, List.nil_append, List.cons_append] at hdrop
        exact hv d (by simp [hdrop])
      | cons e es =>
        rw [hr2] at hdrop hspace
        obtain rfl := (List.cons.inj hdrop).1
        exact hspace
  rw [targetToken, hat', Option.bind_some, if_pos hspace'] at hnone
  cases hnone

/-- A general line of the portal is one of the backend if it is the text of one. -/
theorem IsGeneral.python {line other : Str} (hloop : Portal.LoopEnds ecmaText line)
    (h : IsGeneral ecmaText line) (hother : IsGeneral pythonText other)
    (hsame : pythonText.strip other = ecmaText.strip line) : IsGeneral pythonText line := by
  cases hg : ecmaText.strip line with
  | nil => exact absurd hg h.strip_ne
  | cons c cs =>
    have hother_strip : Scan.strip pythonText.isSpace other = c :: cs := hsame.trans hg
    have hc : pythonText.isSpace c = false := strip_head (l := other) (by rw [hother_strip]; rfl)
    have hmem : c ∈ line := by
      obtain ⟨u, v, hline, -⟩ := strip_decompose ecmaText.isSpace line
      have hg' : Scan.strip ecmaText.isSpace line = c :: cs := hg
      rw [hline, hg']
      simp
    have hmentions := mentions_of_loopEnds hloop h.no_cmd
    have hfew := h.few_mentions
    rw [hmentions] at hfew
    refine ⟨fun hnil => ?_, h.no_cmd, (List.length_filter_le _ _).trans hfew, ?_⟩
    · have := strip_eq_nil.mp hnil c hmem
      rw [hc] at this
      cases this
    · have hnone := hother.no_target
      rw [hsame, hg] at hnone
      exact targetToken_strip hg hc hnone

/-! Line by line again. -/

theorem generalParts_alike {ls : List Str} (hloop : ∀ line ∈ ls, Portal.LoopEnds ecmaText line)
    (h : (ls.flatMap fun line => (lineParts ecmaText line).generalParts) =
      ls.flatMap fun line => (lineParts pythonText line).generalParts) :
    ∀ line ∈ ls,
      (lineParts ecmaText line).generalParts = (lineParts pythonText line).generalParts := by
  apply eq_of_flatMap_eq h
  intro line hline
  rcases lineParts_cases (A := ecmaText) line with hgeneral | ⟨hparts, -⟩ | ⟨ds, -, hparts⟩
  · have hmem : ecmaText.strip line ∈ ls.flatMap fun line => (lineParts ecmaText line).generalParts :=
      List.mem_flatMap.mpr ⟨line, hline, by rw [hgeneral.lineParts, List.mem_singleton]⟩
    rw [h] at hmem
    obtain ⟨other, -, hother⟩ := List.mem_flatMap.mp hmem
    obtain ⟨hother, hsame⟩ := of_mem_generalParts hother
    rw [hgeneral.lineParts, (hgeneral.python (hloop line hline) hother hsame.symm).lineParts]
    exact Nat.le_refl 1
  · rw [hparts]
    exact Nat.zero_le _
  · rw [hparts]
    exact Nat.zero_le _

/-- A directive takes a slash or an at sign. -/
theorem visible_of_directives {line : List α} (h : (lineParts A line).directives ≠ []) :
    ∃ c ∈ line, A.code c = 47 ∨ A.code c = 64 := by
  cases hcmd : (cmdPattern A).search line with
  | some m =>
    obtain ⟨hline, hat⟩ := Pattern.of_mem_finditer (List.mem_of_head? hcmd)
    obtain ⟨slash, tail, htext, hslash, -⟩ := of_cmdPattern_atHead hat
    exact ⟨slash, by rw [hline, htext]; simp, .inl (is_iff.mp hslash)⟩
  | none =>
    cases hms : Backend.mentions A line with
    | cons m ms =>
      have hm : m ∈ Backend.mentions A line := by rw [hms]; exact List.mem_cons_self
      obtain ⟨hline, hat⟩ := Pattern.of_mem_finditer (List.mem_of_mem_filter hm)
      obtain ⟨at_, htext, his, -⟩ := of_atTokenPattern_atHead hat
      exact ⟨at_, by rw [hline, htext]; simp, .inr (is_iff.mp his)⟩
    | nil =>
      have hfew : (Backend.mentions A line).length ≤ 1 := by simp [hms]
      rcases lineParts_cases (A := A) line with hgeneral | ⟨hparts, -⟩ | ⟨ds, hds, hparts⟩
      · rw [hgeneral.lineParts] at h
        exact absurd rfl h
      · rw [hparts] at h
        exact absurd rfl h
      · cases htarget : targetToken A (A.strip line) with
        | none =>
          by_cases hne : A.strip line = []
          · rw [lineParts_of_none (expand_of_short hfew), hne] at hparts
            exact absurd (congrArg Parts.directives hparts).symm hds
          · have hgeneral : IsGeneral A line := ⟨hne, hcmd, hfew, htarget⟩
            rw [hgeneral.lineParts] at hparts
            exact absurd (congrArg Parts.directives hparts).symm hds
        | some r =>
          obtain ⟨n, hat, -⟩ := targetToken_eq_some htarget
          obtain ⟨at_, htext, his, -⟩ := of_atTokenPattern_atHead hat
          have hmem : at_ ∈ A.strip line := by rw [htext]; exact List.mem_cons_self
          obtain ⟨u, v, hline, -⟩ := strip_decompose A.isSpace line
          refine ⟨at_, ?_, .inr (is_iff.mp his)⟩
          rw [hline]
          exact List.mem_append_right u (List.mem_append_left v hmem)

theorem directives_le {line : Str} (hloop : Portal.LoopEnds ecmaText line)
    (hgeneral : (lineParts ecmaText line).generalParts = (lineParts pythonText line).generalParts) :
    (lineParts pythonText line).directives.length ≤ (lineParts ecmaText line).directives.length := by
  by_cases hnil : (lineParts pythonText line).directives = []
  · rw [hnil]
    exact Nat.zero_le _
  have hone : 1 ≤ (lineParts ecmaText line).directives.length := by
    rcases lineParts_cases (A := ecmaText) line with h | ⟨-, hblank⟩ | ⟨ds, hds, hparts⟩
    · rw [h.lineParts] at hgeneral
      have hmem : ecmaText.strip line ∈ (lineParts pythonText line).generalParts := by
        rw [← hgeneral]
        exact List.mem_singleton_self _
      rw [(of_mem_generalParts hmem).1.lineParts] at hnil
      exact absurd rfl hnil
    · obtain ⟨c, hc, hcode⟩ := visible_of_directives hnil
      have hcode' : ecmaText.code c = 47 ∨ ecmaText.code c = 64 := hcode
      have hspace := strip_eq_nil.mp hblank c hc
      rw [ecmaText.isSpace_visible (by omega) (by omega)] at hspace
      cases hspace
    · rw [hparts]
      exact List.length_pos_iff.mpr hds
  by_cases hmany : (lineParts pythonText line).directives.length ≤ 1
  · exact hmany.trans hone
  cases hcmd : (cmdPattern pythonText).search line with
  | some m =>
    have hsome : ((cmdPattern pythonText).search line).isSome = true := by rw [hcmd]; rfl
    rw [lineParts_of_none (expand_of_search hsome)] at hmany
    exact absurd (length_singleParts_directives _) hmany
  | none =>
    have hle := length_lineParts_directives hcmd
    have htokens : (Backend.mentions pythonText line).length ≤
        (Backend.mentions ecmaText line).length := by
      rw [mentions_of_loopEnds hloop hcmd]
      exact List.length_filter_le _ _
    rw [lineParts_of_some (expand_of_long (A := ecmaText) hcmd (by omega)),
      length_mentionDirectives]
    omega

theorem textParts_alike_iff {t : Str}
    (hloop : ∀ line ∈ pythonText.lines t, Portal.LoopEnds ecmaText line) :
    textParts pythonText t = textParts ecmaText t ↔ ∀ line ∈ pythonText.lines t, LineAlike line := by
  have hlines : ecmaText.lines t = pythonText.lines t := rfl
  constructor
  · intro h line hline
    have hgeneral := generalParts_alike hloop (congrArg Parts.generalParts h).symm
    have hdirectives := eq_of_flatMap_eq (congrArg Parts.directives h)
      fun line hline => directives_le (hloop line hline) (hgeneral line hline)
    refine (lineParts_alike_iff (hloop line hline)).mp ?_
    have hd := hdirectives line hline
    have hg := (hgeneral line hline).symm
    cases hp : lineParts pythonText line
    cases he : lineParts ecmaText line
    simp_all
  · intro h
    have hparts : ∀ line ∈ pythonText.lines t, lineParts pythonText line = lineParts ecmaText line :=
      fun line hline => (lineParts_alike_iff (hloop line hline)).mpr (h line hline)
    rw [textParts, textParts, hlines]
    congr 1
    · exact List.flatMap_congr fun line hline => by rw [hparts line hline]
    · exact List.flatMap_congr fun line hline => by rw [hparts line hline]

/-! Turns. -/

theorem generalParts_newline {t g : List α} (h : g ∈ (textParts A t).generalParts) :
    ∀ c ∈ g, A.is '\n' c = false := by
  obtain ⟨line, hline, hg⟩ := List.mem_flatMap.mp h
  rw [(of_mem_generalParts hg).2]
  intro c hc
  obtain ⟨u, v, hsplit, -⟩ := strip_decompose A.isSpace line
  refine of_mem_lines hline c ?_
  rw [hsplit]
  exact List.mem_append_right u (List.mem_append_left v hc)

/-- The parts can be told from the turn. -/
theorem textParts_of_turn {t : Str}
    (h : (textParts pythonText t).turn pythonText = (textParts ecmaText t).turn ecmaText) :
    textParts pythonText t = textParts ecmaText t := by
  have hpython := fun g => generalParts_newline (A := pythonText) (t := t) (g := g)
  have hecma := fun g => generalParts_newline (A := ecmaText) (t := t) (g := g)
  revert h hpython hecma
  generalize textParts pythonText t = p
  generalize textParts ecmaText t = q
  rintro h hpython hecma
  have hdirectives : p.directives = q.directives := congrArg Turn.directives h
  have hgeneral := congrArg Turn.generalText h
  simp only [Parts.turn] at hgeneral
  have hparts : p.generalParts = q.generalParts := by
    cases hp : p.generalParts with
    | nil =>
      cases hq : q.generalParts with
      | nil => rfl
      | cons g gs => simp [hp, hq] at hgeneral
    | cons g gs =>
      cases hq : q.generalParts with
      | nil => simp [hp, hq] at hgeneral
      | cons g' gs' =>
        rw [hp] at hgeneral hpython
        rw [hq] at hgeneral hecma
        have hjoin : pythonText.join "\n" (g :: gs) = ecmaText.join "\n" (g' :: gs') :=
          Option.some.inj hgeneral
        have hlines := congrArg pythonText.lines hjoin
        rw [lines_join (List.cons_ne_nil g gs) hpython] at hlines
        rw [hlines]
        exact lines_join (A := ecmaText) (List.cons_ne_nil g' gs') hecma
  cases p
  cases q
  simp_all

/-! The portal against the backend. -/

/-- Where its loop ends, the portal reads a line as the backend would in its alphabet. -/
theorem expandInlineChatMentions_portal {rounds : Nat} {line : List α}
    {expanded : Option (List (Directive α))}
    (h : Portal.expandInlineChatMentions A rounds line = some expanded) :
    expanded = Backend.expandInlineChatMentions A line := by
  rw [Portal.expandInlineChatMentions] at h
  rw [Backend.expandInlineChatMentions]
  split at h
  · rename_i hcmd
    rw [if_pos hcmd]
    exact (Option.some.inj h).symm
  · rename_i hcmd
    obtain ⟨ms, hrun, hexp⟩ := Option.map_eq_some_iff.mp h
    obtain ⟨-, hall, rfl⟩ := Portal.run_eq_some.mp hrun
    have hmentions : Backend.mentions A line = (atTokenPattern A).finditer line :=
      List.filter_eq_self.mpr hall
    rw [if_neg hcmd, hmentions, ← hexp]
    rfl

theorem parseLines_portal {rounds : Nat} {parts parts' : Parts α} {ls : List (List α)}
    (h : Portal.parseLines A rounds parts ls = some parts') :
    parts' = Backend.parseLines A parts ls := by
  induction ls generalizing parts with
  | nil => exact (Option.some.inj h).symm
  | cons line ls ih =>
    rw [Portal.parseLines] at h
    rw [Backend.parseLines]
    cases hempty : (A.strip line).isEmpty with
    | true =>
      simp only [hempty, if_true] at h ⊢
      exact ih h
    | false =>
      simp only [hempty, Bool.false_eq_true, if_false] at h ⊢
      split at h
      · cases h
      · rename_i expanded hexp
        rw [← expandInlineChatMentions_portal hexp]
        exact ih h

theorem parseTurn_portal {rounds : Nat} {rawText : List α} {turn : Turn α}
    (h : Portal.parseTurn A rounds rawText = some turn) : turn = Backend.parseTurn A rawText := by
  obtain ⟨parts, hparts, rfl⟩ := Option.map_eq_some_iff.mp h
  rw [parseLines_portal hparts]
  rfl

theorem loopEnds_lines_iff (rawText : Str) :
    (∃ rounds, (Portal.parseTurn portalText rounds (utf16.text rawText)).isSome) ↔
      ∀ line ∈ pythonText.lines rawText, Portal.LoopEnds ecmaText line := by
  have hnil : Portal.LoopEnds ecmaText [] := .inr fun m hm => by cases hm
  have hstrip := fun line => loopEnds_strip (A := ecmaText) line
  have hlines : pythonText.lines rawText = ecmaText.lines rawText := rfl
  rw [Portal.exists_rounds_iff, spell_strip spells_utf16, spell_lines spells_utf16, hlines,
    ← forall_lines_strip hstrip hnil]
  simp only [List.forall_mem_map, spell_strip spells_utf16, loopEnds_text spells_utf16, hstrip]

/-- The portal reads the turn that the backend reads. -/
def ReadAlike (rawText : Str) : Prop :=
  ∃ rounds, Portal.parseTurn portalText rounds (utf16.text rawText) =
    some ((Backend.parseTurn pythonText rawText).spell utf16)

theorem readAlike_iff (rawText : Str) :
    ReadAlike rawText ↔ ∀ line ∈ pythonText.lines rawText, LineAlike line := by
  have hturn : Backend.parseTurn portalText (utf16.text rawText) =
      (Backend.parseTurn pythonText rawText).spell utf16 ↔
        textParts pythonText rawText = textParts ecmaText rawText := by
    rw [parseTurn_text spells_utf16, (Turn.spell_injective utf16_injective).eq_iff, parseTurn_eq,
      parseTurn_eq, eq_comm]
    exact ⟨textParts_of_turn, fun h => by rw [h]; rfl⟩
  constructor
  · rintro ⟨rounds, h⟩
    have hloop := (loopEnds_lines_iff rawText).mp ⟨rounds, by rw [h]; rfl⟩
    exact (textParts_alike_iff hloop).mp (hturn.mp (parseTurn_portal h).symm)
  · intro h
    have hloop : ∀ line ∈ pythonText.lines rawText, Portal.LoopEnds ecmaText line :=
      fun line hline => (h line hline).1
    obtain ⟨rounds, hsome⟩ := (loopEnds_lines_iff rawText).mpr hloop
    obtain ⟨turn, hparse⟩ := Option.isSome_iff_exists.mp hsome
    refine ⟨rounds, ?_⟩
    rw [hparse, parseTurn_portal hparse, hturn.mpr ((textParts_alike_iff hloop).mpr h)]

/-- U+001C parts words in Python only. -/
def foxSeparated : Str := "@fox a\x1cb".toList

theorem separated_is_disputed : ¬ReadAlike foxSeparated := by
  rintro ⟨rounds, h⟩
  exact absurd (parseTurn_portal h) (by decide)

end Eyot.Slash
