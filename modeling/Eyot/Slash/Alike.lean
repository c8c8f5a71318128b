import Eyot.Slash.Disputed

/-! A line adds the same to a turn in both languages exactly when it is alike. -/

namespace Eyot.Slash

open Scan

variable {α : Type} {A : Alphabet α}

/-! A line with several mentions. -/

theorem isSpace_of_isSlug {a : α} (h : isSlug A a = true) : A.isSpace a = false := by
  cases hs : A.isSpace a with
  | false => rfl
  | true =>
    rw [not_isSlug_of_isSpace hs] at h
    cases h

theorem undisputed_token {raw : Str} {m : Match Char Str}
    (hm : m ∈ (atTokenPattern pythonText).finditer raw) : Undisputed m.text := by
  obtain ⟨at_, htext, hat, hlen, hslug⟩ :=
    of_atTokenPattern_atHead (Pattern.of_mem_finditer hm).2
  rw [List.drop_left, ← List.cons_append] at htext
  rw [List.append_cancel_right htext]
  intro c hc
  rcases List.mem_cons.mp hc with rfl | hc
  · have hpython : pythonText.code c = 64 := is_iff.mp hat
    have hecma : ecmaText.code c = 64 := hpython
    rw [pythonText.isSpace_visible (by omega) (by omega),
      ecmaText.isSpace_visible (by omega) (by omega)]
  · have hecma : isSlug ecmaText c = true := hslug c hc
    rw [isSpace_of_isSlug (hslug c hc), isSpace_of_isSlug hecma]

theorem mentionDirective_alike_iff {raw : Str} {m : Match Char Str} {stop : Nat}
    (hm : raw = m.before ++ (m.text ++ m.after)) (htext : Undisputed m.text)
    (hstop : m.stop ≤ stop) :
    mentionDirective pythonText raw m stop = mentionDirective ecmaText raw m stop ↔
      Undisputed (slice raw m.start stop) := by
  have htoken : slice raw m.start m.stop = m.text := by
    rw [hm, slice, Match.stop, List.take_length_add_append, Match.start, List.drop_left,
      List.take_left]
  have hslice : slice raw m.start stop = m.text ++ slice raw m.stop stop := by
    rw [← htoken]
    exact (slice_append_slice raw (Nat.le_add_right _ _) hstop).symm
  have hargs : pythonText.words (pythonText.strip (slice raw m.stop stop)) =
      ecmaText.words (ecmaText.strip (slice raw m.stop stop)) ↔
        Undisputed (slice raw m.stop stop) := by
    unfold Alphabet.words Alphabet.strip
    rw [words_strip, words_strip]
    exact Undisputed.words
  constructor
  · intro h
    rw [hslice, undisputed_append]
    exact ⟨htext, hargs.mp (congrArg Directive.args h)⟩
  · intro h
    have hrest := (undisputed_append.mp (hslice ▸ h)).2
    rw [mentionDirective, mentionDirective, hargs.mpr hrest, h.strip]

theorem mentionDirectives_alike_iff {raw : Str} {m : Match Char Str} {ms : List (Match Char Str)}
    (hms : ∀ n ∈ m :: ms, raw = n.before ++ (n.text ++ n.after) ∧ Undisputed n.text)
    (hsorted : (m :: ms).Pairwise fun m n => m.before ++ m.text <+: n.before) :
    mentionDirectives pythonText raw (m :: ms) = mentionDirectives ecmaText raw (m :: ms) ↔
      Undisputed (raw.drop m.start) := by
  induction ms generalizing m with
  | nil =>
    have hm := hms m List.mem_cons_self
    have hstop : m.stop ≤ raw.length := by
      rw [hm.1, Match.stop, List.length_append, List.length_append]
      omega
    have h := mentionDirective_alike_iff hm.1 hm.2 hstop
    rw [slice, List.take_length] at h
    rw [← h, mentionDirectives, mentionDirectives, List.cons.injEq]
    simp
  | cons n ms ih =>
    rw [List.forall_mem_cons] at hms
    rw [List.pairwise_cons] at hsorted
    have hn := hms.2 n List.mem_cons_self
    have hstop : m.stop ≤ n.start := by
      have := (hsorted.1 n List.mem_cons_self).length_le
      rwa [List.length_append] at this
    have hbound : n.start ≤ raw.length := by
      rw [hn.1, Match.start, List.length_append]
      omega
    have hdrop : raw.drop m.start = slice raw m.start n.start ++ raw.drop n.start := by
      have hstart : m.start ≤ n.start := (Nat.le_add_right _ _).trans hstop
      have h := slice_append_slice raw hstart hbound
      rw [slice, slice, slice, List.take_length] at h
      exact h.symm
    rw [mentionDirectives, mentionDirectives, List.cons.injEq, ih hms.2 hsorted.2,
      mentionDirective_alike_iff hms.1.1 hms.1.2 hstop, hdrop, undisputed_append]

/-! A line on its own. -/

variable (A) in
def singleParts (line : List α) : Parts α :=
  if line.isEmpty then ⟨[], []⟩ else addLine A none line ⟨[], []⟩

theorem lineParts_of_none {line : List α} (h : Backend.expandInlineChatMentions A line = none) :
    lineParts A line = singleParts A (A.strip line) := by
  rw [lineParts, h]
  rfl

theorem lineParts_of_some {line : List α} {ds : List (Directive α)}
    (h : Backend.expandInlineChatMentions A line = some ds) : lineParts A line = ⟨ds, []⟩ := by
  have hne : (A.strip line).isEmpty = false := by
    cases hstrip : A.strip line with
    | nil =>
      rw [← expandInlineChatMentions_strip, hstrip] at h
      cases h
    | cons c cs => rfl
  rw [lineParts, hne, h]
  rfl

theorem singleParts_of_ne {line : List α} (hne : line ≠ []) :
    singleParts A line =
      (parseDirective A line).elim (fun d => ⟨[d], []⟩) fun g => ⟨[], [g]⟩ := by
  have hempty : line.isEmpty = false := by simpa using hne
  rw [singleParts, hempty, if_neg Bool.false_ne_true, addLine]
  cases parseDirective A line with
  | inl d => rfl
  | inr g => rfl

theorem parseDirective_line (A : Alphabet α) (line : List α) :
    (parseDirective A line).elim Directive.rawText id = line := by
  rcases parseDirective_cases (A := A) line with ⟨d, h, hraw, -⟩ | h
  · rw [h]
    exact hraw
  · rw [h]
    rfl

theorem singleParts_alike_iff {s t : Str} :
    singleParts pythonText s = singleParts ecmaText t ↔
      s = t ∧ parseDirective pythonText s = parseDirective ecmaText s := by
  have hinj : ∀ x y : Directive Char ⊕ Str,
      x.elim (fun d => (⟨[d], []⟩ : Parts Char)) (fun g => ⟨[], [g]⟩) =
        y.elim (fun d => ⟨[d], []⟩) (fun g => ⟨[], [g]⟩) → x = y := by
    rintro (d | g) (d' | g') h <;> simp_all
  have hnil : ∀ x : Directive Char ⊕ Str,
      x.elim (fun d => (⟨[d], []⟩ : Parts Char)) (fun g => ⟨[], [g]⟩) ≠ ⟨[], []⟩ := by
    rintro (d | g) <;> simp
  constructor
  · intro h
    by_cases hs : s = []
    · subst hs
      by_cases ht : t = []
      · subst ht
        exact ⟨rfl, rfl⟩
      · rw [singleParts_of_ne ht] at h
        exact absurd h.symm (hnil _)
    · by_cases ht : t = []
      · subst ht
        rw [singleParts_of_ne hs] at h
        exact absurd h (hnil _)
      · rw [singleParts_of_ne hs, singleParts_of_ne ht] at h
        have hparse := hinj _ _ h
        have hst : s = t := by
          rw [← parseDirective_line pythonText s, hparse, parseDirective_line]
        exact ⟨hst, by rw [hparse, hst]⟩
  · rintro ⟨rfl, h⟩
    by_cases hs : s = []
    · subst hs
      rfl
    · rw [singleParts_of_ne hs, singleParts_of_ne hs, h]

/-- What a line without inline mentions has to be: stripped alike, and then read alike. -/
def SingleAlike (line : Str) : Prop :=
  pythonText.strip line = ecmaText.strip line ∧
    if ((cmdPattern pythonText).search line).isSome then CommandAlike (pythonText.strip line)
    else ProseAlike (pythonText.strip line)

/-- A line on which the portal's loop ends, and which both parsers read alike. -/
def LineAlike (line : Str) : Prop :=
  Portal.LoopEnds ecmaText line ∧
    if ((cmdPattern pythonText).search line).isSome then SingleAlike line
    else
      match (atTokenPattern pythonText).finditer line with
      | m :: n :: rest =>
        (∀ k ∈ m :: n :: rest, Portal.passes pythonText k = true) ∧ Undisputed (m.text ++ m.after)
      | _ => SingleAlike line

theorem search_strip (line : List α) :
    ((cmdPattern A).search (A.strip line)).isSome = ((cmdPattern A).search line).isSome := by
  obtain ⟨u, v, hl, hu, hv⟩ := strip_decompose A.isSpace line
  conv_rhs => rw [hl, Pattern.search, Pattern.finditer_surround cmdPattern_isLocal hu hv,
    List.head?_map, Option.isSome_map]
  rfl

theorem singleParts_strip_iff {line : Str} :
    singleParts pythonText (pythonText.strip line) = singleParts ecmaText (ecmaText.strip line) ↔
      SingleAlike line := by
  rw [singleParts_alike_iff, parseDirective_alike_iff, search_strip]
  rfl

theorem mentions_of_loopEnds {line : List α} (hloop : Portal.LoopEnds A line)
    (hcmd : (cmdPattern A).search line = none) :
    Backend.mentions A line = (atTokenPattern A).finditer line :=
  List.filter_eq_self.mpr (hloop.resolve_left (by simp [hcmd]))

theorem expand_of_search {line : List α} (hcmd : ((cmdPattern A).search line).isSome = true) :
    Backend.expandInlineChatMentions A line = none := by
  rw [Backend.expandInlineChatMentions, if_pos hcmd]

theorem expand_of_short {line : List α} (h : (Backend.mentions A line).length ≤ 1) :
    Backend.expandInlineChatMentions A line = none := by
  rw [Backend.expandInlineChatMentions, if_pos h, ite_self]

theorem expand_of_long {line : List α} (hcmd : (cmdPattern A).search line = none)
    (h : 2 ≤ (Backend.mentions A line).length) : Backend.expandInlineChatMentions A line =
      some (mentionDirectives A line (Backend.mentions A line)) := by
  rw [Backend.expandInlineChatMentions, hcmd, if_neg (by simp), if_neg (by omega)]

theorem length_mentionDirectives (raw : List α) (ms : List (Match α (List α))) :
    (mentionDirectives A raw ms).length = ms.length := by
  induction ms with
  | nil => rfl
  | cons m ms ih =>
    cases ms with
    | nil => rfl
    | cons n ms =>
      rw [mentionDirectives, List.length_cons, ih]
      rfl

theorem length_singleParts_directives (line : List α) :
    (singleParts A line).directives.length ≤ 1 := by
  by_cases hne : line = []
  · subst hne
    exact Nat.zero_le 1
  · rw [singleParts_of_ne hne]
    cases parseDirective A line with
    | inl d => exact Nat.le_refl 1
    | inr g => exact Nat.zero_le 1

theorem length_lineParts_directives {line : List α} (hcmd : (cmdPattern A).search line = none) :
    (lineParts A line).directives.length ≤ max 1 (Backend.mentions A line).length := by
  by_cases hshort : (Backend.mentions A line).length ≤ 1
  · rw [lineParts_of_none (expand_of_short hshort)]
    exact (length_singleParts_directives _).trans (Nat.le_max_left 1 _)
  · rw [lineParts_of_some (expand_of_long hcmd (by omega)), length_mentionDirectives]
    exact Nat.le_max_right 1 _

theorem mentionLine_alike_iff {line : Str} {m n : Match Char Str} {rest : List (Match Char Str)}
    (hcmd : (cmdPattern pythonText).search line = none)
    (hms : (atTokenPattern pythonText).finditer line = m :: n :: rest) :
    lineParts pythonText line = ⟨mentionDirectives ecmaText line (m :: n :: rest), []⟩ ↔
      (∀ k ∈ m :: n :: rest, Portal.passes pythonText k = true) ∧
        Undisputed (m.text ++ m.after) := by
  have hmentions : Backend.mentions pythonText line =
      (m :: n :: rest).filter (Portal.passes pythonText) := by
    rw [← hms]
    rfl
  by_cases hall : ∀ k ∈ m :: n :: rest, Portal.passes pythonText k = true
  · rw [List.filter_eq_self.mpr hall] at hmentions
    have hlong : 2 ≤ (Backend.mentions pythonText line).length := by simp [hmentions]
    have hparts : ∀ k ∈ m :: n :: rest,
        line = k.before ++ (k.text ++ k.after) ∧ Undisputed k.text := by
      rw [← hms]
      exact fun k hk => ⟨(Pattern.of_mem_finditer hk).1, undisputed_token hk⟩
    have hsorted : (m :: n :: rest).Pairwise fun m n => m.before ++ m.text <+: n.before := by
      rw [← hms]
      exact Pattern.pairwise_finditerFrom _ [] line
    have hdrop : line.drop m.start = m.text ++ m.after := by
      conv_lhs => rw [(hparts m List.mem_cons_self).1, Match.start, List.drop_left]
    rw [lineParts_of_some (expand_of_long hcmd hlong), hmentions, and_iff_right hall, ← hdrop,
      ← mentionDirectives_alike_iff hparts hsorted]
    simp
  · refine iff_of_false (fun h => ?_) fun h => hall h.1
    have hfew : ((m :: n :: rest).filter (Portal.passes pythonText)).length <
        (m :: n :: rest).length :=
      List.length_filter_lt_length_iff_exists.mpr (by simpa only [not_forall, exists_prop] using hall)
    have hle := length_lineParts_directives hcmd
    rw [h, length_mentionDirectives, hmentions] at hle
    simp only [List.length_cons] at hfew hle
    omega

/-- Where the portal's loop ends, both parsers add the same to the turn exactly for a line that
is alike. -/
theorem lineParts_alike_iff {line : Str} (hloop : Portal.LoopEnds ecmaText line) :
    lineParts pythonText line = lineParts ecmaText line ↔ LineAlike line := by
  have hcmds : cmdPattern ecmaText = cmdPattern pythonText := rfl
  have htokens : atTokenPattern ecmaText = atTokenPattern pythonText := rfl
  rw [LineAlike, and_iff_right hloop]
  cases hcmd : (cmdPattern pythonText).search line with
  | some m =>
    have hsome : ((cmdPattern pythonText).search line).isSome = true := by rw [hcmd]; rfl
    rw [lineParts_of_none (expand_of_search hsome),
      lineParts_of_none (A := ecmaText) (expand_of_search hsome), singleParts_strip_iff]
    simp
  | none =>
    have hecma := mentions_of_loopEnds hloop hcmd
    rw [htokens] at hecma
    have hle : (Backend.mentions pythonText line).length ≤
        ((atTokenPattern pythonText).finditer line).length := List.length_filter_le _ _
    rw [Option.isSome_none, if_neg Bool.false_ne_true]
    split
    · rename_i m n rest hms
      rw [lineParts_of_some (expand_of_long (A := ecmaText) hcmd (by rw [hecma, hms]; simp)), hecma,
        hms]
      exact mentionLine_alike_iff hcmd hms
    · rename_i hshort
      have hlen : ((atTokenPattern pythonText).finditer line).length ≤ 1 := by
        match hms : (atTokenPattern pythonText).finditer line with
        | [] => exact Nat.zero_le 1
        | [m] => exact Nat.le_refl 1
        | m :: n :: rest => exact absurd hms (hshort m n rest)
      rw [lineParts_of_none (expand_of_short (by omega)),
        lineParts_of_none (A := ecmaText) (expand_of_short (by rw [hecma]; exact hlen)),
        singleParts_strip_iff]

end Eyot.Slash
