import Eyot.Data.Utf16
import Eyot.Slash.Backend
import Eyot.Slash.Portal
import Mathlib.Data.List.Find

/-! Parsing what a text is spelled as gives what parsing the text gives, spelled. -/

namespace Eyot.Slash

open Scan

variable {α β : Type}

def ContentRef.spell (e : Spelling α β) (ref : ContentRef α) : ContentRef β :=
  ⟨ref.scope, ref.path.map e.text⟩

def Directive.spell (e : Spelling α β) (d : Directive α) : Directive β where
  targetEntity := d.targetEntity.map e.text
  cmd := e.text d.cmd
  args := d.args.map e.text
  contentRef := d.contentRef.map (ContentRef.spell e)
  rawText := e.text d.rawText

def Turn.spell (e : Spelling α β) (turn : Turn α) : Turn β where
  directives := turn.directives.map (Directive.spell e)
  generalText := turn.generalText.map e.text

section Injective

variable {e : Spelling α β} (h : Function.Injective e.text)

include h

theorem ContentRef.spell_injective : Function.Injective (ContentRef.spell e) := by
  rintro ⟨s, p⟩ ⟨s', p'⟩ heq
  obtain ⟨hs, hp⟩ := ContentRef.mk.inj heq
  obtain rfl : s = s' := hs
  obtain rfl : p = p' := Option.map_injective h hp
  rfl

theorem Directive.spell_injective : Function.Injective (Directive.spell e) := by
  rintro ⟨t, c, a, r, w⟩ ⟨t', c', a', r', w'⟩ heq
  obtain ⟨ht, hc, ha, hr, hw⟩ := Directive.mk.inj heq
  obtain rfl : t = t' := Option.map_injective h ht
  obtain rfl : c = c' := h hc
  obtain rfl : a = a' := List.map_injective_iff.mpr h ha
  obtain rfl : r = r' := Option.map_injective (ContentRef.spell_injective h) hr
  obtain rfl : w = w' := h hw
  rfl

theorem Turn.spell_injective : Function.Injective (Turn.spell e) := by
  rintro ⟨ds, g⟩ ⟨ds', g'⟩ heq
  obtain ⟨hds, hg⟩ := Turn.mk.inj heq
  obtain rfl : ds = ds' := List.map_injective_iff.mpr (Directive.spell_injective h) hds
  obtain rfl : g = g' := Option.map_injective h hg
  rfl

end Injective

variable {A : Alphabet α} {B : Alphabet β} {e : Spelling α β}

theorem agrees_isSlug (h : Spells A B e) : e.Agrees (isSlug A) (isSlug B) :=
  h.agrees_code (f := fun n => 97 ≤ n && n ≤ 122 || 65 ≤ n && n ≤ 90 || 48 ≤ n && n ≤ 57 ||
      n = '_'.toNat || n = '-'.toNat) fun n hn => by
    have hunder : '_'.toNat = 95 := rfl
    have hdash : '-'.toNat = 45 := rfl
    simp only [Bool.or_eq_false_iff, Bool.and_eq_false_iff, decide_eq_false_iff_not]
    omega

theorem agrees_isCmdTail (h : Spells A B e) : e.Agrees (isCmdTail A) (isCmdTail B) :=
  h.agrees_code (f := fun n => 97 ≤ n && n ≤ 122 || 48 ≤ n && n ≤ 57 || n = '-'.toNat) fun n hn => by
    have hdash : '-'.toNat = 45 := rfl
    simp only [Bool.or_eq_false_iff, Bool.and_eq_false_iff, decide_eq_false_iff_not]
    omega

theorem spell_strip (h : Spells A B e) (l : List α) : B.strip (e.text l) = e.text (A.strip l) :=
  h.space.strip l

theorem spell_words (h : Spells A B e) (l : List α) : B.words (e.text l) = (A.words l).map e.text :=
  h.space.words h.space_one l

theorem spell_lines (h : Spells A B e) (l : List α) : B.lines (e.text l) = (A.lines l).map e.text := by
  refine (h.agrees_is (c := '\n') (by decide)).splitOnP (fun a ha => ?_) l
  have hcode : A.code a = 10 := of_decide_eq_true ha
  obtain ⟨b, hs, -⟩ := h.ascii a (by omega)
  exact ⟨b, hs⟩

theorem scopes_ascii : ∀ s ∈ contentRefScopes, ∀ c ∈ s.toList, c.toNat < 128 := by
  simp [contentRefScopes]

theorem codes_ascii {s : String} (hs : s ∈ contentRefScopes) :
    ∀ n ∈ s.toList.map Char.toNat, n < 128 := by
  intro n hn
  obtain ⟨c, hc, rfl⟩ := List.mem_map.mp hn
  exact scopes_ascii s hs c hc

theorem isContentRefScope_text (h : Spells A B e) (slug : List α) :
    isContentRefScope B (e.text slug) = isContentRefScope A slug := by
  rw [Bool.eq_iff_iff, isContentRefScope, isContentRefScope, List.any_eq_true, List.any_eq_true]
  refine exists_congr fun s => and_congr_right fun hs => ?_
  unfold Alphabet.reads
  rw [decide_eq_true_eq, decide_eq_true_eq]
  exact h.map_code (codes_ascii hs) slug

theorem startsWith_text (h : Spells A B e) {s : String} (hs : s ∈ contentRefScopes) (l : List α) :
    B.startsWith s (e.text l) = A.startsWith s l := by
  have hlen : (s.toList.map Char.toNat).length = s.length := by
    rw [List.length_map, String.length_toList]
  have hmap := h.map_code_take (codes_ascii hs) l
  rw [hlen] at hmap
  unfold Alphabet.startsWith Alphabet.reads
  rw [Bool.eq_iff_iff, decide_eq_true_eq, decide_eq_true_eq]
  exact hmap

/-! The patterns. -/

theorem cmdPattern_none {c : α} (hc : A.is '/' c = false) (l : List α) :
    (cmdPattern A).atHead (c :: l) = none := by
  cases l <;> simp [cmdPattern, hc]

theorem atTokenPattern_none {c : α} (hc : A.is '@' c = false) (l : List α) :
    (atTokenPattern A).atHead (c :: l) = none := by
  simp [atTokenPattern, hc]

theorem contentRefPattern_none {c : α} (hc : A.is '@' c = false) (l : List α) :
    (contentRefPattern A).atHead (c :: l) = none := by
  simp [contentRefPattern, hc]

theorem not_is_of_beyond {b : β} (hb : 128 ≤ B.code b) {c : Char} (hc : c.toNat < 128) :
    B.is c b = false :=
  decide_eq_false (by omega)

theorem follows_cmdPattern (h : Spells A B e) : e.Follows (cmdPattern A) (cmdPattern B) e.text where
  inside a u b v rest hs hu :=
    cmdPattern_none (not_is_of_beyond (h.beyond_inside hs hu) (by decide)) rest
  atHead l := by
    cases l with
    | nil => rfl
    | cons c cs =>
      rcases h.spell_is (c := '/') (by decide) c with ⟨b, hs, hA, hB⟩ | ⟨b, bs, hs, hA, hB⟩
      · cases cs with
        | nil => simp [cmdPattern, hs]
        | cons d ds =>
          rcases h.spell_cases (f := fun n => 97 ≤ n && n ≤ 122) (by
              intro n hn
              simp only [Bool.and_eq_false_iff, decide_eq_false_iff_not]
              omega) d with ⟨b', hs', hA', hB'⟩ | ⟨b', bs', hs', hA', hB'⟩
          · have hlowerA : A.isLower d = true := hA'
            have hlowerB : B.isLower b' = true := hB'
            have htake : (c :: d :: ds).take (2 + (ds.takeWhile (isCmdTail A)).length) =
                c :: d :: ds.takeWhile (isCmdTail A) := by
              rw [Nat.add_comm, List.take_succ_cons, List.take_succ_cons,
                ← List.prefix_iff_eq_take.mp (List.takeWhile_prefix _)]
            simp only [cmdPattern, Spelling.text_cons, hs, hs', List.singleton_append, hA, hB,
              hlowerA, hlowerB, Bool.and_self, if_true, (agrees_isCmdTail h).takeWhile,
              Option.map_some, htake, List.length_cons]
            rw [Nat.add_comm 2]
          · have hlowerA : A.isLower d = false := hA'
            have hlowerB : B.isLower b' = false := hB'
            simp [cmdPattern, hs, hs', hlowerA, hlowerB]
      · rw [cmdPattern_none hA, Spelling.text_cons, hs, List.cons_append, cmdPattern_none hB]
        rfl

theorem follows_atTokenPattern (h : Spells A B e) :
    e.Follows (atTokenPattern A) (atTokenPattern B) e.text where
  inside a u b v rest hs hu :=
    atTokenPattern_none (not_is_of_beyond (h.beyond_inside hs hu) (by decide)) rest
  atHead l := by
    cases l with
    | nil => rfl
    | cons c cs =>
      rcases h.spell_is (c := '@') (by decide) c with ⟨b, hs, hA, hB⟩ | ⟨b, bs, hs, hA, hB⟩
      · have htake : (c :: cs).take (1 + (cs.takeWhile (isSlug A)).length) =
            c :: cs.takeWhile (isSlug A) := by
          rw [Nat.add_comm, List.take_succ_cons,
            ← List.prefix_iff_eq_take.mp (List.takeWhile_prefix _)]
        have hempty : (e.text (cs.takeWhile (isSlug A))).isEmpty =
            (cs.takeWhile (isSlug A)).isEmpty := by
          rw [Bool.eq_iff_iff, List.isEmpty_iff, List.isEmpty_iff]
          exact e.text_eq_nil
        simp only [atTokenPattern, Spelling.text_cons, hs, List.singleton_append, hA, hB,
          (agrees_isSlug h).takeWhile, hempty]
        split
        · simp only [Option.map_some, htake, Spelling.text_cons, hs, List.singleton_append,
            List.length_cons]
          rw [Nat.add_comm 1]
        · rfl
      · rw [atTokenPattern_none hA, Spelling.text_cons, hs, List.cons_append,
          atTokenPattern_none hB]
        rfl

theorem matchPath_text (h : Spells A B e) (l : List α) :
    matchPath B (e.text l) = (matchPath A l).map e.text := by
  cases l with
  | nil => rfl
  | cons c cs =>
    rcases h.spell_is (c := ':') (by decide) c with ⟨b, hs, hA, hB⟩ | ⟨b, bs, hs, hA, hB⟩
    · have hempty : (e.text (cs.takeWhile fun a => !A.isSpace a)).isEmpty =
          (cs.takeWhile fun a => !A.isSpace a).isEmpty := by
        rw [Bool.eq_iff_iff, List.isEmpty_iff, List.isEmpty_iff]
        exact e.text_eq_nil
      simp only [matchPath, Spelling.text_cons, hs, List.singleton_append, hA, hB,
        h.space.not.takeWhile, hempty]
      split
      · rfl
      · rfl
    · simp [matchPath, hs, hA, hB]

theorem length_text_matchPath (h : Spells A B e) (l : List α) :
    (e.text (l.take (pathLength (matchPath A l)))).length =
      pathLength ((matchPath A l).map e.text) := by
  cases l with
  | nil => rfl
  | cons c cs =>
    rcases h.spell_is (c := ':') (by decide) c with ⟨b, hs, hA, -⟩ | ⟨b, bs, -, hA, -⟩
    · rw [matchPath]
      split
      · have htake : (c :: cs).take (1 + (cs.takeWhile fun a => !A.isSpace a).length) =
            c :: cs.takeWhile fun a => !A.isSpace a := by
          rw [Nat.add_comm, List.take_succ_cons,
            ← List.prefix_iff_eq_take.mp (List.takeWhile_prefix _)]
        simp only [pathLength, htake, Option.map_some, Spelling.text_cons, hs,
          List.singleton_append, List.length_cons]
        rw [Nat.add_comm]
      · rfl
    · simp [matchPath, hA, pathLength]

/-- A scope at the head of a text is spelled letter by letter. -/
theorem text_startsWith (h : Spells A B e) {s : String} (hs : s ∈ contentRefScopes) {l : List α}
    (hstart : A.startsWith s l = true) : (e.text (l.take s.length)).length = s.length := by
  have hcodes : (l.take s.length).map A.code = s.toList.map Char.toNat := of_decide_eq_true hstart
  rw [h.text_length, List.length_take, Nat.min_eq_left (Alphabet.startsWith_length hstart)]
  intro a ha
  have hcode := List.mem_map_of_mem (f := A.code) ha
  rw [hcodes] at hcode
  exact codes_ascii hs _ hcode

def spellCapture (e : Spelling α β) (r : String × Option (List α)) : String × Option (List β) :=
  (r.1, r.2.map e.text)

theorem follows_contentRefPattern (h : Spells A B e) :
    e.Follows (contentRefPattern A) (contentRefPattern B) (spellCapture e) where
  inside a u b v rest hs hu :=
    contentRefPattern_none (not_is_of_beyond (h.beyond_inside hs hu) (by decide)) rest
  atHead l := by
    cases l with
    | nil => rfl
    | cons c cs =>
      rcases h.spell_is (c := '@') (by decide) c with ⟨b, hs, hA, hB⟩ | ⟨b, bs, hs, hA, hB⟩
      · have hfind : (contentRefScopes.find? fun s => B.startsWith s (e.text cs)) =
            contentRefScopes.find? fun s => A.startsWith s cs :=
          List.find?_congr fun s hs => startsWith_text h hs cs
        simp only [contentRefPattern, Spelling.text_cons, hs, List.singleton_append, hA, hB,
          if_true, hfind, Option.map_map]
        cases hscope : contentRefScopes.find? fun s => A.startsWith s cs with
        | none => rfl
        | some s =>
          have hmem := List.mem_of_find?_eq_some hscope
          have hlen := text_startsWith h hmem
            (List.find?_some (p := fun s => A.startsWith s cs) hscope)
          have hsplit : e.text cs = e.text (cs.take s.length) ++ e.text (cs.drop s.length) := by
            rw [← Spelling.text_append, List.take_append_drop]
          have hdrop : (e.text cs).drop s.length = e.text (cs.drop s.length) := by
            conv_lhs => rw [hsplit]
            exact List.drop_left' hlen
          have htake : (c :: cs).take (1 + s.length + pathLength (matchPath A (cs.drop s.length))) =
              c :: (cs.take s.length ++
                (cs.drop s.length).take (pathLength (matchPath A (cs.drop s.length)))) := by
            rw [Nat.add_assoc, Nat.add_comm 1, List.take_succ_cons, List.take_add]
          simp only [Option.map_some, Function.comp_apply, hdrop, matchPath_text h, htake,
            Spelling.text_cons, Spelling.text_append, hs, List.singleton_append, List.length_cons,
            List.length_append, hlen, length_text_matchPath h, spellCapture]
          rw [Nat.add_comm 1 s.length, Nat.add_right_comm]
      · rw [contentRefPattern_none hA, Spelling.text_cons, hs, List.cons_append,
          contentRefPattern_none hB]
        rfl

/-! The parser. -/

theorem matchTarget_text (h : Spells A B e) (line : List α) :
    matchTarget B (e.text line) = (matchTarget A line).map fun r => (e.text r.1, e.text r.2) := by
  cases line with
  | nil => rfl
  | cons c cs =>
    rcases h.spell_is (c := '@') (by decide) c with ⟨b, hs, hA, hB⟩ | ⟨b, bs, hs, hA, hB⟩
    · have hempty : (e.text (cs.takeWhile (isSlug A))).isEmpty =
          (cs.takeWhile (isSlug A)).isEmpty := by
        rw [Bool.eq_iff_iff, List.isEmpty_iff, List.isEmpty_iff]
        exact e.text_eq_nil
      simp only [matchTarget, Spelling.text_cons, hs, List.singleton_append, hA, hB,
        (agrees_isSlug h).takeWhile, (agrees_isSlug h).dropWhile, hempty]
      split
      · cases hrest : cs.dropWhile (isSlug A) with
        | nil => rfl
        | cons s rest =>
          cases hspace : A.isSpace s with
          | true =>
            obtain ⟨t, ht⟩ := h.space_one s hspace
            have hspace' : B.isSpace t = true := (h.space s t (by simp [ht])).trans hspace
            simp only [Spelling.text_cons, ht, List.singleton_append, hspace, hspace', if_true,
              h.space.dropWhile, Option.map_some]
          | false =>
            cases ht : e.spell s with
            | nil => exact absurd ht (e.spell_ne s)
            | cons t ts =>
              have hspace' : B.isSpace t = false := (h.space s t (by simp [ht])).trans hspace
              simp [ht, hspace, hspace']
      · rfl
    · simp [matchTarget, hs, hA, hB]

/-- `parse_directive` behind the target. -/
theorem parseDirective_eq (line : List α) :
    parseDirective A line =
      match (cmdPattern A).search ((matchTarget A line).elim line Prod.snd) with
      | none =>
        match matchTarget A line with
        | some r => .inl ⟨some r.1, [], A.words r.2, none, line⟩
        | none => .inr line
      | some m => .inl
          { targetEntity := (matchTarget A line).map Prod.fst
            cmd := A.text "/" ++ m.groups
            args := A.words ((contentRefPattern A).sub (m.before ++ m.after))
            contentRef := ((contentRefPattern A).captures (m.before ++ m.after)).getLast?.map
              fun r => ⟨normalizeScope r.1, r.2⟩
            rawText := line } := by
  have hargs : ∀ l : List α, A.words (if (((contentRefPattern A).captures l).getLast?.map
      fun r => (⟨normalizeScope r.1, r.2⟩ : ContentRef α)).isSome then
        A.strip ((contentRefPattern A).sub l) else l) = A.words ((contentRefPattern A).sub l) := by
    intro l
    split
    · exact words_strip _
    · rename_i hnone
      rw [Option.isSome_map, Bool.not_eq_true, Option.isSome_eq_false_iff, Option.isNone_iff_eq_none,
        List.getLast?_eq_none_iff] at hnone
      rw [Pattern.sub_eq_self hnone]
  unfold parseDirective
  cases matchTarget A line with
  | none =>
    dsimp only [Option.elim]
    cases (cmdPattern A).search line with
    | none => rfl
    | some m => exact congrArg (fun args => Sum.inl (Directive.mk _ _ args _ _)) (hargs _)
  | some r =>
    dsimp only [Option.elim]
    cases (cmdPattern A).search r.2 with
    | none => rfl
    | some m => exact congrArg (fun args => Sum.inl (Directive.mk _ _ args _ _)) (hargs _)

theorem parseDirective_text (h : Spells A B e) (line : List α) :
    parseDirective B (e.text line) =
      (parseDirective A line).map (Directive.spell e) e.text := by
  have htarget : ((matchTarget B (e.text line)).elim (e.text line) Prod.snd) =
      e.text ((matchTarget A line).elim line Prod.snd) := by
    rw [matchTarget_text h]
    cases matchTarget A line with
    | none => rfl
    | some r => rfl
  rw [parseDirective_eq, parseDirective_eq, htarget, (follows_cmdPattern h).search,
    matchTarget_text h]
  cases (cmdPattern A).search ((matchTarget A line).elim line Prod.snd) with
  | none =>
    cases matchTarget A line with
    | none => rfl
    | some r =>
      simp [Directive.spell, spell_words h]
  | some m =>
    have hslash : B.text "/" = e.text (A.text "/") := (h.text_ascii (by simp)).symm
    have hjoin : e.text m.before ++ e.text m.after = e.text (m.before ++ m.after) :=
      (e.text_append _ _).symm
    simp only [Option.map_some, Spelling.mapMatch]
    rw [hjoin, (follows_contentRefPattern h).sub, (follows_contentRefPattern h).captures,
      spell_words h, hslash, ← Spelling.text_append, List.getLast?_map]
    simp only [Sum.map_inl, Directive.spell, Option.map_map]
    rfl

theorem passes_mapMatch (h : Spells A B e) (m : Match α (List α)) :
    Portal.passes B (e.mapMatch e.text m) = Portal.passes A m := by
  simp only [Portal.passes, Spelling.mapMatch, isContentRefScope_text h, h.space.getLast?_all]

theorem mentions_text (h : Spells A B e) (raw : List α) :
    Backend.mentions B (e.text raw) = (Backend.mentions A raw).map (e.mapMatch e.text) := by
  rw [Backend.mentions, (follows_atTokenPattern h).finditer, List.filter_map]
  exact congrArg _ (List.filter_congr fun m _ => passes_mapMatch h m)

theorem mentionDirective_text (h : Spells A B e) {raw : List α} {m : Match α (List α)} {stop : Nat}
    (hm : raw = m.before ++ (m.text ++ m.after)) (hstop : m.stop ≤ stop) :
    mentionDirective B (e.text raw) (e.mapMatch e.text m) (e.text (raw.take stop)).length =
      (mentionDirective A raw m stop).spell e := by
  have hbefore : (e.mapMatch e.text m).start = (e.text (raw.take m.start)).length := by
    rw [hm, Match.start, Match.start, List.take_left]
    rfl
  have htext : (e.mapMatch e.text m).stop = (e.text (raw.take m.stop)).length := by
    have htake : raw.take m.stop = m.before ++ m.text := by
      rw [hm, Match.stop, ← List.length_append, ← List.append_assoc, List.take_left]
    rw [htake, Spelling.text_append, List.length_append]
    rfl
  have hstart : m.start ≤ stop := (Nat.le_add_right _ _).trans hstop
  unfold mentionDirective Directive.spell
  rw [hbefore, htext, Spelling.slice_text hstart, Spelling.slice_text hstop, spell_strip h,
    spell_strip h, spell_words h]
  rfl

theorem mentionDirectives_text (h : Spells A B e) {raw : List α} {ms : List (Match α (List α))}
    (hms : ∀ m ∈ ms, raw = m.before ++ (m.text ++ m.after))
    (hsorted : ms.Pairwise fun m n => m.before ++ m.text <+: n.before) :
    mentionDirectives B (e.text raw) (ms.map (e.mapMatch e.text)) =
      (mentionDirectives A raw ms).map (Directive.spell e) := by
  induction ms with
  | nil => rfl
  | cons m ms ih =>
    rw [List.forall_mem_cons] at hms
    rw [List.pairwise_cons] at hsorted
    have hm := hms.1
    cases ms with
    | nil =>
      have hstop : m.stop ≤ raw.length := by
        rw [hm, Match.stop, List.length_append, List.length_append]
        omega
      have hd := mentionDirective_text h hm hstop
      rw [List.take_length] at hd
      exact congrArg (· :: []) hd
    | cons next rest =>
      have hstop : m.stop ≤ next.start := by
        have := (hsorted.1 next List.mem_cons_self).length_le
        rwa [List.length_append] at this
      have hnext : (e.mapMatch e.text next).start = (e.text (raw.take next.start)).length := by
        conv_rhs => rw [hms.2 next List.mem_cons_self, Match.start, List.take_left]
        rfl
      have hd := mentionDirective_text h hm hstop
      rw [← hnext] at hd
      exact congrArg₂ (· :: ·) hd (ih hms.2 hsorted.2)

theorem expandInlineChatMentions_text (h : Spells A B e) (raw : List α) :
    Backend.expandInlineChatMentions B (e.text raw) =
      (Backend.expandInlineChatMentions A raw).map (List.map (Directive.spell e)) := by
  have hms : ∀ m ∈ Backend.mentions A raw, raw = m.before ++ (m.text ++ m.after) :=
    fun m hm => (Pattern.of_mem_finditer (List.mem_of_mem_filter hm)).1
  have hsorted : (Backend.mentions A raw).Pairwise fun m n => m.before ++ m.text <+: n.before :=
    List.Pairwise.filter _ (Pattern.pairwise_finditerFrom (atTokenPattern A) [] raw)
  unfold Backend.expandInlineChatMentions
  rw [(follows_cmdPattern h).search, Option.isSome_map, mentions_text h, List.length_map,
    mentionDirectives_text h hms hsorted]
  split
  · rfl
  split
  · rfl
  · rfl

def Parts.spell (e : Spelling α β) (parts : Parts α) : Parts β :=
  ⟨parts.directives.map (Directive.spell e), parts.generalParts.map e.text⟩

theorem addLine_text (h : Spells A B e) (expanded : Option (List (Directive α))) (line : List α)
    (parts : Parts α) :
    addLine B (expanded.map (List.map (Directive.spell e))) (e.text line) (parts.spell e) =
      (addLine A expanded line parts).spell e := by
  cases expanded with
  | some ds => simp [addLine, Parts.spell]
  | none =>
    simp only [addLine, Option.map_none, parseDirective_text h]
    cases parseDirective A line with
    | inl d => simp [Parts.spell]
    | inr g => simp [Parts.spell]

theorem parseLines_text (h : Spells A B e) (parts : Parts α) (ls : List (List α)) :
    Backend.parseLines B (parts.spell e) (ls.map e.text) =
      (Backend.parseLines A parts ls).spell e := by
  induction ls generalizing parts with
  | nil => rfl
  | cons line ls ih =>
    have hempty : (e.text (A.strip line)).isEmpty = (A.strip line).isEmpty := by
      rw [Bool.eq_iff_iff, List.isEmpty_iff, List.isEmpty_iff]
      exact e.text_eq_nil
    rw [List.map_cons, Backend.parseLines, Backend.parseLines]
    simp only [spell_strip h, hempty, expandInlineChatMentions_text h, addLine_text h, ih]
    split
    · rfl
    · rfl

theorem parseTurn_text (h : Spells A B e) (rawText : List α) :
    Backend.parseTurn B (e.text rawText) = (Backend.parseTurn A rawText).spell e := by
  have hparts := parseLines_text h ⟨[], []⟩ (A.lines (A.strip rawText))
  rw [Backend.parseTurn, spell_strip h, spell_lines h]
  have hnil : (⟨[], []⟩ : Parts α).spell e = ⟨[], []⟩ := rfl
  rw [hnil] at hparts
  rw [hparts, Backend.parseTurn]
  generalize Backend.parseLines A ⟨[], []⟩ (A.lines (A.strip rawText)) = parts
  have hnewline : B.text "\n" = e.text (A.text "\n") := (h.text_ascii (by simp)).symm
  unfold Parts.turn Turn.spell Parts.spell
  simp only [List.isEmpty_map, Alphabet.join, hnewline, ← Spelling.text_intercalate]
  split
  · rfl
  · rfl

theorem loopEnds_text (h : Spells A B e) (stripped : List α) :
    Portal.LoopEnds B (e.text stripped) ↔ Portal.LoopEnds A stripped := by
  unfold Portal.LoopEnds
  rw [(follows_cmdPattern h).search, Option.isSome_map, (follows_atTokenPattern h).finditer]
  simp only [List.forall_mem_map, passes_mapMatch h]

end Eyot.Slash
