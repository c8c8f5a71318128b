import Eyot.Slash.Grammar

/-! What becomes of the characters of a text: which directive, or the general text, holds them. -/

namespace Eyot.Slash

open Scan

variable {α : Type} (A : Alphabet α)

def visible (l : List α) : List α := l.filter fun a => !A.isSpace a

/-- The characters of `rawText` that are not white space stand, each once and in order, in the
raw texts of the directives and in the parts that make up the general text. -/
def Conserves (rawText : List α) (turn : Turn α) : Prop :=
  ∃ pieces : List (List α ⊕ List α),
    pieces.filterMap Sum.getLeft? = turn.directives.map Directive.rawText ∧
      (Parts.turn A ⟨turn.directives, pieces.filterMap Sum.getRight?⟩) = turn ∧
      pieces.flatMap (fun piece => visible A (piece.elim id id)) = visible A rawText

/-- A line that is expanded into several mentions begins with the first of them. -/
def LeadsWithMention (stripped : List α) : Prop :=
  (cmdPattern A).search stripped = none → 2 ≤ (Backend.mentions A stripped).length →
    (Backend.mentions A stripped).head?.all (·.before.isEmpty) = true

instance (stripped : List Char) : Decidable (LeadsWithMention pythonText stripped) :=
  inferInstanceAs (Decidable (_ → _ → _))

namespace Backend

/-- The pieces of one stripped line, in the order the parser adds them. -/
def linePieces (stripped : List α) : List (List α ⊕ List α) :=
  match expandInlineChatMentions A stripped with
  | some ds => ds.map fun d => .inl d.rawText
  | none => [if (parseDirective A stripped).isLeft then .inl stripped else .inr stripped]

def turnPieces (ls : List (List α)) : List (List α ⊕ List α) :=
  ls.flatMap fun line => if (A.strip line).isEmpty then [] else linePieces A (A.strip line)

/-- What the expansion of a line leaves out. -/
def leftOut (stripped : List α) : List α :=
  match expandInlineChatMentions A stripped with
  | some _ => ((mentions A stripped).head?.map Match.before).getD []
  | none => []

end Backend

variable {A}

theorem visible_append (a b : List α) : visible A (a ++ b) = visible A a ++ visible A b :=
  List.filter_append a b

theorem visible_strip (l : List α) : visible A (A.strip l) = visible A l :=
  filter_strip l

theorem visible_lines (l : List α) : (A.lines l).flatMap (visible A) = visible A l := by
  unfold Alphabet.lines
  induction l using induction_on_words (A.is '\n') with
  | hrun a ha =>
    rw [List.splitOnP_eq_singleton ha]
    simp
  | hspace a s b ha hs ih =>
    have hspace : A.isSpace s = true := A.isSpace_newline (is_iff.mp hs)
    rw [List.splitOnP_append_cons_of_forall_mem ha s hs b, List.flatMap_cons, ih, visible_append,
      visible, visible, visible, List.filter_cons_of_neg (by simp [hspace])]

theorem visible_join (ls : List (List α)) : visible A (A.join "\n" ls) = ls.flatMap (visible A) := by
  have hnewline : visible A (A.text "\n") = [] := by
    have hcode : A.code (A.ofAscii '\n') = 10 := A.code_ofAscii '\n' (by decide)
    simp [visible, Alphabet.text, A.isSpace_newline hcode]
  induction ls with
  | nil => rfl
  | cons l ls ih =>
    cases ls with
    | nil => simp [Alphabet.join]
    | cons m ls =>
      rw [Alphabet.join, List.intercalate_cons_cons, visible_append, visible_append, hnewline,
        List.append_nil, List.flatMap_cons, ← ih, Alphabet.join]

/-- A line adds its pieces. -/
theorem addLine_pieces (stripped : List α) (parts : Parts α) :
    (addLine A (Backend.expandInlineChatMentions A stripped) stripped parts).directives.map
          Directive.rawText = parts.directives.map Directive.rawText ++
        (Backend.linePieces A stripped).filterMap Sum.getLeft? ∧
      (addLine A (Backend.expandInlineChatMentions A stripped) stripped parts).generalParts =
        parts.generalParts ++ (Backend.linePieces A stripped).filterMap Sum.getRight? := by
  unfold addLine Backend.linePieces
  cases Backend.expandInlineChatMentions A stripped with
  | some ds => simp [List.filterMap_map, Function.comp_def]
  | none =>
    rcases parseDirective_cases (A := A) stripped with ⟨d, hparse, hraw, -⟩ | hparse
    · simp [hparse, hraw]
    · simp [hparse]

theorem parseLines_pieces (parts : Parts α) (ls : List (List α)) :
    (Backend.parseLines A parts ls).directives.map Directive.rawText =
        parts.directives.map Directive.rawText ++
          (Backend.turnPieces A ls).filterMap Sum.getLeft? ∧
      (Backend.parseLines A parts ls).generalParts =
        parts.generalParts ++ (Backend.turnPieces A ls).filterMap Sum.getRight? := by
  induction ls generalizing parts with
  | nil => simp [Backend.parseLines, Backend.turnPieces]
  | cons line ls ih =>
    rw [Backend.parseLines, Backend.turnPieces, List.flatMap_cons, List.filterMap_append,
      List.filterMap_append]
    cases hempty : (A.strip line).isEmpty with
    | true =>
      simp only [if_true, List.filterMap_nil, List.nil_append]
      exact ih parts
    | false =>
      simp only [Bool.false_eq_true, if_false]
      obtain ⟨hdirectives, hgeneral⟩ := addLine_pieces (A.strip line) parts
      have hrest := ih (addLine A (Backend.expandInlineChatMentions A (A.strip line)) (A.strip line) parts)
      rw [hdirectives, hgeneral, List.append_assoc, List.append_assoc] at hrest
      exact hrest

/-! The slices between mentions. -/

theorem visible_mentionDirectives (raw : List α) {m : Match α (List α)} {ms : List (Match α (List α))}
    (hsorted : (m :: ms).Pairwise fun m n => m.start ≤ n.start)
    (hbound : ∀ n ∈ m :: ms, n.start ≤ raw.length) :
    (mentionDirectives A raw (m :: ms)).flatMap (fun d => visible A d.rawText) =
      visible A (raw.drop m.start) := by
  induction ms generalizing m with
  | nil =>
    simp only [mentionDirectives, mentionDirective, List.flatMap_cons, List.flatMap_nil,
      List.append_nil, visible_strip, slice, List.take_length]
  | cons n ms ih =>
    rw [List.pairwise_cons] at hsorted
    rw [List.forall_mem_cons] at hbound
    rw [mentionDirectives, List.flatMap_cons, ih hsorted.2 hbound.2, mentionDirective, visible_strip,
      ← visible_append]
    have hsplice := slice_append_slice raw (hsorted.1 n List.mem_cons_self)
      (hbound.2 n List.mem_cons_self)
    rw [slice, slice, slice, List.take_length] at hsplice
    rw [slice, hsplice]

theorem mentions_sorted (raw : List α) :
    (Backend.mentions A raw).Pairwise fun m n => m.start ≤ n.start := by
  refine (List.Pairwise.filter _ (Pattern.pairwise_finditerFrom (atTokenPattern A) [] raw)).imp ?_
  intro m n h
  have := h.length_le
  rw [List.length_append] at this
  simp only [Match.start]
  omega

theorem mentions_bound {raw : List α} {m : Match α (List α)} (h : m ∈ Backend.mentions A raw) :
    raw = m.before ++ (m.text ++ m.after) :=
  (Pattern.of_mem_finditer (List.mem_of_mem_filter h)).1

theorem visible_linePieces (stripped : List α) :
    visible A (Backend.leftOut A stripped) ++
        (Backend.linePieces A stripped).flatMap (fun piece => visible A (piece.elim id id)) =
      visible A stripped := by
  rw [Backend.leftOut, Backend.linePieces]
  cases hexp : Backend.expandInlineChatMentions A stripped with
  | none => cases (parseDirective A stripped).isLeft <;> simp [visible]
  | some ds =>
    unfold Backend.expandInlineChatMentions at hexp
    split at hexp
    · cases hexp
    · split at hexp
      · cases hexp
      · rename_i hlen
        obtain rfl := Option.some.inj hexp
        cases hms : Backend.mentions A stripped with
        | nil => simp [hms] at hlen
        | cons m ms =>
          have hraw := mentions_bound (hms ▸ List.mem_cons_self : m ∈ Backend.mentions A stripped)
          have hsorted := mentions_sorted (A := A) stripped
          rw [hms] at hsorted
          have hbound : ∀ n ∈ m :: ms, n.start ≤ stripped.length := by
            intro n hn
            have := congrArg List.length (mentions_bound (hms ▸ hn : n ∈ Backend.mentions A stripped))
            rw [List.length_append] at this
            simp only [Match.start]
            omega
          have hpieces := visible_mentionDirectives (A := A) stripped hsorted hbound
          simp only [List.flatMap_map, Sum.elim_inl, id_eq]
          rw [hpieces, ← visible_append]
          congr 1
          conv_rhs => rw [hraw]
          simp only [List.head?_cons, Option.map_some, Option.getD_some, Match.start]
          congr 1
          conv_lhs => rw [hraw]
          rw [List.drop_left]

theorem visible_eq_nil {l : List α} (hhead : ∀ c, l.head? = some c → A.isSpace c = false)
    (h : visible A l = []) : l = [] := by
  cases l with
  | nil => rfl
  | cons c l => simp [visible, hhead c rfl] at h

theorem leftOut_isPrefix (stripped : List α) : Backend.leftOut A stripped <+: stripped := by
  unfold Backend.leftOut
  split
  · cases hms : Backend.mentions A stripped with
    | nil => exact List.nil_prefix
    | cons m ms =>
      exact ⟨_, (mentions_bound (hms ▸ List.mem_cons_self : m ∈ Backend.mentions A stripped)).symm⟩
  · exact List.nil_prefix

theorem leftOut_eq_nil (line : List α) :
    Backend.leftOut A (A.strip line) = [] ↔ visible A (Backend.leftOut A (A.strip line)) = [] := by
  refine ⟨fun h => by rw [h]; rfl, visible_eq_nil fun c hc => ?_⟩
  obtain ⟨rest, hrest⟩ := leftOut_isPrefix (A := A) (A.strip line)
  apply strip_head (l := line)
  change (A.strip line).head? = some c
  rw [← hrest, List.head?_append, hc]
  rfl

/-- The pieces of a line hold all of it but what the expansion leaves out. -/
theorem visible_turnPieces_line (line : List α) :
    visible A (Backend.leftOut A (A.strip line)) ++
        (Backend.turnPieces A [line]).flatMap (fun piece => visible A (piece.elim id id)) =
      visible A line := by
  rw [Backend.turnPieces, List.flatMap_singleton, ← visible_strip line]
  cases hempty : (A.strip line).isEmpty with
  | true =>
    rw [List.isEmpty_iff] at hempty
    have hnil : Backend.leftOut A ([] : List α) = [] :=
      List.prefix_nil.mp (leftOut_isPrefix [])
    simp [hempty, hnil, visible]
  | false =>
    rw [if_neg (by simp)]
    exact visible_linePieces _

theorem turnPieces_eq_flatMap (ls : List (List α)) :
    Backend.turnPieces A ls = ls.flatMap fun line => Backend.turnPieces A [line] := by
  simp [Backend.turnPieces]

theorem visible_generalText (ds : List (Directive α)) (gs : List (List α)) :
    ((Parts.turn A ⟨ds, gs⟩).generalText.map (visible A)).getD [] = gs.flatMap (visible A) := by
  cases gs with
  | nil => rfl
  | cons g gs => simp [Parts.turn, visible_join]

theorem visible_length_pieces (pieces : List (List α ⊕ List α)) :
    (pieces.flatMap fun piece => visible A (piece.elim id id)).length =
      ((pieces.filterMap Sum.getLeft?).flatMap (visible A)).length +
        ((pieces.filterMap Sum.getRight?).flatMap (visible A)).length := by
  induction pieces with
  | nil => rfl
  | cons piece pieces ih =>
    rw [List.flatMap_cons, List.length_append, ih]
    cases piece with
    | inl l =>
      simp only [List.filterMap_cons, Sum.getLeft?, Sum.getRight?, List.flatMap_cons,
        List.length_append, Sum.elim_inl, id_eq]
      omega
    | inr g =>
      simp only [List.filterMap_cons, Sum.getLeft?, Sum.getRight?, List.flatMap_cons,
        List.length_append, Sum.elim_inr, id_eq]
      omega

theorem conserves_iff (rawText : List α) :
    Conserves A rawText (Backend.parseTurn A rawText) ↔
      ∀ line ∈ A.lines (A.strip rawText), Backend.leftOut A (A.strip line) = [] := by
  have hls : (A.lines (A.strip rawText)).flatMap (visible A) = visible A rawText := by
    rw [visible_lines, visible_strip]
  have hparts := parseLines_pieces (A := A) ⟨[], []⟩ (A.lines (A.strip rawText))
  obtain ⟨hlefts, hrights⟩ := hparts
  rw [List.map_nil, List.nil_append] at hlefts
  rw [List.nil_append] at hrights
  unfold Backend.parseTurn
  generalize hp : Backend.parseLines A ⟨[], []⟩ (A.lines (A.strip rawText)) = parts at hlefts hrights
  obtain ⟨ds, gs⟩ := parts
  generalize A.lines (A.strip rawText) = ls at hls hlefts hrights
  simp only at hlefts hrights
  constructor
  · rintro ⟨pieces, hleft, hright, hvisible⟩
    have hgeneral : (pieces.filterMap Sum.getRight?).flatMap (visible A) = gs.flatMap (visible A) := by
      rw [← visible_generalText ds gs, ← visible_generalText ds, ← hright]
      rfl
    have htotal : ((Backend.turnPieces A ls).flatMap fun piece =>
        visible A (piece.elim id id)).length = (ls.flatMap (visible A)).length := by
      rw [visible_length_pieces, ← hlefts, ← hrights, ← hgeneral, hls, ← hvisible,
        visible_length_pieces, hleft]
      rfl
    have hlines : ∀ line ∈ ls, ((Backend.turnPieces A [line]).flatMap fun piece =>
        visible A (piece.elim id id)).length = (visible A line).length := by
      apply eq_of_sum_le
      · intro line _
        rw [← visible_turnPieces_line line, List.length_append]
        omega
      · rw [turnPieces_eq_flatMap, List.flatMap_assoc, List.length_flatMap, List.length_flatMap]
          at htotal
        exact htotal.ge
    intro line hline
    rw [leftOut_eq_nil]
    have hlen := congrArg List.length (visible_turnPieces_line (A := A) line)
    rw [List.length_append, hlines line hline] at hlen
    exact List.length_eq_zero_iff.mp (by omega)
  · intro hnone
    refine ⟨Backend.turnPieces A ls, hlefts.symm, by rw [← hrights]; rfl, ?_⟩
    rw [← hls, turnPieces_eq_flatMap, List.flatMap_assoc]
    apply List.flatMap_congr
    intro line hline
    rw [← visible_turnPieces_line line, hnone line hline]
    rfl

theorem leadsWithMention_iff (stripped : List α) :
    LeadsWithMention A stripped ↔ Backend.leftOut A stripped = [] := by
  unfold LeadsWithMention Backend.leftOut Backend.expandInlineChatMentions
  cases (cmdPattern A).search stripped with
  | some m => simp
  | none =>
    by_cases hlen : (Backend.mentions A stripped).length ≤ 1
    · have hfew : ¬2 ≤ (Backend.mentions A stripped).length := by omega
      simp only [Option.isSome_none, Bool.false_eq_true, if_false, if_pos hlen, hfew, false_implies,
        implies_true]
    · have hlen' : 2 ≤ (Backend.mentions A stripped).length := by omega
      simp only [Option.isSome_none, Bool.false_eq_true, if_false, if_neg hlen, hlen', forall_const]
      cases Backend.mentions A stripped with
      | nil => simp
      | cons m ms => simp

/-- The backend keeps every character of a text exactly when each line that it expands begins
with its first mention. -/
theorem conserves_iff_leadsWithMention (rawText : Str) :
    Conserves pythonText rawText (Backend.parseTurn pythonText rawText) ↔
      ∀ line ∈ pythonText.lines (pythonText.strip rawText),
        LeadsWithMention pythonText (pythonText.strip line) := by
  simp only [conserves_iff, leadsWithMention_iff]

/-- A greeting in front of two mentions. -/
theorem greeting_is_lost : ¬Conserves pythonText "hello @a hi @b bye".toList
    (Backend.parseTurn pythonText "hello @a hi @b bye".toList) := by
  rw [conserves_iff]
  decide

end Eyot.Slash
