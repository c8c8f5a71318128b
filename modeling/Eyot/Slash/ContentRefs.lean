import Eyot.Slash.Grammar
import Mathlib.Data.List.Find
import Mathlib.Data.List.Count

/-! Which tokens of a command line are content references, and what `parse_directive` makes
of them. -/

namespace Eyot.Slash

open Scan

variable {α : Type} (A : Alphabet α)

/-- The scopes the grammar names. -/
def documentedScopes : List String := contentRefScopes ++ ["blackboard"]

/-- `[":" <path>]`, up to the end of the token. -/
def tokenPath : List α → Option (Option (List α))
  | [] => some none
  | c :: path => if A.is ':' c && !path.isEmpty then some (some path) else none

/-- A whole token read as `"@" <scope> [":" <path>]`. -/
def readContentRef (scopes : List String) : List α → Option (ContentRef α)
  | [] => none
  | c :: cs =>
    if A.is '@' c then
      scopes.findSome? fun s =>
        if A.startsWith s cs then
          (tokenPath A (cs.drop s.length)).map fun path => ⟨normalizeScope s, path⟩
        else none
    else none

/-- The text behind the command of a command line. -/
def commandRest (line : List α) : List α :=
  match (cmdPattern A).atHead (afterTarget A line) with
  | some (_, n) => (afterTarget A line).drop n
  | none => []

/-- A token that is read as it stands: a content reference as a whole, but not to the
blackboard, or a text in which no content reference is found. -/
def PlainToken (token : List α) : Prop :=
  ((contentRefPattern A).captures token ≠ [] →
      (readContentRef A contentRefScopes token).isSome = true) ∧
    readContentRef A ["blackboard"] token = none

instance [DecidableEq α] (token : List α) : Decidable (PlainToken A token) :=
  inferInstanceAs (Decidable (_ ∧ _))

variable {A}

/-! Scopes at the head of a text. -/

theorem startsWith_iff {s : String} {l : List α} :
    A.startsWith s l = true ↔ (l.take s.length).map A.code = s.toList.map Char.toNat := by
  simp [Alphabet.startsWith, Alphabet.reads]

theorem startsWith_codes {s : String} {l : List α} (h : A.startsWith s l = true) :
    s.toList.map Char.toNat <+: l.map A.code := by
  rw [← startsWith_iff.mp h, List.map_take]
  exact List.take_prefix _ _

/-- No documented scope is the beginning of another. -/
theorem scope_unique {s t : String} (hs : s ∈ documentedScopes) (ht : t ∈ documentedScopes)
    {l : List α} (hsl : A.startsWith s l = true) (htl : A.startsWith t l = true) : s = t := by
  have hnone : ∀ s ∈ documentedScopes, ∀ t ∈ documentedScopes,
      (s.toList.map Char.toNat).isPrefixOf (t.toList.map Char.toNat) = true → s = t := by decide
  rcases List.prefix_or_prefix_of_prefix (startsWith_codes hsl) (startsWith_codes htl) with h | h
  · exact hnone s hs t ht (List.isPrefixOf_iff_prefix.mpr h)
  · exact (hnone t ht s hs (List.isPrefixOf_iff_prefix.mpr h)).symm

theorem scope_visible {s : String} (hs : s ∈ documentedScopes) :
    ∀ n ∈ s.toList.map Char.toNat, 97 ≤ n ∧ n ≤ 122 := by
  revert s
  decide

theorem mem_documented {s : String} (h : s ∈ contentRefScopes) : s ∈ documentedScopes :=
  List.mem_append_left _ h

/-- What a scope at the head of a text is made of. -/
theorem startsWith_split {s : String} (hs : s ∈ documentedScopes) {l : List α}
    (h : A.startsWith s l = true) :
    ∃ p, l = p ++ l.drop s.length ∧ p.length = s.length ∧
      ∀ c ∈ p, A.isLower c = true := by
  refine ⟨l.take s.length, (List.take_append_drop _ _).symm, ?_, fun c hc => ?_⟩
  · rw [List.length_take]
    exact Nat.min_eq_left (Alphabet.startsWith_length h)
  · have hmem : A.code c ∈ s.toList.map Char.toNat := by
      rw [← startsWith_iff.mp h]
      exact List.mem_map_of_mem hc
    have := scope_visible hs _ hmem
    simp [Alphabet.isLower, this]

theorem not_is_of_isLower {c : Char} {a : α} (h : A.isLower a = true) (hc : c.toNat < 97) :
    A.is c a = false := by
  simp only [Alphabet.isLower, Bool.and_eq_true, decide_eq_true_eq] at h
  simp only [Alphabet.is, decide_eq_false_iff_not]
  omega

theorem startsWith_append_space {s : String} (hs : s ∈ documentedScopes) (a : List α) {b : α}
    (hb : A.isSpace b = true) (r : List α) :
    A.startsWith s (a ++ b :: r) = A.startsWith s a := by
  by_cases hlen : s.length ≤ a.length
  · rw [Alphabet.startsWith, Alphabet.startsWith, List.take_append_of_le_length hlen]
  · have hleft : A.startsWith s (a ++ b :: r) = false := by
      rw [← Bool.not_eq_true]
      intro h
      obtain ⟨p, hp, hplen, hlower⟩ := startsWith_split hs h
      have hmem : b ∈ p := by
        have htake : (a ++ b :: r).take s.length = p := by
          rw [hp, List.take_append_of_le_length hplen.ge, List.take_of_length_le hplen.le]
        rw [← htake]
        obtain ⟨k, hk⟩ : ∃ k, s.length = a.length + (k + 1) := ⟨s.length - a.length - 1, by omega⟩
        rw [hk, List.take_length_add_append, List.take_succ_cons]
        simp
      have hvis := hlower b hmem
      simp only [Alphabet.isLower, Bool.and_eq_true, decide_eq_true_eq] at hvis
      rw [A.isSpace_visible (by omega) (by omega)] at hb
      cases hb
    have hright : A.startsWith s a = false := by
      rw [← Bool.not_eq_true]
      intro h
      exact hlen (Alphabet.startsWith_length h)
    rw [hleft, hright]

theorem matchPath_append_space (a : List α) {b : α} (hb : A.isSpace b = true) (r : List α) :
    matchPath A (a ++ b :: r) = matchPath A a := by
  cases a with
  | nil =>
    simp [matchPath, not_is_of_isSpace hb (c := ':') (by decide) (by decide)]
  | cons c cs =>
    have htake : (cs ++ b :: r).takeWhile (fun a => !A.isSpace a) =
        cs.takeWhile fun a => !A.isSpace a := by
      rw [List.takeWhile_append]
      split
      · rename_i h
        rw [List.takeWhile_cons_of_neg (by simp [hb]), List.append_nil]
        exact ((List.takeWhile_prefix _).eq_of_length h).symm
      · rfl
    rw [List.cons_append, matchPath, matchPath, htake]

theorem contentRefPattern_isLocal : (contentRefPattern A).IsLocal A.isSpace where
  atSpace s b hs := by
    simp [contentRefPattern, not_is_of_isSpace hs (c := '@') (by decide) (by decide)]
  beforeSpace a s b ha hs := by
    cases a with
    | nil => exact absurd rfl ha
    | cons c cs =>
      simp only [contentRefPattern, List.cons_append]
      rw [List.find?_congr fun t ht => startsWith_append_space (mem_documented ht) cs hs b]
      cases hfind : contentRefScopes.find? fun s => A.startsWith s cs with
      | none => rfl
      | some t =>
        have hlen := Alphabet.startsWith_length
          (List.find?_some (p := fun s => A.startsWith s cs) hfind)
        simp only [Option.map_some]
        rw [List.drop_append_of_le_length hlen, matchPath_append_space _ hs]

/-! Single tokens. -/

theorem atHead_of_startsWith {at_ : α} (hat : A.is '@' at_ = true) {s : String}
    (hs : s ∈ contentRefScopes) {cs : List α} (h : A.startsWith s cs = true) :
    (contentRefPattern A).atHead (at_ :: cs) = some ((s, matchPath A (cs.drop s.length)),
      1 + s.length + pathLength (matchPath A (cs.drop s.length))) := by
  cases hfind : contentRefScopes.find? fun s => A.startsWith s cs with
  | none =>
    have := List.find?_eq_none.mp hfind s hs
    simp [h] at this
  | some t =>
    have ht := List.find?_some (p := fun s => A.startsWith s cs) hfind
    obtain rfl : t = s :=
      scope_unique (mem_documented (List.mem_of_find?_eq_some hfind)) (mem_documented hs) ht h
    simp [contentRefPattern, hat, hfind]

theorem readContentRef_eq_some {scopes : List String} {token : List α} {ref : ContentRef α}
    (h : readContentRef A scopes token = some ref) :
    ∃ at_ cs s path, token = at_ :: cs ∧ A.is '@' at_ = true ∧ s ∈ scopes ∧
      A.startsWith s cs = true ∧ tokenPath A (cs.drop s.length) = some path ∧
      ref = ⟨normalizeScope s, path⟩ := by
  cases token with
  | nil => cases h
  | cons at_ cs =>
    rw [readContentRef] at h
    split at h
    · rename_i hat
      obtain ⟨s, hs, hsome⟩ := List.exists_of_findSome?_eq_some h
      split at hsome
      · rename_i hstart
        obtain ⟨path, hpath, rfl⟩ := Option.map_eq_some_iff.mp hsome
        exact ⟨at_, cs, s, path, rfl, hat, hs, hstart, hpath, rfl⟩
      · cases hsome
    · cases h

theorem readContentRef_of_startsWith {scopes : List String} (hdoc : ∀ s ∈ scopes, s ∈ documentedScopes)
    {at_ : α} (hat : A.is '@' at_ = true) {s : String} (hs : s ∈ scopes) {cs : List α}
    (hstart : A.startsWith s cs = true) :
    readContentRef A scopes (at_ :: cs) =
      (tokenPath A (cs.drop s.length)).map fun path => ⟨normalizeScope s, path⟩ := by
  cases hpath : tokenPath A (cs.drop s.length) with
  | none =>
    rw [readContentRef, if_pos hat, List.findSome?_eq_none_iff.mpr]
    · rfl
    · intro t ht
      split
      · rename_i htstart
        obtain rfl := scope_unique (hdoc t ht) (hdoc s hs) htstart hstart
        rw [hpath]
        rfl
      · rfl
  | some path =>
    cases hread : readContentRef A scopes (at_ :: cs) with
    | none =>
      rw [readContentRef, if_pos hat, List.findSome?_eq_none_iff] at hread
      have := hread s hs
      rw [if_pos hstart, hpath] at this
      cases this
    | some ref =>
      obtain ⟨_, _, t, path', heq, -, ht, htstart, hpath', rfl⟩ := readContentRef_eq_some hread
      obtain ⟨rfl, rfl⟩ := List.cons.inj heq
      obtain rfl := scope_unique (hdoc t ht) (hdoc s hs) htstart hstart
      obtain rfl := Option.some.inj (hpath.symm.trans hpath')
      rfl

theorem readContentRef_documented (token : List α) :
    readContentRef A documentedScopes token =
      (readContentRef A contentRefScopes token).or (readContentRef A ["blackboard"] token) := by
  cases token with
  | nil => rfl
  | cons c cs =>
    simp only [readContentRef, documentedScopes, List.findSome?_append]
    split <;> rfl

/-- The match on a token that is a content reference takes all of it. -/
theorem atHead_of_readContentRef {token : List α} (htoken : ∀ c ∈ token, A.isSpace c = false)
    {ref : ContentRef α} (h : readContentRef A contentRefScopes token = some ref) :
    ∃ s path, (contentRefPattern A).atHead token = some ((s, path), token.length) ∧
      ref = ⟨normalizeScope s, path⟩ := by
  obtain ⟨at_, cs, s, path, rfl, hat, hs, hstart, hpath, rfl⟩ := readContentRef_eq_some h
  have hlen := Alphabet.startsWith_length hstart
  refine ⟨s, path, ?_, rfl⟩
  rw [atHead_of_startsWith hat hs hstart]
  cases hrest : cs.drop s.length with
  | nil =>
    rw [hrest] at hpath
    obtain rfl : none = path := Option.some.inj hpath
    have : cs.length = s.length := by
      have := List.drop_eq_nil_iff.mp hrest
      omega
    simp [matchPath, pathLength, this, Nat.add_comm]
  | cons colon p =>
    rw [hrest, tokenPath] at hpath
    split at hpath
    · rename_i hcond
      obtain rfl := Option.some.inj hpath
      have hp : (p.takeWhile fun a => !A.isSpace a) = p := by
        rw [List.takeWhile_eq_self_iff]
        intro c hc
        have hmem : c ∈ cs := List.mem_of_mem_drop (hrest ▸ List.mem_cons_of_mem colon hc)
        simp [htoken c (List.mem_cons_of_mem at_ hmem)]
      have hcount : cs.length = s.length + (1 + p.length) := by
        have := congrArg List.length hrest
        rw [List.length_drop, List.length_cons] at this
        omega
      simp only [matchPath, hp, hcond, if_true, pathLength, List.length_cons, hcount]
      congr 2
      omega
    · cases hpath

theorem captures_of_readContentRef {token : List α} (htoken : ∀ c ∈ token, A.isSpace c = false)
    {ref : ContentRef α} (h : readContentRef A contentRefScopes token = some ref) :
    ∃ s path, (contentRefPattern A).captures token = [(s, path)] ∧
      ref = ⟨normalizeScope s, path⟩ := by
  obtain ⟨s, path, hat, href⟩ := atHead_of_readContentRef htoken h
  refine ⟨s, path, ?_, href⟩
  rw [Pattern.captures_some hat, List.drop_length]
  rfl

theorem sub_of_readContentRef {token : List α} (htoken : ∀ c ∈ token, A.isSpace c = false)
    {ref : ContentRef α} (h : readContentRef A contentRefScopes token = some ref) :
    (contentRefPattern A).sub token = [] := by
  obtain ⟨s, path, hat, -⟩ := atHead_of_readContentRef htoken h
  rw [Pattern.sub_some hat, List.drop_length]
  rfl

theorem sub_append_of_not_at {p : List α} (hp : ∀ c ∈ p, A.is '@' c = false) (r : List α) :
    (contentRefPattern A).sub (p ++ r) = p ++ (contentRefPattern A).sub r := by
  induction p with
  | nil => rfl
  | cons c p ih =>
    have hnone : (contentRefPattern A).atHead (c :: (p ++ r)) = none := by
      simp [contentRefPattern, hp c List.mem_cons_self]
    rw [List.cons_append, Pattern.sub_none hnone, ih fun d hd => hp d (List.mem_cons_of_mem c hd)]
    rfl

/-- The pattern does not know the blackboard. -/
theorem sub_blackboard {at_ : α} {cs : List α} (hat : A.is '@' at_ = true)
    (h : A.startsWith "blackboard" cs = true) :
    ∃ p, cs = p ++ cs.drop "blackboard".length ∧ (contentRefPattern A).sub (at_ :: cs) =
      at_ :: (p ++ (contentRefPattern A).sub (cs.drop "blackboard".length)) := by
  have hblack : "blackboard" ∈ documentedScopes := by decide
  have hnone : (contentRefPattern A).atHead (at_ :: cs) = none := by
    have hfind : (contentRefScopes.find? fun s => A.startsWith s cs) = none := by
      rw [List.find?_eq_none]
      intro s hs hstart
      obtain rfl := scope_unique (mem_documented hs) hblack hstart h
      exact absurd hs (by decide)
    simp [contentRefPattern, hat, hfind]
  obtain ⟨p, hp, -, hlower⟩ := startsWith_split hblack h
  refine ⟨p, hp, ?_⟩
  rw [Pattern.sub_none hnone]
  conv_lhs => rw [hp]
  rw [sub_append_of_not_at fun c hc => not_is_of_isLower (hlower c hc) (by decide)]

theorem sub_colon {colon : α} (h : A.is ':' colon = true) (r : List α) :
    (contentRefPattern A).sub (colon :: r) = colon :: (contentRefPattern A).sub r := by
  refine sub_append_of_not_at (p := [colon]) (fun c hc => ?_) r
  obtain rfl := List.mem_singleton.mp hc
  rw [is_iff] at h
  simp [Alphabet.is, h]

/-- What is left of a reference to the blackboard: such a reference again, or a text that keeps
its place among the arguments. -/
theorem sub_of_blackboard {token : List α} (h : readContentRef A ["blackboard"] token ≠ none) :
    (contentRefPattern A).sub token ≠ [] ∧
      (readContentRef A ["blackboard"] ((contentRefPattern A).sub token) ≠ none ∨
        (contentRefPattern A).sub ((contentRefPattern A).sub token) =
          (contentRefPattern A).sub token ∧ (contentRefPattern A).sub token ≠ token) := by
  obtain ⟨ref, hread⟩ := Option.ne_none_iff_exists'.mp h
  obtain ⟨at_, cs, s, path, rfl, hat, hs, hstart, hpath, -⟩ := readContentRef_eq_some hread
  obtain rfl := List.mem_singleton.mp hs
  have hdoc : ∀ s ∈ ["blackboard"], s ∈ documentedScopes := by decide
  obtain ⟨p, hp, hsub⟩ := sub_blackboard hat hstart
  have hlen : p.length = "blackboard".length := by
    have := congrArg List.length hp
    rw [List.length_append, List.length_drop] at this
    have := Alphabet.startsWith_length hstart
    omega
  have hstart' : ∀ r : List α, A.startsWith "blackboard" (p ++ r) = true := by
    intro r
    rw [startsWith_iff] at hstart ⊢
    rw [hp, ← hlen, List.take_left] at hstart
    rw [← hlen, List.take_left, hstart]
  have hdrop : ∀ r : List α, (p ++ r).drop "blackboard".length = r := by
    intro r
    rw [← hlen, List.drop_left]
  rw [hsub]
  refine ⟨by simp, ?_⟩
  cases hrest : cs.drop "blackboard".length with
  | nil =>
    refine .inl ?_
    have hnil : (contentRefPattern A).sub ([] : List α) = [] := rfl
    rw [hnil, readContentRef_of_startsWith hdoc hat hs (hstart' []), hdrop]
    simp [tokenPath]
  | cons colon r =>
    rw [hrest, tokenPath] at hpath
    split at hpath
    · rename_i hcond
      rw [Bool.and_eq_true] at hcond
      rw [sub_colon hcond.1]
      cases hr : (contentRefPattern A).sub r with
      | cons d q =>
        refine .inl ?_
        rw [readContentRef_of_startsWith hdoc hat hs (hstart' _), hdrop]
        simp [tokenPath, hcond.1]
      | nil =>
        refine .inr ⟨?_, ?_⟩
        · obtain ⟨p', hp', hsub'⟩ := sub_blackboard hat (hstart' [colon])
          rw [hdrop] at hp' hsub'
          obtain rfl := List.append_cancel_right hp'
          rw [hsub', sub_colon hcond.1]
          rfl
        · intro heq
          obtain ⟨-, heq⟩ := List.cons.inj heq
          rw [hp, hrest] at heq
          obtain ⟨-, hnil⟩ := List.cons.inj (List.append_cancel_left heq)
          rw [← hnil] at hcond
          simp at hcond
    · cases hpath

/-! Command lines. -/

theorem search_command {slash : α} {name tail : List α} (h : IsCommand A slash name tail) :
    (cmdPattern A).search (slash :: (name ++ tail)) = some ⟨[], slash :: name, tail, name⟩ := by
  rw [Pattern.search_of_atHead (cmdPattern_atHead h), Nat.add_comm, List.take_succ_cons,
    List.drop_succ_cons, List.take_left, List.drop_left]

/-- What a command line is parsed to: the words behind the command, each without the matches
in it. -/
theorem parseDirective_commandLine {line : List α} (h : CommandLine A line) :
    ∃ target cmd, parseDirective A line = .inl
      { targetEntity := target
        cmd := cmd
        args := ((A.words (commandRest A line)).map (contentRefPattern A).sub).filter (!·.isEmpty)
        contentRef := ((contentRefPattern A).captures (commandRest A line)).getLast?.map
          fun (scope, path) => ⟨normalizeScope scope, path⟩
        rawText := line } := by
  obtain ⟨slash, name, tail, hafter, hcmd⟩ := beginsWithCommand_iff.mp (commandLine_iff.mp h)
  have hrest : commandRest A line = tail := by
    rw [commandRest, hafter, cmdPattern_atHead hcmd, Nat.add_comm]
    simp
  have hargs : ∀ b : Bool, (b = false → (contentRefPattern A).captures tail = []) →
      A.words (if b then A.strip ((contentRefPattern A).sub tail) else tail) =
        ((A.words tail).map (contentRefPattern A).sub).filter (!·.isEmpty) := by
    intro b hb
    rw [Alphabet.words, Alphabet.words, ← Pattern.words_sub contentRefPattern_isLocal]
    cases b with
    | true => rw [if_pos rfl, Alphabet.strip, words_strip]
    | false => rw [if_neg (by simp), Pattern.sub_eq_self (hb rfl)]
  have hnone : ((((contentRefPattern A).captures tail).getLast?.map
      fun (scope, path) => (⟨normalizeScope scope, path⟩ : ContentRef α)).isSome = false →
        (contentRefPattern A).captures tail = []) := by
    simp
  rw [hrest]
  cases hm : matchTarget A line with
  | none =>
    rw [afterTarget, hm] at hafter
    simp only at hafter
    subst hafter
    refine ⟨none, A.text "/" ++ name, ?_⟩
    simp only [parseDirective, hm, search_command hcmd, List.nil_append]
    rw [hargs _ hnone]
  | some r =>
    obtain ⟨slug, rest⟩ := r
    rw [afterTarget, hm] at hafter
    refine ⟨some slug, A.text "/" ++ name, ?_⟩
    simp only at hafter
    simp only [parseDirective, hm, hafter, search_command hcmd, List.nil_append]
    rw [hargs _ hnone]

/-- Tokens that are read as they stand are what the grammar takes them for. -/
theorem args_of_plainToken {tokens : List (List α)}
    (htokens : ∀ t ∈ tokens, t ≠ [] ∧ ∀ c ∈ t, A.isSpace c = false)
    (hplain : ∀ t ∈ tokens, PlainToken A t) :
    (tokens.map (contentRefPattern A).sub).filter (!·.isEmpty) =
        tokens.filter (fun t => (readContentRef A documentedScopes t).isNone) ∧
      (tokens.flatMap (contentRefPattern A).captures).map
          (fun (scope, path) => (⟨normalizeScope scope, path⟩ : ContentRef α)) =
        tokens.filterMap (readContentRef A documentedScopes) := by
  induction tokens with
  | nil => exact ⟨rfl, rfl⟩
  | cons t tokens ih =>
    rw [List.forall_mem_cons] at htokens hplain
    obtain ⟨hargs, hrefs⟩ := ih htokens.2 hplain.2
    obtain ⟨⟨hne, hspace⟩, -⟩ := htokens
    obtain ⟨⟨hwhole, hblack⟩, -⟩ := hplain
    have hdoc := readContentRef_documented (A := A) t
    rw [hblack, Option.or_none] at hdoc
    cases hread : readContentRef A contentRefScopes t with
    | some ref =>
      obtain ⟨s, path, hcaptures, rfl⟩ := captures_of_readContentRef hspace hread
      rw [hread] at hdoc
      constructor
      · simp [sub_of_readContentRef hspace hread, hdoc, hargs]
      · simp [hcaptures, hdoc, hrefs]
    | none =>
      have hnil : (contentRefPattern A).captures t = [] := by
        by_contra hcap
        simpa [hread] using hwhole hcap
      rw [hread] at hdoc
      constructor
      · simp [Pattern.sub_eq_self hnil, hdoc, hargs, hne]
      · simp [hnil, hdoc, hrefs]

/-- Where the arguments are the tokens that the grammar leaves over, every token was read as it
stands: a reference to the blackboard stays behind as an argument, and any other match inside
a longer token shortens the arguments. -/
theorem plainToken_of_args [DecidableEq α] {tokens : List (List α)}
    (htokens : ∀ t ∈ tokens, t ≠ [] ∧ ∀ c ∈ t, A.isSpace c = false)
    (hargs : (tokens.map (contentRefPattern A).sub).filter (!·.isEmpty) =
      tokens.filter fun t => (readContentRef A documentedScopes t).isNone) :
    ∀ t ∈ tokens, PlainToken A t := by
  have hblack : ∀ t ∈ tokens, readContentRef A ["blackboard"] t = none := by
    intro t ht
    by_contra hread
    obtain ⟨hne, hkept⟩ := sub_of_blackboard hread
    have hmem : (contentRefPattern A).sub t ∈
        tokens.filter fun t => (readContentRef A documentedScopes t).isNone := by
      rw [← hargs, List.mem_filter]
      exact ⟨List.mem_map_of_mem ht, by simpa using hne⟩
    have hdoc := (List.mem_filter.mp hmem).2
    rcases hkept with hagain | ⟨hfix, hmoved⟩
    · rw [readContentRef_documented] at hdoc
      simp only [Option.isNone_iff_eq_none, Option.or_eq_none_iff] at hdoc
      exact hagain hdoc.2
    · refine hmoved (eq_of_map_eq_filter hargs hfix ?_ hdoc t ht rfl).symm
      simpa using hne
  have hdoc : ∀ t ∈ tokens,
      readContentRef A documentedScopes t = readContentRef A contentRefScopes t := by
    intro t ht
    rw [readContentRef_documented, hblack t ht, Option.or_none]
  have hlength : ∀ t ∈ tokens, ((contentRefPattern A).sub t).length =
      if (readContentRef A documentedScopes t).isNone then t.length else 0 := by
    apply eq_of_sum_le
    · intro t ht
      rw [hdoc t ht]
      cases hread : readContentRef A contentRefScopes t with
      | none => exact Pattern.length_sub_le _ t
      | some ref => simp [sub_of_readContentRef (htokens t ht).2 hread]
    · have hleft : ((tokens.map (contentRefPattern A).sub).filter (!·.isEmpty)).flatten.length =
          (tokens.map fun t => ((contentRefPattern A).sub t).length).sum := by
        rw [List.flatten_filter_not_isEmpty, List.length_flatten, List.map_map]
        rfl
      have hright : (tokens.filter fun t =>
          (readContentRef A documentedScopes t).isNone).flatten.length = (tokens.map fun t =>
            if (readContentRef A documentedScopes t).isNone then t.length else 0).sum := by
        rw [List.length_flatten, sum_map_filter]
      rw [← hleft, ← hright, hargs]
  intro t ht
  refine ⟨fun hcap => ?_, hblack t ht⟩
  have hlen := hlength t ht
  rw [hdoc t ht] at hlen
  cases hread : readContentRef A contentRefScopes t with
  | some ref => rfl
  | none =>
    rw [hread] at hlen
    exact absurd (Pattern.captures_eq_nil_of_length (by simpa using hlen)) hcap

/-- On a command line, arguments and content reference are the ones of the grammar exactly when
every token behind the command is read as it stands. -/
theorem extraction_iff_plainTokens (line : Str) (h : CommandLine pythonText line) :
    (∃ d, parseDirective pythonText line = .inl d ∧
      d.contentRef = ((pythonText.words (commandRest pythonText line)).filterMap
        (readContentRef pythonText documentedScopes)).getLast? ∧
      d.args = (pythonText.words (commandRest pythonText line)).filter
        fun t => (readContentRef pythonText documentedScopes t).isNone) ↔
      ∀ t ∈ pythonText.words (commandRest pythonText line), PlainToken pythonText t := by
  obtain ⟨target, cmd, hparse⟩ := parseDirective_commandLine h
  have hwords : ∀ t ∈ pythonText.words (commandRest pythonText line),
      t ≠ [] ∧ ∀ c ∈ t, pythonText.isSpace c = false := fun t ht => mem_words ht
  constructor
  · rintro ⟨d, hd, -, hargs⟩
    obtain rfl := Sum.inl.inj (hparse.symm.trans hd)
    exact plainToken_of_args hwords hargs
  · intro hplain
    obtain ⟨hargs, hrefs⟩ := args_of_plainToken hwords hplain
    refine ⟨_, hparse, ?_, hargs⟩
    rw [← hrefs, List.getLast?_map, Pattern.captures_eq_flatMap_words contentRefPattern_isLocal]
    rfl

def readHub : Str := "@fox /read a @hub:docs/x b".toList

theorem readHub_is_extracted : ∃ d, parseDirective pythonText readHub = .inl d ∧
    d.contentRef = ((pythonText.words (commandRest pythonText readHub)).filterMap
      (readContentRef pythonText documentedScopes)).getLast? ∧
    d.args = (pythonText.words (commandRest pythonText readHub)).filter
      fun t => (readContentRef pythonText documentedScopes t).isNone :=
  (extraction_iff_plainTokens readHub (commandLine_iff.mpr (by decide))).mpr (by decide)

def readHubble : Str := "/read @hubble".toList

/-- A token that merely begins with a scope. -/
theorem readHubble_is_cut : CommandLine pythonText readHubble ∧
    ¬∃ d, parseDirective pythonText readHubble = .inl d ∧
      d.contentRef = ((pythonText.words (commandRest pythonText readHubble)).filterMap
        (readContentRef pythonText documentedScopes)).getLast? ∧
      d.args = (pythonText.words (commandRest pythonText readHubble)).filter
        fun t => (readContentRef pythonText documentedScopes t).isNone := by
  refine ⟨commandLine_iff.mpr (by decide), ?_⟩
  rintro ⟨d, hd, -, hargs⟩
  have hparse : parseDirective pythonText readHubble =
      .inl ⟨none, "/read".toList, ["ble".toList], some ⟨"hub", none⟩, readHubble⟩ := by decide
  obtain rfl := Sum.inl.inj (hparse.symm.trans hd)
  revert hargs
  decide

end Eyot.Slash
