import Eyot.Host.Js
import Eyot.Library.Blocks

/-! The filter that keeps the reasoning of an agent out of what the composer shows while the
tokens arrive. -/

namespace Eyot.Portal

open Blocks (Tag)

def REASONING_TAGS : List Units :=
  ["think", "redacted_thinking", "reasoning", "thinking", "thought"].map portalText.text

/-- Upper and lower case are one to a pattern with the flag `i`, within ASCII. -/
def ignoreCase (u : UInt16) : UInt16 := if portalText.isUpper u then u + 32 else u

/-- `\w` -/
def isWord (u : UInt16) : Bool :=
  portalText.isUpper u || portalText.isLower u || portalText.isDigit u || portalText.is '_' u

/-- A name of a tag at the front, and what comes after it. -/
def afterName (l tag : Units) : Option Units :=
  if (l.take tag.length).map ignoreCase = tag then some (l.drop tag.length) else none

def OPEN_TAG_RE : Tag UInt16 where
  ends := portalText.is '>'
  shape
    | [] => false
    | c :: l => portalText.is '<' c && REASONING_TAGS.any fun tag =>
      (afterName (l.dropWhile portalText.isSpace) tag).any fun rest => !rest.head?.any isWord

def CLOSE_TAG_RE : Tag UInt16 where
  ends := portalText.is '>'
  shape
    | c :: d :: l => portalText.is '<' c && portalText.is '/' d && REASONING_TAGS.any fun tag =>
      (afterName (l.dropWhile portalText.isSpace) tag).any fun rest => rest.all portalText.isSpace
    | _ => false

def MAX_TAG_TAIL : Nat := 64

/-- `toLowerCase` of a unit, where that is or becomes ASCII: the Kelvin sign and the dotted capital
I are the two others that do. -/
def lowerUnit (u : UInt16) : Units :=
  if u = 0x212A then portalText.text "k"
  else if u = 0x130 then portalText.text "i" ++ [0x307]
  else [ignoreCase u]

def toLowerCase (l : Units) : Units := l.flatMap lowerUnit

/-- `[a-z0-9_-]` -/
def isNameUnit (u : UInt16) : Bool := isWord u || portalText.is '-' u

/-- The loop of `looksLikePartialOpenTag`. -/
def looksLikeTag (body : Units) : List Units → Bool
  | [] => false
  | tag :: tags =>
    if body.isPrefixOf tag then true
    else if tag.isPrefixOf body then
      if body.length = tag.length then true else !body[tag.length]?.any isNameUnit
    else looksLikeTag body tags

def looksLikePartialOpenTag (suffix : Units) : Bool :=
  if !portalText.startsWith "<" suffix || suffix.any (portalText.is '>') then false
  else
    let body := toLowerCase (suffix.tail.dropWhile portalText.isSpace)
    if body.isEmpty then true else looksLikeTag body REASONING_TAGS

theorem looksLikeTag_of_append {body more : Units} {tags : List Units}
    (h : looksLikeTag (body ++ more) tags = true) : looksLikeTag body tags = true := by
  induction tags with
  | nil => cases h
  | cons tag tags ih =>
    rw [looksLikeTag] at h ⊢
    by_cases hbody : body <+: tag
    · rw [if_pos (List.isPrefixOf_iff_prefix.mpr hbody)]
    · have hlong : ¬ body ++ more <+: tag := fun hp => hbody ((List.prefix_append _ _).trans hp)
      rw [if_neg (by simpa using hbody)]
      rw [if_neg (by simpa using hlong)] at h
      by_cases htag : tag <+: body
      · have hlen : tag.length < body.length := by
          refine htag.length_le.lt_of_ne fun heq => hbody ?_
          rw [htag.eq_of_length heq]
        rw [if_pos (by simpa using htag.trans (List.prefix_append _ _)), List.length_append,
          if_neg (by omega), List.getElem?_append_left hlen] at h
        rw [if_pos (by simpa using htag), if_neg (by omega), h]
      · have hmore : ¬ tag <+: body ++ more := by
          intro hp
          exact (List.prefix_or_prefix_of_prefix hp (List.prefix_append body more)).elim htag hbody
        rw [if_neg (by simpa using hmore)] at h
        rw [if_neg (by simpa using htag)]
        exact ih h

theorem looksLikePartialOpenTag_of_append {v : Units} (w : Units) (hv : v ≠ [])
    (h : looksLikePartialOpenTag (v ++ w) = true) : looksLikePartialOpenTag v = true := by
  obtain ⟨c, v, rfl⟩ := List.exists_cons_of_ne_nil hv
  rw [looksLikePartialOpenTag, List.cons_append] at h
  have hstart : portalText.startsWith "<" (c :: (v ++ w)) = portalText.startsWith "<" (c :: v) :=
    rfl
  split at h
  · cases h
  · next hno =>
    rw [hstart, ← List.cons_append, List.any_append] at hno
    rw [looksLikePartialOpenTag, if_neg fun hyes => hno (by
      rcases Bool.or_eq_true_iff.mp hyes with hyes | hyes
      · rw [hyes, Bool.true_or]
      · rw [hyes, Bool.true_or, Bool.or_true])]
    dsimp only [List.tail_cons] at h ⊢
    by_cases hspace : ∀ u ∈ v, portalText.isSpace u = true
    · rw [List.dropWhile_eq_nil_iff.mpr hspace]
      rfl
    · have hdrop : (v ++ w).dropWhile portalText.isSpace = v.dropWhile portalText.isSpace ++ w := by
        rw [List.dropWhile_append, if_neg]
        simpa [List.isEmpty_iff, List.dropWhile_eq_nil_iff] using hspace
      rw [hdrop, toLowerCase, List.flatMap_append] at h
      split
      · rfl
      · next hbody =>
        split at h
        · next hempty =>
          rw [List.isEmpty_iff, List.append_eq_nil_iff] at hempty
          exact absurd (List.isEmpty_iff.mpr hempty.1) hbody
        · exact looksLikeTag_of_append h

def thinkingFilter : Blocks.Filter UInt16 where
  openTag := OPEN_TAG_RE
  closeTag := CLOSE_TAG_RE
  looksPartial := looksLikePartialOpenTag
  tail := MAX_TAG_TAIL
  looks_of_append := looksLikePartialOpenTag_of_append

/-- A boundary between two tokens, `l` being what has come and `r` what is to come: it goes through
no tag of which more than the tail has come, nor through an opening tag that does not look like
one so far. -/
abbrev Held (l r : Units) : Prop := Blocks.Filter.Held thinkingFilter l r

/-- The filter shows the same whatever tokens the text arrives in: the text without its reasoning
blocks, and without what may be the beginning of a tag at its end. -/
theorem thinkingFilter_chunks (chunks : List Units)
    (h : ∀ n < chunks.length, Held (chunks.take n).flatten (chunks.drop n).flatten) :
    thinkingFilter.filter {} chunks = thinkingFilter.shown false chunks.flatten ∧
      (OPEN_TAG_RE.cut chunks.flatten = none →
        thinkingFilter.filter {} chunks ++ thinkingFilter.keep chunks.flatten =
          chunks.flatten) := by
  have hshown : thinkingFilter.filter {} chunks = thinkingFilter.shown false chunks.flatten :=
    Blocks.Filter.filter_eq_shown (List.suffix_refl []) h
  refine ⟨hshown, fun hcut => ?_⟩
  rw [hshown, Blocks.Filter.shown_outside_none hcut]
  exact List.suffix_iff_eq_append.mp (Blocks.Filter.keep_suffix _)

theorem thinkingFilter_chunks_think :
    thinkingFilter.shown false (["a<thi", "nk>b</th", "ink>c"].map units).flatten = units "ac" :=
  (thinkingFilter_chunks (["a<thi", "nk>b</th", "ink>c"].map units) (by decide)).1.symm.trans
    (by decide)

end Eyot.Portal
