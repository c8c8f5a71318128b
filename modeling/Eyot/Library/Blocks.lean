import Mathlib.Data.List.Infix
import Mathlib.Data.List.TakeWhile

/-! Texts with blocks between two kinds of tags that are not to be seen, and a filter that takes
such a text piece by piece and looks back at a few of its last characters only. -/

universe u

namespace Eyot.Blocks

variable {α : Type u}

/-- A tag goes up to the first character that ends it. -/
structure Tag (α : Type u) where
  ends : α → Bool
  shape : List α → Bool

namespace Tag

variable (tag : Tag α)

def body (l : List α) : List α := l.takeWhile fun c => !tag.ends c

def begins (l : List α) : Bool := l.any tag.ends && tag.shape (tag.body l)

def after (l : List α) : List α := (l.dropWhile fun c => !tag.ends c).tail

/-- What is before and after the first tag. -/
def cut : List α → Option (List α × List α)
  | [] => none
  | c :: cs =>
    if tag.begins (c :: cs) then some ([], tag.after (c :: cs))
    else (cut cs).map fun p => (c :: p.1, p.2)

variable {tag}

theorem body_append {l : List α} (h : l.any tag.ends = true) (r : List α) :
    tag.body (l ++ r) = tag.body l := by
  rw [body, body, List.takeWhile_append, if_neg]
  intro hlen
  obtain ⟨c, hc, hends⟩ := List.any_eq_true.mp h
  have hself := List.takeWhile_eq_self_iff.mp (List.takeWhile_prefix _ |>.eq_of_length hlen) c hc
  rw [hends] at hself
  cases hself

theorem begins_append {l : List α} (h : l.any tag.ends = true) (r : List α) :
    tag.begins (l ++ r) = tag.begins l := by
  rw [begins, begins, body_append h, List.any_append, h, Bool.true_or]

theorem after_append {l : List α} (h : l.any tag.ends = true) (r : List α) :
    tag.after (l ++ r) = tag.after l ++ r := by
  have hne : l.dropWhile (fun c => !tag.ends c) ≠ [] := by
    intro hnil
    obtain ⟨c, hc, hends⟩ := List.any_eq_true.mp h
    have := List.dropWhile_eq_nil_iff.mp hnil c hc
    rw [hends] at this
    cases this
  rw [after, after, List.dropWhile_append, if_neg (by simpa [List.isEmpty_iff] using hne),
    List.tail_append_of_ne_nil hne]

theorem any_of_begins {l : List α} (h : tag.begins l = true) : l.any tag.ends = true :=
  (Bool.and_eq_true_iff.mp h).1

theorem after_suffix (l : List α) : tag.after l <:+ l :=
  (List.tail_suffix _).trans (List.dropWhile_suffix _)

theorem length_after {l : List α} (h : l ≠ []) : (tag.after l).length < l.length := by
  have hdrop := (List.dropWhile_suffix (l := l) fun c => !tag.ends c).length_le
  have hpos := List.length_pos_iff.mpr h
  rw [after, List.length_tail]
  omega

theorem cut_nil : tag.cut [] = none := rfl

theorem cut_suffix {l a rest : List α} (h : tag.cut l = some (a, rest)) :
    rest <:+ l ∧ rest.length < l.length ∧ l.any tag.ends = true := by
  induction l generalizing a with
  | nil => cases h
  | cons c cs ih =>
    rw [cut] at h
    split at h
    · next hb =>
      obtain ⟨rfl, rfl⟩ := Prod.mk.inj (Option.some.inj h)
      exact ⟨after_suffix _, length_after (List.cons_ne_nil c cs), any_of_begins hb⟩
    · obtain ⟨⟨a', rest'⟩, hcut, heq⟩ := Option.map_eq_some_iff.mp h
      obtain ⟨-, rfl⟩ := Prod.mk.inj heq
      obtain ⟨hsuffix, hlen, hany⟩ := ih hcut
      refine ⟨hsuffix.trans (List.suffix_cons c cs), Nat.lt_succ_of_lt hlen, ?_⟩
      rw [List.any_cons, hany, Bool.or_true]

theorem cut_append {l a rest : List α} (h : tag.cut l = some (a, rest)) (r : List α) :
    tag.cut (l ++ r) = some (a, rest ++ r) := by
  induction l generalizing a with
  | nil => cases h
  | cons c cs ih =>
    have hany := (cut_suffix h).2.2
    have hbegins : tag.begins (c :: (cs ++ r)) = tag.begins (c :: cs) := begins_append hany r
    have hafter : tag.after (c :: (cs ++ r)) = tag.after (c :: cs) ++ r := after_append hany r
    rw [cut] at h
    rw [List.cons_append, cut, hbegins]
    split at h
    · next hb =>
      obtain ⟨rfl, rfl⟩ := Prod.mk.inj (Option.some.inj h)
      rw [if_pos hb, hafter]
    · next hb =>
      obtain ⟨⟨a', rest'⟩, hcut, heq⟩ := Option.map_eq_some_iff.mp h
      obtain ⟨rfl, rfl⟩ := Prod.mk.inj heq
      rw [if_neg hb, ih hcut]
      rfl

/-- No tag begins in `u` when it is followed by `w`. -/
def Clear (tag : Tag α) (u w : List α) : Prop :=
  ∀ v, v <:+ u → v ≠ [] → tag.begins (v ++ w) = false

theorem Clear.tail {c : α} {u w : List α} (h : Clear tag (c :: u) w) : Clear tag u w :=
  fun v hv => h v (hv.trans (List.suffix_cons c u))

theorem cut_of_clear {u w : List α} (h : Clear tag u w) :
    tag.cut (u ++ w) = (tag.cut w).map fun p => (u ++ p.1, p.2) := by
  induction u with
  | nil => simp
  | cons c u ih =>
    have hhead := h (c :: u) (List.suffix_refl _) (List.cons_ne_nil c u)
    rw [List.cons_append] at hhead
    rw [List.cons_append, cut, if_neg (by simp [hhead]), ih h.tail, Option.map_map]
    rfl

theorem clear_of_cut_none {l : List α} (h : tag.cut l = none) {v : List α} (hv : v <:+ l)
    (hne : v ≠ []) : tag.begins v = false := by
  induction l with
  | nil => exact absurd (List.suffix_nil.mp hv) hne
  | cons c cs ih =>
    rw [cut] at h
    split at h
    · cases h
    · next hb =>
      obtain rfl | hv := List.suffix_cons_iff.mp hv
      · simpa using hb
      · exact ih (Option.map_eq_none_iff.mp h) hv

end Tag

/-- The tags that open and close a block, what may become an opening tag, and how many characters
are looked back at. -/
structure Filter (α : Type u) where
  openTag : Tag α
  closeTag : Tag α
  looksPartial : List α → Bool
  tail : Nat
  looks_of_append : ∀ {v : List α} (w : List α), v ≠ [] → looksPartial (v ++ w) = true →
    looksPartial v = true

namespace Filter

variable (F : Filter α)

def last (l : List α) : List α := l.drop (l.length - F.tail)

def firstPartial : List α → List α
  | [] => []
  | c :: cs => if F.looksPartial (c :: cs) then c :: cs else firstPartial cs

/-- What may become an opening tag at the end of the text. -/
def keep (l : List α) : List α := F.firstPartial (F.last l)

structure State (α : Type u) where
  inside : Bool := false
  buffer : List α := []

def drain (final : Bool) : Nat → State α → List α × State α
  | 0, s => ([], s)
  | n + 1, s =>
    if s.buffer.isEmpty then ([], s)
    else if s.inside then
      match F.closeTag.cut s.buffer with
      | none => ([], if final then ⟨false, []⟩ else ⟨true, F.last s.buffer⟩)
      | some (_, rest) => drain final n ⟨false, rest⟩
    else
      match F.openTag.cut s.buffer with
      | some (a, rest) => (a ++ (drain final n ⟨true, rest⟩).1, (drain final n ⟨true, rest⟩).2)
      | none =>
        (s.buffer.take (s.buffer.length - (F.keep s.buffer).length),
          ⟨false, if final then [] else F.keep s.buffer⟩)

def feed (s : State α) (chunk : List α) : List α × State α :=
  if chunk.isEmpty then ([], s)
  else F.drain false (s.buffer ++ chunk).length { s with buffer := s.buffer ++ chunk }

def flush (s : State α) : List α × State α := F.drain true s.buffer.length s

/-- What is given out for the pieces of a text and the end of it. -/
def filter (s : State α) : List (List α) → List α
  | [] => (F.flush s).1
  | c :: cs => (F.feed s c).1 ++ filter (F.feed s c).2 cs

/-- What is to be seen of a text, as a whole. -/
def shown (inside : Bool) (l : List α) : List α :=
  if inside then
    match _h : F.closeTag.cut l with
    | none => []
    | some (_, rest) => shown false rest
  else
    match _h : F.openTag.cut l with
    | none => l.take (l.length - (F.keep l).length)
    | some (a, rest) => a ++ shown true rest
termination_by l.length
decreasing_by
  · exact (Tag.cut_suffix ‹_›).2.1
  · exact (Tag.cut_suffix ‹_›).2.1

variable {F}

theorem shown_inside_none {l : List α} (h : F.closeTag.cut l = none) : F.shown true l = [] := by
  rw [shown, if_pos rfl]
  split
  · rfl
  · next heq => rw [h] at heq; cases heq

theorem shown_inside_some {l a rest : List α} (h : F.closeTag.cut l = some (a, rest)) :
    F.shown true l = F.shown false rest := by
  rw [shown, if_pos rfl]
  split
  · next heq => rw [h] at heq; cases heq
  · next heq =>
    rw [h] at heq
    cases heq
    rfl

theorem shown_outside_none {l : List α} (h : F.openTag.cut l = none) :
    F.shown false l = l.take (l.length - (F.keep l).length) := by
  rw [shown, if_neg Bool.false_ne_true]
  split
  · rfl
  · next heq => rw [h] at heq; cases heq

theorem shown_outside_some {l a rest : List α} (h : F.openTag.cut l = some (a, rest)) :
    F.shown false l = a ++ F.shown true rest := by
  rw [shown, if_neg Bool.false_ne_true]
  split
  · next heq => rw [h] at heq; cases heq
  · next heq =>
    rw [h] at heq
    cases heq
    rfl

/-! What is kept back. -/

theorem last_suffix (l : List α) : F.last l <:+ l := List.drop_suffix _ _

theorem length_last (l : List α) : (F.last l).length ≤ F.tail := by
  rw [last, List.length_drop]
  omega

theorem suffix_last {v l : List α} (hv : v <:+ l) (hlen : v.length ≤ F.tail) : v <:+ F.last l := by
  refine List.suffix_of_suffix_length_le hv (last_suffix l) ?_
  have := hv.length_le
  rw [last, List.length_drop]
  omega

theorem firstPartial_suffix (l : List α) : F.firstPartial l <:+ l := by
  induction l with
  | nil => exact List.suffix_refl _
  | cons c cs ih =>
    rw [firstPartial]
    split
    · exact List.suffix_refl _
    · exact ih.trans (List.suffix_cons c cs)

theorem firstPartial_looks (l : List α) :
    F.firstPartial l = [] ∨ F.looksPartial (F.firstPartial l) = true := by
  induction l with
  | nil => exact .inl rfl
  | cons c cs ih =>
    rw [firstPartial]
    split
    · next h => exact .inr h
    · exact ih

theorem suffix_firstPartial {v l : List α} (hv : v <:+ l) (hlooks : F.looksPartial v = true) :
    v <:+ F.firstPartial l := by
  induction l with
  | nil => rw [List.suffix_nil.mp hv]; exact List.nil_suffix
  | cons c cs ih =>
    rw [firstPartial]
    split
    · exact hv
    · next h =>
      obtain rfl | hv := List.suffix_cons_iff.mp hv
      · exact absurd hlooks h
      · exact ih hv

theorem keep_suffix (l : List α) : F.keep l <:+ l := (firstPartial_suffix _).trans (last_suffix l)

theorem suffix_keep {v l : List α} (hv : v <:+ l) (hlen : v.length ≤ F.tail)
    (hlooks : F.looksPartial v = true) : v <:+ F.keep l :=
  suffix_firstPartial (suffix_last hv hlen) hlooks

theorem length_keep (l : List α) : (F.keep l).length ≤ F.tail :=
  (firstPartial_suffix _).length_le.trans (length_last l)

/-- Text in front changes nothing of what is kept back when nothing of it is itself kept. -/
theorem keep_append {u w : List α}
    (h : ∀ v, v <:+ u → v ≠ [] → (v ++ w).length ≤ F.tail → F.looksPartial (v ++ w) = false) :
    F.keep (u ++ w) = F.keep w := by
  have hback : F.keep w <:+ F.keep (u ++ w) := by
    obtain hnil | hlooks := firstPartial_looks (F := F) (F.last w)
    · rw [keep, hnil]
      exact List.nil_suffix
    · exact suffix_keep ((keep_suffix w).trans (List.suffix_append u w)) (length_keep w) hlooks
  obtain hnil | hlooks := firstPartial_looks (F := F) (F.last (u ++ w))
  · have hkeep : F.keep (u ++ w) = [] := hnil
    rw [hkeep] at hback ⊢
    exact (List.suffix_nil.mp hback).symm
  · have hin : F.keep (u ++ w) <:+ w := by
      obtain hin | ⟨v, hvw⟩ := List.suffix_or_suffix_of_suffix (keep_suffix (u ++ w))
        (List.suffix_append u w)
      · exact hin
      · obtain rfl | hne := eq_or_ne v []
        · rw [← hvw]
          exact List.suffix_refl _
        · have hsuffix : v ++ w <:+ u ++ w := by
            rw [hvw]
            exact keep_suffix _
          have hv : v <:+ u := List.suffix_append_self_iff.mp hsuffix
          have hlen := length_keep (F := F) (u ++ w)
          rw [← hvw] at hlen
          have hnot := h v hv hne hlen
          rw [hvw] at hnot
          exact absurd hlooks (by rw [← keep, hnot]; exact Bool.false_ne_true)
    exact (suffix_keep hin (length_keep _) hlooks).eq_of_length_le hback.length_le

/-! One piece. -/

/-- Every tag that ends only later is short enough, and an opening one can be seen coming. -/
def Held (F : Filter α) (l r : List α) : Prop :=
  (∀ v, v <:+ l → v ≠ [] → v.any F.openTag.ends = false → F.openTag.begins (v ++ r) = true →
    v.length ≤ F.tail ∧ F.looksPartial v = true) ∧
  (∀ v, v <:+ l → v ≠ [] → v.any F.closeTag.ends = false → F.closeTag.begins (v ++ r) = true →
    v.length ≤ F.tail)

theorem Held.suffix {l l' r : List α} (h : Held F l r) (hl : l' <:+ l) : Held F l' r :=
  ⟨fun v hv => h.1 v (hv.trans hl), fun v hv => h.2 v (hv.trans hl)⟩

theorem held_nil (l : List α) : Held F l [] := by
  have hno {tag : Tag α} {v : List α} (hany : v.any tag.ends = false) :
      tag.begins (v ++ []) ≠ true := by
    intro hbegins
    rw [List.append_nil] at hbegins
    rw [Tag.any_of_begins hbegins] at hany
    cases hany
  exact ⟨fun v _ _ hany hbegins => absurd hbegins (hno hany),
    fun v _ _ hany hbegins => absurd hbegins (hno hany)⟩

instance [DecidableEq α] (l r : List α) : Decidable (Held F l r) :=
  decidable_of_iff
    ((∀ v ∈ l.tails, v ≠ [] → v.any F.openTag.ends = false →
      F.openTag.begins (v ++ r) = true → v.length ≤ F.tail ∧ F.looksPartial v = true) ∧
    ∀ v ∈ l.tails, v ≠ [] → v.any F.closeTag.ends = false →
      F.closeTag.begins (v ++ r) = true → v.length ≤ F.tail)
    (by simp only [Held, List.mem_tails])

/-- A tag that is not there yet is found in what stays. -/
theorem clear_append {tag : Tag α} {u w r : List α} (hcut : tag.cut (u ++ w) = none)
    (h : ∀ v, v <:+ u → v ≠ [] → (v ++ w).any tag.ends = false →
      tag.begins (v ++ w ++ r) = false) : Tag.Clear tag u (w ++ r) := by
  intro v hv hne
  rw [← List.append_assoc]
  cases hany : (v ++ w).any tag.ends with
  | true =>
    rw [Tag.begins_append hany]
    exact Tag.clear_of_cut_none hcut (List.suffix_append_self_iff.mpr hv) (by simp [hne])
  | false => exact h v hv hne hany

variable (F) in
theorem take_last (l : List α) : l.take (l.length - F.tail) ++ F.last l = l :=
  List.take_append_drop _ _

theorem shown_last {l r : List α} (hcut : F.closeTag.cut l = none) (h : Held F l r) :
    F.shown true (l ++ r) = F.shown true (F.last l ++ r) := by
  have hl := take_last F l
  have hclear : Tag.Clear F.closeTag (l.take (l.length - F.tail)) (F.last l ++ r) := by
    refine clear_append (by rw [hl]; exact hcut) fun v hv hne hany => ?_
    by_contra hbegins
    rw [Bool.not_eq_false] at hbegins
    have hsuffix : v ++ F.last l <:+ l.take (l.length - F.tail) ++ F.last l := List.suffix_append_self_iff.mpr hv
    rw [hl] at hsuffix
    have hlen := h.2 _ hsuffix (by simp [hne]) hany hbegins
    have hpos := List.length_pos_iff.mpr hne
    have hvlen := hv.length_le
    rw [List.length_take] at hvlen
    rw [List.length_append, last, List.length_drop] at hlen
    omega
  have hcut' := Tag.cut_of_clear hclear
  rw [← List.append_assoc, hl] at hcut'
  cases hlast : F.closeTag.cut (F.last l ++ r) with
  | none =>
    rw [hlast] at hcut'
    rw [shown_inside_none hcut', shown_inside_none hlast]
  | some p =>
    rw [hlast] at hcut'
    rw [shown_inside_some hcut', shown_inside_some hlast]

theorem shown_keep {l r : List α} (hcut : F.openTag.cut l = none) (h : Held F l r) :
    F.shown false (l ++ r) =
      l.take (l.length - (F.keep l).length) ++ F.shown false (F.keep l ++ r) := by
  have hl : l.take (l.length - (F.keep l).length) ++ F.keep l = l :=
    List.suffix_iff_eq_append.mp (keep_suffix l)
  generalize l.take (l.length - (F.keep l).length) = u at hl ⊢
  -- what is longer than the part kept back does not look like a tag
  have hlooks : ∀ v, v <:+ u → v ≠ [] → (v ++ F.keep l).length ≤ F.tail →
      F.looksPartial (v ++ F.keep l) = false := by
    intro v hv hne hlen
    by_contra hlooks
    rw [Bool.not_eq_false] at hlooks
    have hsuffix : v ++ F.keep l <:+ u ++ F.keep l := List.suffix_append_self_iff.mpr hv
    rw [hl] at hsuffix
    have hle := (suffix_keep hsuffix hlen hlooks).length_le
    have hpos := List.length_pos_iff.mpr hne
    rw [List.length_append] at hle
    omega
  have hclear : Tag.Clear F.openTag u (F.keep l ++ r) := by
    refine clear_append (by rw [hl]; exact hcut) fun v hv hne hany => ?_
    by_contra hbegins
    rw [Bool.not_eq_false] at hbegins
    have hsuffix : v ++ F.keep l <:+ u ++ F.keep l := List.suffix_append_self_iff.mpr hv
    rw [hl] at hsuffix
    obtain ⟨hlen, hlook⟩ := h.1 _ hsuffix (by simp [hne]) hany hbegins
    rw [hlooks v hv hne hlen] at hlook
    cases hlook
  have hcut' := Tag.cut_of_clear hclear
  rw [← List.append_assoc, hl] at hcut'
  cases hkeep : F.openTag.cut (F.keep l ++ r) with
  | some p =>
    rw [hkeep] at hcut'
    rw [shown_outside_some hcut', shown_outside_some hkeep, List.append_assoc]
  | none =>
    rw [hkeep] at hcut'
    have hsame : F.keep (l ++ r) = F.keep (F.keep l ++ r) := by
      rw [← hl, List.append_assoc, hl]
      refine keep_append fun v hv hne hlen => ?_
      by_contra hlook
      rw [Bool.not_eq_false, ← List.append_assoc] at hlook
      rw [← List.append_assoc, List.length_append] at hlen
      have hlook' := F.looks_of_append r (by simp [hne]) hlook
      rw [hlooks v hv hne (by omega)] at hlook'
      cases hlook'
    have hlen : (F.keep (F.keep l ++ r)).length ≤ (F.keep l ++ r).length :=
      (keep_suffix _).length_le
    have hwhole : l ++ r = u ++ (F.keep l ++ r) := by rw [← List.append_assoc, hl]
    rw [shown_outside_none hcut', shown_outside_none hkeep, hsame, hwhole, List.length_append,
      Nat.add_sub_assoc hlen, List.take_length_add_append]

theorem shown_nil (inside : Bool) : F.shown inside [] = [] := by
  cases inside with
  | true => exact shown_inside_none Tag.cut_nil
  | false => rw [shown_outside_none Tag.cut_nil, List.take_nil]

theorem shown_drain {n : Nat} {s : State α} (hn : s.buffer.length ≤ n) (r : List α)
    (h : Held F s.buffer r) :
    F.shown s.inside (s.buffer ++ r) = (F.drain false n s).1 ++
      F.shown (F.drain false n s).2.inside ((F.drain false n s).2.buffer ++ r) := by
  induction n generalizing s with
  | zero => rfl
  | succ n ih =>
    rw [drain]
    split
    · rfl
    · split
      · next hinside =>
        rw [hinside]
        split
        · next hcut => exact shown_last hcut h
        · next a rest hcut =>
          obtain ⟨hsuffix, hlen, -⟩ := Tag.cut_suffix hcut
          rw [shown_inside_some (Tag.cut_append hcut r)]
          exact ih (s := ⟨false, rest⟩) (by dsimp only; omega) (h.suffix hsuffix)
      · next hinside =>
        rw [Bool.not_eq_true] at hinside
        rw [hinside]
        split
        · next a rest hcut =>
          obtain ⟨hsuffix, hlen, -⟩ := Tag.cut_suffix hcut
          rw [shown_outside_some (Tag.cut_append hcut r), List.append_assoc]
          congr 1
          exact ih (s := ⟨true, rest⟩) (by dsimp only; omega) (h.suffix hsuffix)
        · next hcut => exact shown_keep hcut h

theorem shown_drain_final {n : Nat} {s : State α} (hn : s.buffer.length ≤ n) :
    (F.drain true n s).1 = F.shown s.inside s.buffer := by
  induction n generalizing s with
  | zero =>
    rw [List.length_eq_zero_iff.mp (Nat.le_zero.mp hn), shown_nil]
    rfl
  | succ n ih =>
    rw [drain]
    split
    · next hempty => rw [List.isEmpty_iff.mp hempty, shown_nil]
    · split
      · next hinside =>
        rw [hinside]
        split
        · next hcut => exact (shown_inside_none hcut).symm
        · next a rest hcut =>
          have hlen := (Tag.cut_suffix hcut).2.1
          rw [shown_inside_some hcut]
          exact ih (s := ⟨false, rest⟩) (by dsimp only; omega)
      · next hinside =>
        rw [Bool.not_eq_true] at hinside
        rw [hinside]
        split
        · next a rest hcut =>
          have hlen := (Tag.cut_suffix hcut).2.1
          rw [shown_outside_some hcut]
          exact congrArg (a ++ ·) (ih (s := ⟨true, rest⟩) (by dsimp only; omega))
        · next hcut => exact (shown_outside_none hcut).symm

theorem drain_buffer_suffix (n : Nat) (s : State α) :
    (F.drain false n s).2.buffer <:+ s.buffer := by
  induction n generalizing s with
  | zero => exact List.suffix_refl _
  | succ n ih =>
    rw [drain]
    split
    · exact List.suffix_refl _
    · split
      · split
        · exact last_suffix _
        · next hcut => exact (ih _).trans (Tag.cut_suffix hcut).1
      · split
        · next hcut => exact (ih _).trans (Tag.cut_suffix hcut).1
        · exact keep_suffix _

/-! All pieces. -/

theorem shown_feed {s : State α} {c r : List α} (h : Held F (s.buffer ++ c) r) :
    F.shown s.inside (s.buffer ++ (c ++ r)) =
      (F.feed s c).1 ++ F.shown (F.feed s c).2.inside ((F.feed s c).2.buffer ++ r) := by
  rw [feed]
  split
  · next hempty => rw [List.isEmpty_iff.mp hempty, List.nil_append, List.nil_append]
  · rw [← List.append_assoc]
    exact shown_drain (s := { s with buffer := s.buffer ++ c }) (Nat.le_refl _) r h

theorem feed_buffer_suffix (s : State α) (c : List α) :
    (F.feed s c).2.buffer <:+ s.buffer ++ c := by
  rw [feed]
  split
  · next hempty => rw [List.isEmpty_iff.mp hempty, List.append_nil]
  · exact drain_buffer_suffix _ _

/-- Where every tag that a boundary goes through is held, the boundaries make no difference. -/
theorem filter_eq_shown {s : State α} {before : List α} (hbuffer : s.buffer <:+ before)
    {cs : List (List α)}
    (h : ∀ n < cs.length, Held F (before ++ (cs.take n).flatten) (cs.drop n).flatten) :
    F.filter s cs = F.shown s.inside (s.buffer ++ cs.flatten) := by
  induction cs generalizing s before with
  | nil =>
    rw [List.flatten_nil, List.append_nil]
    exact shown_drain_final (Nat.le_refl _)
  | cons c cs ih =>
    have hheld : Held F (before ++ c) cs.flatten := by
      cases cs with
      | nil => exact held_nil _
      | cons d cs => simpa using h 1 (by simp)
    have hsuffix : s.buffer ++ c <:+ before ++ c := List.suffix_append_self_iff.mpr hbuffer
    rw [filter, List.flatten_cons, shown_feed (hheld.suffix hsuffix),
      ih ((feed_buffer_suffix s c).trans hsuffix) fun n hn => ?_]
    simpa using h (n + 1) (Nat.succ_lt_succ hn)

end Filter

end Eyot.Blocks
