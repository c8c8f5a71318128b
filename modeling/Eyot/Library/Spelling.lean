import Eyot.Library.Pattern

/-! Texts that are spelled in another alphabet, each character by one or more of the other's.
Scanning what a text is spelled as finds what scanning the text finds. -/

universe u v w x

namespace Eyot.Scan

structure Spelling (α : Type u) (β : Type v) where
  spell : α → List β
  spell_ne : ∀ a, spell a ≠ []

namespace Spelling

variable {α : Type u} {β : Type v} (e : Spelling α β)

def text (l : List α) : List β := l.flatMap e.spell

/-- `q` says of every letter a character is spelled by what `p` says of the character. -/
def Agrees (p : α → Bool) (q : β → Bool) : Prop := ∀ a, ∀ b ∈ e.spell a, q b = p a

@[simp] theorem text_nil : e.text [] = [] := rfl

@[simp] theorem text_cons (a : α) (l : List α) : e.text (a :: l) = e.spell a ++ e.text l := rfl

@[simp] theorem text_append (l m : List α) : e.text (l ++ m) = e.text l ++ e.text m :=
  List.flatMap_append

theorem text_eq_nil {l : List α} : e.text l = [] ↔ l = [] := by
  cases l with
  | nil => simp
  | cons a l => simp [e.spell_ne a]

variable {e} {p : α → Bool} {q : β → Bool}

theorem mem_text {l : List α} {b : β} : b ∈ e.text l ↔ ∃ a ∈ l, b ∈ e.spell a :=
  List.mem_flatMap

theorem Agrees.not (h : e.Agrees p q) : e.Agrees (fun a => !p a) fun b => !q b :=
  fun a b hb => congrArg (!·) (h a b hb)

theorem Agrees.forall_mem (h : e.Agrees p q) {l : List α} {v : Bool} (hl : ∀ a ∈ l, p a = v) :
    ∀ b ∈ e.text l, q b = v := by
  intro b hb
  obtain ⟨a, ha, hb⟩ := mem_text.mp hb
  rw [h a b hb]
  exact hl a ha

theorem Agrees.head?_all (h : e.Agrees p q) (l : List α) :
    (e.text l).head?.all q = l.head?.all p := by
  cases l with
  | nil => rfl
  | cons a l =>
    cases hs : e.spell a with
    | nil => exact absurd hs (e.spell_ne a)
    | cons b bs => simp [hs, h a b (by simp [hs])]

theorem Agrees.getLast?_all (h : e.Agrees p q) (l : List α) :
    (e.text l).getLast?.all q = l.getLast?.all p := by
  induction l using List.reverseRecOn with
  | nil => rfl
  | append_singleton l a =>
    rw [text_append, text_cons, text_nil, List.append_nil,
      List.getLast?_append_of_ne_nil _ (e.spell_ne a), List.getLast?_concat]
    cases hlast : (e.spell a).getLast? with
    | none => exact absurd (List.getLast?_eq_none_iff.mp hlast) (e.spell_ne a)
    | some b => simp [h a b (List.mem_of_getLast? hlast)]

theorem Agrees.takeWhile (h : e.Agrees p q) (l : List α) :
    (e.text l).takeWhile q = e.text (l.takeWhile p) := by
  induction l with
  | nil => rfl
  | cons a l ih =>
    rw [text_cons]
    cases hp : p a with
    | true =>
      rw [List.takeWhile_append_of_pos fun b hb => (h a b hb).trans hp, ih,
        List.takeWhile_cons_of_pos hp, text_cons]
    | false =>
      cases hs : e.spell a with
      | nil => exact absurd hs (e.spell_ne a)
      | cons b bs =>
        have hb : q b = false := (h a b (by simp [hs])).trans hp
        simp [hb, hp]

theorem Agrees.dropWhile (h : e.Agrees p q) (l : List α) :
    (e.text l).dropWhile q = e.text (l.dropWhile p) := by
  have htake := h.takeWhile l
  have hsplit : (e.text l).takeWhile q ++ (e.text l).dropWhile q =
      e.text (l.takeWhile p) ++ e.text (l.dropWhile p) := by
    rw [List.takeWhile_append_dropWhile, ← text_append, List.takeWhile_append_dropWhile]
  rw [htake] at hsplit
  exact List.append_cancel_left hsplit

theorem Agrees.strip (h : e.Agrees p q) (l : List α) :
    strip q (e.text l) = e.text (strip p l) := by
  obtain ⟨u, v, hl, hu, hv⟩ := strip_decompose p l
  conv_lhs => rw [hl, text_append, text_append]
  rw [strip_append_of_all (h.forall_mem hu) (h.forall_mem hv)]
  have hhead : (e.text (Scan.strip p l)).head?.all (fun b => !q b) = true := by
    rw [h.not.head?_all, Option.all_eq_true]
    exact fun a ha => by simp [strip_head ha]
  have hlast : (e.text (Scan.strip p l)).getLast?.all (fun b => !q b) = true := by
    rw [h.not.getLast?_all, Option.all_eq_true]
    exact fun a ha => by simp [strip_last ha]
  rw [Option.all_eq_true] at hhead hlast
  exact strip_eq_self (fun b hb => by simpa using hhead b hb) fun b hb => by simpa using hlast b hb

/-- Splitting at characters that are spelled by one letter. -/
theorem Agrees.splitOnP (h : e.Agrees p q) (hone : ∀ a, p a = true → ∃ b, e.spell a = [b])
    (l : List α) : (e.text l).splitOnP q = (l.splitOnP p).map e.text := by
  induction l using induction_on_words p with
  | hrun a ha =>
    rw [List.splitOnP_eq_singleton ha, List.splitOnP_eq_singleton (h.forall_mem ha)]
    rfl
  | hspace a s b ha hs ih =>
    obtain ⟨t, ht⟩ := hone s hs
    have hq : q t = true := (h s t (by simp [ht])).trans hs
    rw [List.splitOnP_append_cons_of_forall_mem ha s hs, text_append, text_cons, ht,
      List.singleton_append,
      List.splitOnP_append_cons_of_forall_mem (h.forall_mem ha) t hq, ih]
    rfl

theorem Agrees.words (h : e.Agrees p q) (hone : ∀ a, p a = true → ∃ b, e.spell a = [b])
    (l : List α) : words q (e.text l) = (words p l).map e.text := by
  rw [Scan.words, h.splitOnP hone, Scan.words, List.filter_map]
  congr 1
  apply List.filter_congr
  intro w _
  cases w with
  | nil => rfl
  | cons a w => simp [e.spell_ne a]

theorem text_intercalate (separator : List α) (ls : List (List α)) :
    e.text (separator.intercalate ls) = (e.text separator).intercalate (ls.map e.text) := by
  induction ls with
  | nil => rfl
  | cons l ls ih =>
    cases ls with
    | nil => simp
    | cons m ls =>
      simp only [List.map_cons] at ih ⊢
      rw [List.intercalate_cons_cons, List.intercalate_cons_cons, text_append, text_append, ih]

/-- A text is told by its spelling where no character's spelling starts as another's. -/
theorem text_injective (h : ∀ a b x y, e.spell a ++ x = e.spell b ++ y → a = b) :
    Function.Injective e.text := by
  intro l m heq
  induction l generalizing m with
  | nil => exact (e.text_eq_nil.mp heq.symm).symm
  | cons a l ih =>
    cases m with
    | nil => exact e.text_eq_nil.mp heq
    | cons b m =>
      rw [text_cons, text_cons] at heq
      obtain rfl := h a b _ _ heq
      rw [ih (List.append_cancel_left heq)]

/-- A text is read back up to a letter that starts no character's spelling. -/
theorem text_append_close (h : ∀ a b x y, e.spell a ++ x = e.spell b ++ y → a = b) {c : β}
    (hc : ∀ a, (e.spell a).head? ≠ some c) {l m : List α} {x y : List β}
    (heq : e.text l ++ c :: x = e.text m ++ c :: y) : l = m ∧ x = y := by
  have hclose : ∀ a t, e.spell a ++ t ≠ c :: x ∧ e.spell a ++ t ≠ c :: y := by
    intro a t
    cases hs : e.spell a with
    | nil => exact absurd hs (e.spell_ne a)
    | cons b bs =>
      have hne : b ≠ c := fun hb => hc a (by rw [hs, hb, List.head?_cons])
      exact ⟨fun hx => hne (List.cons.inj hx).1, fun hy => hne (List.cons.inj hy).1⟩
  induction l generalizing m with
  | nil =>
    cases m with
    | nil => exact ⟨rfl, (List.cons.inj heq).2⟩
    | cons b m =>
      rw [text_cons, List.append_assoc] at heq
      exact absurd heq.symm (hclose b _).1
  | cons a l ih =>
    rw [text_cons, List.append_assoc] at heq
    cases m with
    | nil => exact absurd heq (hclose a _).2
    | cons b m =>
      rw [text_cons, List.append_assoc] at heq
      obtain rfl := h a b _ _ heq
      obtain ⟨rfl, hrest⟩ := ih (List.append_cancel_left heq)
      exact ⟨rfl, hrest⟩

/-- Where a letter's spelling can be cut off a text, two texts that start alike are spelled
from texts that start alike. -/
theorem text_append_cancel (h : ∀ a b x y, e.spell a ++ x = e.spell b ++ y → a = b)
    {l m : List α} {x y : List β} (heq : e.text l ++ x = e.text m ++ y) :
    ∃ u v, l ++ u = m ++ v := by
  induction l generalizing m with
  | nil => exact ⟨m, [], (List.append_nil m).symm⟩
  | cons a l ih =>
    cases m with
    | nil => exact ⟨[], a :: l, List.append_nil _⟩
    | cons b m =>
      rw [text_cons, text_cons, List.append_assoc, List.append_assoc] at heq
      obtain rfl := h a b _ _ heq
      obtain ⟨u, v, huv⟩ := ih (List.append_cancel_left heq)
      exact ⟨u, v, congrArg (a :: ·) huv⟩

theorem slice_text {l : List α} {a b : Nat} (hab : a ≤ b) :
    slice (e.text l) (e.text (l.take a)).length (e.text (l.take b)).length =
      e.text (slice l a b) := by
  have htake : l.take b = l.take a ++ slice l a b := by
    have h := slice_append_slice l (Nat.zero_le a) hab
    simpa [slice] using h.symm
  have hsplit : e.text l = e.text (l.take b) ++ e.text (l.drop b) := by
    rw [← text_append, List.take_append_drop]
  rw [slice, hsplit, List.take_left]
  conv_lhs => rw [htake, text_append, List.drop_left]

/-! Patterns. -/

variable {γ : Type w} {δ : Type x}

/-- `pat'` matches what a text is spelled as where `pat` matches the text, and nowhere inside
what one character is spelled as. -/
structure Follows (e : Spelling α β) (pat : Pattern α γ) (pat' : Pattern β δ) (g : γ → δ) :
    Prop where
  atHead : ∀ l, pat'.atHead (e.text l) =
    (pat.atHead l).map fun r => (g r.1, (e.text (l.take r.2)).length)
  inside : ∀ a u b v rest, e.spell a = u ++ b :: v → u ≠ [] → pat'.atHead (b :: rest) = none

def mapMatch (e : Spelling α β) (g : γ → δ) (m : Match α γ) : Match β δ :=
  ⟨e.text m.before, e.text m.text, e.text m.after, g m.groups⟩

variable {pat : Pattern α γ} {pat' : Pattern β δ} {g : γ → δ}

theorem Follows.finditerFrom_inside (h : e.Follows pat pat' g) {a : α} {u v : List β}
    (hs : e.spell a = u ++ v) (hu : u ≠ []) (before rest : List β) :
    pat'.finditerFrom before 0 (v ++ rest) = pat'.finditerFrom (before ++ v) 0 rest := by
  induction v generalizing u before with
  | nil => rw [List.nil_append, List.append_nil]
  | cons b v ih =>
    rw [List.cons_append, Pattern.finditerFrom_none _ (h.inside a u b v _ hs hu),
      ih (u := u ++ [b]) (by simp [hs]) (by simp)]
    simp

theorem Follows.sub_inside (h : e.Follows pat pat' g) {a : α} {u v : List β}
    (hs : e.spell a = u ++ v) (hu : u ≠ []) (rest : List β) :
    pat'.sub (v ++ rest) = v ++ pat'.sub rest := by
  induction v generalizing u with
  | nil => rfl
  | cons b v ih =>
    rw [List.cons_append, Pattern.sub_none (h.inside a u b v _ hs hu),
      ih (u := u ++ [b]) (by simp [hs]) (by simp)]
    rfl

theorem Follows.finditerFrom (h : e.Follows pat pat' g) (before l : List α) :
    pat'.finditerFrom (e.text before) 0 (e.text l) =
      (pat.finditerFrom before 0 l).map (e.mapMatch g) := by
  induction l using Pattern.induction_on_matches pat generalizing before with
  | nil => rfl
  | none c cs hnone ih =>
    have hat := h.atHead (c :: cs)
    rw [hnone, text_cons] at hat
    rw [Pattern.finditerFrom_none _ hnone, ← ih, text_append, text_cons]
    cases hs : e.spell c with
    | nil => exact absurd hs (e.spell_ne c)
    | cons b bs =>
      rw [hs, List.cons_append, Option.map_none] at hat
      rw [List.cons_append, Pattern.finditerFrom_none _ hat,
        h.finditerFrom_inside (u := [b]) (by simpa using hs) (by simp)]
      simp [hs]
  | some l c n hsome ih =>
    have hat := h.atHead l
    rw [hsome] at hat
    have hsplit : e.text l = e.text (l.take n) ++ e.text (l.drop n) := by
      rw [← text_append, List.take_append_drop]
    rw [Pattern.finditerFrom_some _ hat, Pattern.finditerFrom_some _ hsome, List.map_cons, ← ih]
    simp only [mapMatch, text_append]
    rw [hsplit, List.take_left, List.drop_left]

theorem Follows.finditer (h : e.Follows pat pat' g) (l : List α) :
    pat'.finditer (e.text l) = (pat.finditer l).map (e.mapMatch g) :=
  h.finditerFrom [] l

theorem Follows.search (h : e.Follows pat pat' g) (l : List α) :
    pat'.search (e.text l) = (pat.search l).map (e.mapMatch g) := by
  rw [Pattern.search, h.finditer, List.head?_map]
  rfl

theorem Follows.captures (h : e.Follows pat pat' g) (l : List α) :
    pat'.captures (e.text l) = (pat.captures l).map g := by
  rw [Pattern.captures, h.finditer, Pattern.captures, List.map_map, List.map_map]
  rfl

theorem Follows.sub (h : e.Follows pat pat' g) (l : List α) :
    pat'.sub (e.text l) = e.text (pat.sub l) := by
  induction l using Pattern.induction_on_matches pat with
  | nil => rfl
  | none c cs hnone ih =>
    have hat := h.atHead (c :: cs)
    rw [hnone, text_cons] at hat
    rw [Pattern.sub_none hnone, text_cons, text_cons, ← ih]
    cases hs : e.spell c with
    | nil => exact absurd hs (e.spell_ne c)
    | cons b bs =>
      rw [hs, List.cons_append, Option.map_none] at hat
      rw [List.cons_append, Pattern.sub_none hat,
        h.sub_inside (u := [b]) (by simpa using hs) (by simp)]
      rfl
  | some l c n hsome ih =>
    have hat := h.atHead l
    rw [hsome] at hat
    have hsplit : e.text l = e.text (l.take n) ++ e.text (l.drop n) := by
      rw [← text_append, List.take_append_drop]
    rw [Pattern.sub_some hsome, Pattern.sub_some hat, ← ih]
    conv_lhs => rw [hsplit, List.drop_left]

end Spelling

end Eyot.Scan
