import Mathlib.Algebra.GroupWithZero.Nat
import Mathlib.Algebra.Order.BigOperators.Group.List
import Mathlib.Algebra.Order.Group.Nat
import Mathlib.Data.List.Count
import Mathlib.Data.List.DropRight

/-! Texts over any alphabet with a notion of white space: stripping, words and slices. -/

universe u v

namespace Eyot.Scan

variable {α : Type u} (space : α → Bool)

def strip (l : List α) : List α := (l.dropWhile space).rdropWhile space

/-- The maximal runs of characters that are not white space, in order. -/
def words (l : List α) : List (List α) := (l.splitOnP space).filter (!·.isEmpty)

def slice (l : List α) (start stop : Nat) : List α := (l.take stop).drop start

variable {space}

theorem slice_append_slice (l : List α) {a b c : Nat} (hab : a ≤ b) (hbc : b ≤ c) :
    slice l a b ++ slice l b c = slice l a c := by
  unfold slice
  have h : l.take b = (l.take c).take b := by rw [List.take_take, Nat.min_eq_left hbc]
  rw [h]
  generalize l.take c = m
  have hdrop : m.drop a = (m.take b ++ m.drop b).drop a := by rw [List.take_append_drop]
  rw [hdrop, List.drop_append, List.length_take]
  by_cases hb : b ≤ m.length
  · rw [Nat.min_eq_left hb, Nat.sub_eq_zero_of_le hab, List.drop_zero]
  · have hlen : m.length ≤ b := by omega
    simp [List.drop_eq_nil_of_le hlen]

@[simp] theorem words_nil : words space ([] : List α) = [] := rfl

theorem words_append (a b : List α) {s : α} (hs : space s = true) :
    words space (a ++ s :: b) = words space a ++ words space b := by
  rw [words, List.splitOnP_append_cons a b hs, List.filter_append]
  rfl

theorem words_cons_of_space {s : α} (hs : space s = true) (l : List α) :
    words space (s :: l) = words space l :=
  words_append [] l hs

theorem words_run {l : List α} (h : ∀ c ∈ l, space c = false) :
    words space l = [l].filter (!·.isEmpty) := by
  rw [words, List.splitOnP_eq_singleton h]

/-- A text is a run without white space, or such a run followed by white space and a text. -/
theorem induction_on_words (space : α → Bool) {P : List α → Prop} (hrun : ∀ a, (∀ c ∈ a, space c = false) → P a)
    (hspace : ∀ a s b, (∀ c ∈ a, space c = false) → space s = true → P b → P (a ++ s :: b)) :
    ∀ l, P l := by
  intro l
  have key : ∀ b a, (∀ c ∈ a, space c = false) → P (a ++ b) := by
    intro b
    induction b with
    | nil =>
      intro a ha
      rw [List.append_nil]
      exact hrun a ha
    | cons c b ih =>
      intro a ha
      cases hc : space c with
      | true => exact hspace a c b ha hc (ih [] (by simp))
      | false =>
        have := ih (a ++ [c]) (by simpa [or_imp, forall_and, hc] using ha)
        rwa [List.append_assoc] at this
  exact key l [] (by simp)

theorem words_eq_nil {l : List α} (h : ∀ c ∈ l, space c = true) : words space l = [] := by
  induction l with
  | nil => rfl
  | cons c l ih =>
    rw [words_cons_of_space (h c List.mem_cons_self)]
    exact ih fun d hd => h d (List.mem_cons_of_mem c hd)

theorem flatten_words (l : List α) :
    (words space l).flatten = l.filter fun c => !space c := by
  have hrun : ∀ a : List α, (∀ c ∈ a, space c = false) →
      (words space a).flatten = a.filter fun c => !space c := by
    intro a ha
    rw [List.filter_eq_self.mpr (by simpa using ha), words_run ha]
    cases a <;> simp
  induction l using induction_on_words space with
  | hrun a ha => exact hrun a ha
  | hspace a s b ha hs ih =>
    rw [words_append a b hs, List.flatten_append, hrun a ha, ih, List.filter_append,
      List.filter_cons_of_neg (by simp [hs])]

theorem mem_words {l w : List α} (h : w ∈ words space l) :
    w ≠ [] ∧ ∀ c ∈ w, space c = false := by
  have hrun : ∀ a : List α, (∀ c ∈ a, space c = false) → w ∈ words space a →
      w ≠ [] ∧ ∀ c ∈ w, space c = false := by
    intro a ha hw
    rw [words_run ha, List.mem_filter, List.mem_singleton] at hw
    obtain ⟨rfl, hne⟩ := hw
    exact ⟨by simpa using hne, ha⟩
  induction l using induction_on_words space with
  | hrun a ha => exact hrun a ha h
  | hspace a s b ha hs ih =>
    rw [words_append a b hs, List.mem_append] at h
    exact h.elim (hrun a ha) ih

theorem words_append_spaces (a : List α) {v : List α} (hv : ∀ c ∈ v, space c = true) :
    words space (a ++ v) = words space a := by
  cases v with
  | nil => rw [List.append_nil]
  | cons s v =>
    rw [words_append a v (hv s List.mem_cons_self),
      words_eq_nil fun c hc => hv c (List.mem_cons_of_mem s hc), List.append_nil]

theorem words_spaces_append {u : List α} (hu : ∀ c ∈ u, space c = true) (a : List α) :
    words space (u ++ a) = words space a := by
  induction u with
  | nil => rfl
  | cons s u ih =>
    rw [List.cons_append, words_cons_of_space (hu s List.mem_cons_self)]
    exact ih fun c hc => hu c (List.mem_cons_of_mem s hc)

/-! Stripping. -/

theorem strip_decompose (space : α → Bool) (l : List α) :
    ∃ u v, l = u ++ (strip space l ++ v) ∧ (∀ c ∈ u, space c = true) ∧ ∀ c ∈ v, space c = true := by
  refine ⟨l.takeWhile space, (l.dropWhile space).rtakeWhile space, ?_, ?_, ?_⟩
  · rw [strip, List.rdropWhile_append_rtakeWhile, List.takeWhile_append_dropWhile]
  · exact fun c hc => List.mem_takeWhile_imp hc
  · exact fun c hc => List.mem_rtakeWhile_imp hc

theorem words_strip (l : List α) : words space (strip space l) = words space l := by
  obtain ⟨u, v, hl, hu, hv⟩ := strip_decompose space l
  conv_rhs => rw [hl]
  rw [words_spaces_append hu, words_append_spaces _ hv]

theorem dropWhile_append_of_all {u : List α} (hu : ∀ c ∈ u, space c = true) (a : List α) :
    (u ++ a).dropWhile space = a.dropWhile space := by
  rw [List.dropWhile_append, List.dropWhile_eq_nil_iff.mpr hu]
  rfl

theorem drop_length_takeWhile (space : α → Bool) (l : List α) :
    l.drop (l.takeWhile space).length = l.dropWhile space := by
  have h : (l.takeWhile space ++ l.dropWhile space).drop (l.takeWhile space).length =
      l.dropWhile space := List.drop_left
  rwa [List.takeWhile_append_dropWhile] at h

theorem takeWhile_append_stop (a : List α) {s : α} (hs : space s = false) (b : List α) :
    (a ++ s :: b).takeWhile space = a.takeWhile space := by
  rw [List.takeWhile_append]
  split
  · rename_i hlen
    rw [List.takeWhile_cons_of_neg (by simp [hs]), List.append_nil,
      (List.takeWhile_prefix space).eq_of_length hlen]
  · rfl

theorem rdropWhile_append_of_all (a : List α) {v : List α} (hv : ∀ c ∈ v, space c = true) :
    (a ++ v).rdropWhile space = a.rdropWhile space := by
  rw [List.rdropWhile, List.reverse_append, dropWhile_append_of_all (by simpa using hv)]
  rfl

theorem strip_append_of_all {u v : List α} (hu : ∀ c ∈ u, space c = true)
    (hv : ∀ c ∈ v, space c = true) (a : List α) :
    strip space (u ++ (a ++ v)) = strip space a := by
  rw [strip, dropWhile_append_of_all hu, strip, List.dropWhile_append]
  split
  · rename_i h
    have ha : ∀ c ∈ a, space c = true := by simpa using h
    rw [List.dropWhile_eq_nil_iff.mpr hv, List.dropWhile_eq_nil_iff.mpr ha]
  · rw [rdropWhile_append_of_all _ hv]

theorem strip_eq_self {l : List α} (hhead : ∀ c, l.head? = some c → space c = false)
    (hlast : ∀ c, l.getLast? = some c → space c = false) : strip space l = l := by
  cases l with
  | nil => rfl
  | cons c l =>
    rw [strip, List.dropWhile_cons_of_neg (by simp [hhead c rfl]), List.rdropWhile_eq_self_iff]
    intro hne
    simp [hlast _ (List.getLast?_eq_some_getLast hne)]

theorem strip_head {l : List α} {c : α} (h : (strip space l).head? = some c) :
    space c = false := by
  cases hd : l.dropWhile space with
  | nil => simp [strip, hd] at h
  | cons d r =>
    have hne : l.dropWhile space ≠ [] := by simp [hd]
    have hnot := List.head_dropWhile_not space hne
    simp only [hd, List.head_cons] at hnot
    rw [strip, hd] at h
    have hpre := List.rdropWhile_prefix space (d :: r)
    obtain ⟨v, hv⟩ := hpre
    cases hr : (d :: r).rdropWhile space with
    | nil => simp [hr] at h
    | cons e q =>
      rw [hr] at h hv
      obtain rfl : e = c := by simpa using h
      obtain rfl : e = d := (List.cons.inj hv).1
      exact hnot

theorem strip_last {l : List α} {c : α} (h : (strip space l).getLast? = some c) :
    space c = false := by
  have hne : strip space l ≠ [] := by
    rintro heq
    simp [heq] at h
  have hlast := List.rdropWhile_last_not space (l.dropWhile space) hne
  rw [List.getLast?_eq_some_getLast hne] at h
  rw [← Option.some.inj h]
  exact eq_false_of_ne_true hlast

theorem strip_strip (l : List α) : strip space (strip space l) = strip space l :=
  strip_eq_self (fun _ => strip_head) fun _ => strip_last

theorem strip_eq_nil {l : List α} : strip space l = [] ↔ ∀ c ∈ l, space c = true := by
  rw [strip, List.rdropWhile_eq_nil_iff]
  constructor
  · intro h
    cases hd : l.dropWhile space with
    | nil => exact List.dropWhile_eq_nil_iff.mp hd
    | cons d r =>
      have hne : l.dropWhile space ≠ [] := by simp [hd]
      have hnot := List.head_dropWhile_not space hne
      rw [h _ (List.head_mem hne)] at hnot
      cases hnot
  · exact fun h c hc => h c (List.dropWhile_subset space hc)

theorem filter_strip (l : List α) :
    ((strip space l).filter fun c => !space c) = l.filter fun c => !space c := by
  rw [← flatten_words, words_strip, flatten_words]

/-- A list that is not empty and has no space at either end. -/
structure Trimmed (space : α → Bool) (l : List α) : Prop where
  ne_nil : l ≠ []
  head : ∀ c, l.head? = some c → space c = false
  last : ∀ c, l.getLast? = some c → space c = false

theorem Trimmed.strip {l : List α} (h : Trimmed space l) : strip space l = l :=
  strip_eq_self h.head h.last

theorem trimmed_strip {l : List α} (h : strip space l ≠ []) : Trimmed space (strip space l) :=
  ⟨h, fun _ => strip_head, fun _ => strip_last⟩

theorem trimmed_of_mem_words {l w : List α} (h : w ∈ words space l) : Trimmed space w :=
  have hw := mem_words h
  ⟨hw.1, fun c hc => hw.2 c (List.mem_of_head? hc), fun c hc => hw.2 c (List.mem_of_getLast? hc)⟩

theorem Trimmed.append {a b : List α} (ha : Trimmed space a) (m : List α) (hb : Trimmed space b) :
    Trimmed space (a ++ m ++ b) where
  ne_nil := by simp [ha.ne_nil]
  head c hc := by
    rw [List.append_assoc, List.head?_append_of_ne_nil _ ha.ne_nil] at hc
    exact ha.head c hc
  last c hc := by
    rw [List.getLast?_append_of_ne_nil _ hb.ne_nil] at hc
    exact hb.last c hc

theorem trimmed_intercalate (separator : List α) {ls : List (List α)} (hne : ls ≠ [])
    (h : ∀ l ∈ ls, Trimmed space l) : Trimmed space (separator.intercalate ls) := by
  induction ls with
  | nil => exact absurd rfl hne
  | cons l ls ih =>
    rw [List.forall_mem_cons] at h
    cases ls with
    | nil =>
      rw [List.intercalate_singleton]
      exact h.1
    | cons m ls =>
      rw [List.intercalate_cons_cons]
      exact h.1.append separator (ih (List.cons_ne_nil m ls) h.2)

/-! Two notions of white space. -/

theorem takeWhile_congr {p q : α → Bool} {l : List α} (h : ∀ c ∈ l, p c = q c) :
    l.takeWhile p = l.takeWhile q := by
  induction l with
  | nil => rfl
  | cons c l ih =>
    rw [List.forall_mem_cons] at h
    rw [List.takeWhile_cons, List.takeWhile_cons, h.1, ih h.2]

theorem strip_congr {p q : α → Bool} {l : List α} (h : ∀ c ∈ l, p c = q c) :
    strip p l = strip q l := by
  obtain ⟨u, v, hl, hu, hv⟩ := strip_decompose p l
  have hmem : ∀ c, c ∈ u ++ (strip p l ++ v) → q c = p c := by
    intro c hc
    rw [← hl] at hc
    exact (h c hc).symm
  have hu' : ∀ c ∈ u, q c = true := fun c hc => (hmem c (by simp [hc])).trans (hu c hc)
  have hv' : ∀ c ∈ v, q c = true := fun c hc => (hmem c (by simp [hc])).trans (hv c hc)
  conv_rhs => rw [hl, strip_append_of_all hu' hv']
  refine (strip_eq_self (fun c hc => ?_) fun c hc => ?_).symm
  · rw [hmem c (by simp [List.mem_of_head? hc])]
    exact strip_head hc
  · rw [hmem c (by simp [List.mem_of_getLast? hc])]
    exact strip_last hc

theorem words_congr {p q : α → Bool} {l : List α} (h : ∀ c ∈ l, p c = q c) :
    words p l = words q l := by
  have hrun : ∀ a : List α, (∀ c ∈ a, p c = false) → (∀ c ∈ a, p c = q c) →
      words p a = words q a := by
    intro a ha haq
    rw [words_run ha, words_run fun c hc => (haq c hc).symm.trans (ha c hc)]
  induction l using induction_on_words p with
  | hrun a ha => exact hrun a ha h
  | hspace a s b ha hs ih =>
    rw [List.forall_mem_append, List.forall_mem_cons] at h
    rw [words_append a b hs, words_append a b (h.2.1.symm.trans hs), hrun a ha h.1, ih h.2.2]

/-- The words of a text tell its white space. -/
theorem words_eq_iff {p q : α → Bool} {l : List α} :
    words p l = words q l ↔ ∀ c ∈ l, p c = q c := by
  refine ⟨fun h c hc => ?_, words_congr⟩
  have hvisible := congrArg List.flatten h
  rw [flatten_words, flatten_words] at hvisible
  have hp : c ∈ l.filter (fun c => !p c) ↔ p c = false := by simp [hc]
  have hq : c ∈ l.filter (fun c => !q c) ↔ q c = false := by simp [hc]
  rw [hvisible, hq] at hp
  cases hpc : p c with
  | true => simpa [hpc] using hp
  | false => exact (hp.mpr hpc).symm

/-- Two runs of white space a text starts with, each in front of a character that is none of
the other's white space, are the same. -/
theorem eq_of_append_eq {p q : α → Bool} {u v a b : List α} {c d : α}
    (h : u ++ c :: a = v ++ d :: b) (hu : ∀ x ∈ u, p x = true) (hv : ∀ x ∈ v, q x = true)
    (hc : q c = false) (hd : p d = false) : u = v ∧ c :: a = d :: b := by
  induction u generalizing v with
  | nil =>
    cases v with
    | nil => exact ⟨rfl, h⟩
    | cons x v =>
      obtain rfl := (List.cons.inj h).1
      rw [hv c List.mem_cons_self] at hc
      cases hc
  | cons x u ih =>
    rw [List.forall_mem_cons] at hu
    cases v with
    | nil =>
      obtain rfl := (List.cons.inj h).1
      rw [hu.1] at hd
      cases hd
    | cons y v =>
      obtain ⟨rfl, htail⟩ := List.cons.inj h
      obtain ⟨rfl, hrest⟩ := ih htail hu.2 fun z hz => hv z (List.mem_cons_of_mem x hz)
      exact ⟨rfl, hrest⟩

/-! Lists whose elements are rewritten one by one. -/

/-- Rewriting the elements of a list, and keeping some, come to the same only if nothing but
`b` is rewritten to a `b` that is kept. -/
theorem eq_of_map_eq_filter [DecidableEq α] {f : α → α} {p q : α → Bool} {l : List α}
    (h : (l.map f).filter p = l.filter q) {b : α} (hfix : f b = b) (hp : p b = true)
    (hq : q b = true) : ∀ t ∈ l, f t = b → t = b := by
  have hcount : l.countP (fun t => f t = b) = l.countP fun t => t = b := by
    have := congrArg (List.count b) h
    rw [List.count_filter hp, List.count_filter hq, List.count_eq_countP, List.countP_map,
      List.count_eq_countP] at this
    simpa [Function.comp_def, beq_eq_decide] using this
  have hfilter : (l.filter fun t => f t = b).filter (fun t => t = b) = l.filter fun t => t = b := by
    rw [List.filter_filter]
    apply List.filter_congr
    intro t _
    by_cases ht : t = b <;> simp [ht, hfix]
  have hlen : ((l.filter fun t => f t = b).filter fun t => t = b).length =
      (l.filter fun t => f t = b).length := by
    rw [hfilter, ← List.countP_eq_length_filter, ← List.countP_eq_length_filter, hcount]
  intro t ht hft
  have := List.length_filter_eq_length_iff.mp hlen t (by simp [ht, hft])
  simpa using this

theorem eq_of_sum_le {f g : α → Nat} {l : List α} (hle : ∀ t ∈ l, f t ≤ g t)
    (hsum : (l.map g).sum ≤ (l.map f).sum) : ∀ t ∈ l, f t = g t := by
  induction l with
  | nil => simp
  | cons a l ih =>
    rw [List.forall_mem_cons] at hle ⊢
    have hrest : (l.map f).sum ≤ (l.map g).sum := List.sum_le_sum hle.2
    simp only [List.map_cons, List.sum_cons] at hsum
    exact ⟨by omega, ih hle.2 (by omega)⟩

/-- Where one of two lists of pieces has no longer pieces than the other, and both have the same
pieces put together, they are the same. -/
theorem eq_of_flatMap_eq {β : Type v} {f g : α → List β} {l : List α}
    (h : l.flatMap f = l.flatMap g) (hle : ∀ t ∈ l, (f t).length ≤ (g t).length) :
    ∀ t ∈ l, f t = g t := by
  have hsum := congrArg List.length h
  rw [List.length_flatMap, List.length_flatMap] at hsum
  have hlen := eq_of_sum_le hle hsum.ge
  clear hle hsum
  induction l with
  | nil => simp
  | cons a l ih =>
    rw [List.forall_mem_cons] at hlen ⊢
    rw [List.flatMap_cons, List.flatMap_cons] at h
    obtain ⟨ha, hl⟩ := List.append_inj h hlen.1
    exact ⟨ha, ih hl hlen.2⟩

theorem sum_map_filter (p : α → Bool) (f : α → Nat) (l : List α) :
    ((l.filter p).map f).sum = (l.map fun t => if p t then f t else 0).sum := by
  induction l with
  | nil => rfl
  | cons a l ih => cases h : p a <;> simp [h, ih]

end Eyot.Scan
