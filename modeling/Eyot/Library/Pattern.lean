import Eyot.Library.Scan

/-! Patterns that are matched from left to right through a text, without overlaps. -/

universe u v

namespace Eyot.Scan

/-- A pattern looks at the head of a text: what it captures there, and how many characters
it takes. -/
structure Pattern (α : Type u) (γ : Type v) where
  atHead : List α → Option (γ × Nat)
  takes : ∀ {l g n}, atHead l = some (g, n) → 0 < n ∧ n ≤ l.length

structure Match (α : Type u) (γ : Type v) where
  before : List α
  text : List α
  after : List α
  groups : γ
  deriving DecidableEq

namespace Match

variable {α : Type u} {γ : Type v}

def start (m : Match α γ) : Nat := m.before.length

def stop (m : Match α γ) : Nat := m.before.length + m.text.length

end Match

namespace Pattern

variable {α : Type u} {γ : Type v} (pat : Pattern α γ)

def finditerFrom (before : List α) : Nat → List α → List (Match α γ)
  | _, [] => []
  | skip + 1, c :: cs => finditerFrom (before ++ [c]) skip cs
  | 0, c :: cs =>
    match pat.atHead (c :: cs) with
    | none => finditerFrom (before ++ [c]) 0 cs
    | some (g, n) =>
      ⟨before, (c :: cs).take n, (c :: cs).drop n, g⟩ :: finditerFrom (before ++ [c]) (n - 1) cs

/-- All matches, each searched for where the one before it stopped. -/
def finditer (l : List α) : List (Match α γ) := pat.finditerFrom [] 0 l

/-- The leftmost match. -/
def search (l : List α) : Option (Match α γ) := (pat.finditer l).head?

def subFrom : Nat → List α → List α
  | _, [] => []
  | skip + 1, _ :: cs => subFrom skip cs
  | 0, c :: cs =>
    match pat.atHead (c :: cs) with
    | none => c :: subFrom 0 cs
    | some (_, n) => subFrom (n - 1) cs

/-- The text with all matches taken out. -/
def sub (l : List α) : List α := pat.subFrom 0 l

def replaceFrom (f : Match α γ → List α) (before : List α) : Nat → List α → List α
  | _, [] => []
  | skip + 1, c :: cs => replaceFrom f (before ++ [c]) skip cs
  | 0, c :: cs =>
    match pat.atHead (c :: cs) with
    | none => c :: replaceFrom f (before ++ [c]) 0 cs
    | some (g, n) =>
      f ⟨before, (c :: cs).take n, (c :: cs).drop n, g⟩ ++
        replaceFrom f (before ++ [c]) (n - 1) cs

/-- The text with something else in the place of each match. -/
def replace (f : Match α γ → List α) (l : List α) : List α := pat.replaceFrom f [] 0 l

/-- What all matches capture. -/
def captures (l : List α) : List γ := (pat.finditer l).map Match.groups

variable {pat}

theorem replaceFrom_congr {f g : Match α γ → List α} (before : List α) (skip : Nat) (l : List α)
    (h : ∀ m ∈ pat.finditerFrom before skip l, f m = g m) :
    pat.replaceFrom f before skip l = pat.replaceFrom g before skip l := by
  induction l generalizing before skip with
  | nil => cases skip <;> rfl
  | cons c cs ih =>
    cases skip with
    | succ skip => exact ih _ _ h
    | zero =>
      rw [finditerFrom] at h
      rw [replaceFrom, replaceFrom]
      split at h
      · rw [ih _ _ h]
      · rw [List.forall_mem_cons] at h
        rw [h.1, ih _ _ h.2]

/-- Only what is put in the place of the matches matters. -/
theorem replace_congr {f g : Match α γ → List α} {l : List α}
    (h : ∀ m ∈ pat.finditer l, f m = g m) : pat.replace f l = pat.replace g l :=
  replaceFrom_congr [] 0 l h

theorem replaceFrom_of_length_le (f : Match α γ → List α) (before : List α) {skip : Nat}
    {l : List α} (h : l.length ≤ skip) : pat.replaceFrom f before skip l = [] := by
  induction l generalizing before skip with
  | nil => cases skip <;> rfl
  | cons c cs ih =>
    cases skip with
    | zero => cases h
    | succ skip => exact ih _ (Nat.le_of_succ_le_succ h)

theorem replace_of_whole (f : Match α γ → List α) {l : List α} {g : γ}
    (h : pat.atHead l = some (g, l.length)) : pat.replace f l = f ⟨[], l, [], g⟩ := by
  cases l with
  | nil => exact absurd (pat.takes h).1 (Nat.lt_irrefl 0)
  | cons c cs =>
    rw [replace, replaceFrom, h]
    dsimp only
    have hrest : pat.replaceFrom f ([] ++ [c]) ((c :: cs).length - 1) cs = [] :=
      replaceFrom_of_length_le f _ (Nat.le_refl cs.length)
    rw [List.take_length, List.drop_length, hrest, List.append_nil]

theorem finditerFrom_skip (before : List α) (k : Nat) (l : List α) :
    pat.finditerFrom before k l = pat.finditerFrom (before ++ l.take k) 0 (l.drop k) := by
  induction l generalizing before k with
  | nil => cases k <;> simp [finditerFrom]
  | cons c cs ih =>
    cases k with
    | zero => simp
    | succ k => simp [finditerFrom, ih (before ++ [c]) k]

theorem subFrom_skip (k : Nat) (l : List α) : pat.subFrom k l = pat.sub (l.drop k) := by
  induction l generalizing k with
  | nil => cases k <;> simp [subFrom, sub]
  | cons c cs ih =>
    cases k with
    | zero => simp [sub]
    | succ k => simp [subFrom, ih k]

theorem finditerFrom_none (before : List α) {c : α} {cs : List α}
    (h : pat.atHead (c :: cs) = none) :
    pat.finditerFrom before 0 (c :: cs) = pat.finditerFrom (before ++ [c]) 0 cs := by
  simp [finditerFrom, h]

theorem finditerFrom_some (before : List α) {l : List α} {g : γ} {n : Nat}
    (h : pat.atHead l = some (g, n)) :
    pat.finditerFrom before 0 l =
      ⟨before, l.take n, l.drop n, g⟩ :: pat.finditerFrom (before ++ l.take n) 0 (l.drop n) := by
  obtain ⟨hpos, hle⟩ := pat.takes h
  cases l with
  | nil => simp at hle; omega
  | cons c cs =>
    obtain ⟨n, rfl⟩ : ∃ k, n = k + 1 := ⟨n - 1, by omega⟩
    simp [finditerFrom, h, finditerFrom_skip (before ++ [c]) n cs]

theorem sub_none {c : α} {cs : List α} (h : pat.atHead (c :: cs) = none) :
    pat.sub (c :: cs) = c :: pat.sub cs := by
  simp [sub, subFrom, h]

theorem sub_some {l : List α} {g : γ} {n : Nat} (h : pat.atHead l = some (g, n)) :
    pat.sub l = pat.sub (l.drop n) := by
  obtain ⟨hpos, hle⟩ := pat.takes h
  cases l with
  | nil => simp at hle; omega
  | cons c cs =>
    obtain ⟨n, rfl⟩ : ∃ k, n = k + 1 := ⟨n - 1, by omega⟩
    rw [sub, subFrom, h]
    exact subFrom_skip n cs

/-- A text is gone through one character at a time where the pattern does not match, and one
match at a time where it does. -/
theorem induction_on_matches (pat : Pattern α γ) {P : List α → Prop} (nil : P [])
    (none : ∀ c cs, pat.atHead (c :: cs) = none → P cs → P (c :: cs))
    (some : ∀ l g n, pat.atHead l = some (g, n) → P (l.drop n) → P l) : ∀ l, P l := by
  intro l
  induction hlen : l.length using Nat.strong_induction_on generalizing l with
  | _ len ih =>
    cases l with
    | nil => exact nil
    | cons c cs =>
      cases h : pat.atHead (c :: cs) with
      | none => exact none c cs h (ih cs.length (by simp [← hlen]) cs rfl)
      | some r =>
        obtain ⟨hpos, hle⟩ := pat.takes h
        refine some (c :: cs) r.1 r.2 h (ih _ ?_ _ rfl)
        rw [List.length_drop, ← hlen]
        omega

theorem captures_nil : pat.captures [] = [] := rfl

theorem map_groups_finditerFrom (before : List α) (l : List α) :
    (pat.finditerFrom before 0 l).map Match.groups = pat.captures l := by
  induction l using induction_on_matches pat generalizing before with
  | nil => rfl
  | none c cs h ih =>
    rw [captures, finditer, finditerFrom_none _ h, finditerFrom_none _ h, ih, ih]
  | some l g n h ih =>
    rw [captures, finditer, finditerFrom_some _ h, finditerFrom_some _ h, List.map_cons, ih,
      List.map_cons, ih]

theorem captures_none {c : α} {cs : List α} (h : pat.atHead (c :: cs) = none) :
    pat.captures (c :: cs) = pat.captures cs := by
  rw [captures, finditer, finditerFrom_none _ h, map_groups_finditerFrom]

theorem captures_some {l : List α} {g : γ} {n : Nat} (h : pat.atHead l = some (g, n)) :
    pat.captures l = g :: pat.captures (l.drop n) := by
  rw [captures, finditer, finditerFrom_some _ h, List.map_cons, map_groups_finditerFrom]

/-- Where each match lies in the text. -/
theorem of_mem_finditerFrom {before l : List α} {m : Match α γ}
    (h : m ∈ pat.finditerFrom before 0 l) :
    ∃ gap, m.before = before ++ gap ∧ l = gap ++ (m.text ++ m.after) ∧
      pat.atHead (m.text ++ m.after) = some (m.groups, m.text.length) := by
  induction l using induction_on_matches pat generalizing before with
  | nil => simp [finditerFrom] at h
  | none c cs hnone ih =>
    rw [finditerFrom_none _ hnone] at h
    obtain ⟨gap, hbefore, hl, hat⟩ := ih h
    exact ⟨c :: gap, by simp [hbefore], by simp [hl], hat⟩
  | some l g n hsome ih =>
    rw [finditerFrom_some _ hsome, List.mem_cons] at h
    rcases h with rfl | h
    · obtain ⟨-, hle⟩ := pat.takes hsome
      refine ⟨[], by simp, by simp, ?_⟩
      simpa [hle] using hsome
    · obtain ⟨gap, hbefore, hl, hat⟩ := ih h
      refine ⟨l.take n ++ gap, by simp [hbefore], ?_, hat⟩
      rw [List.append_assoc, ← hl, List.take_append_drop]

theorem of_mem_finditer {l : List α} {m : Match α γ} (h : m ∈ pat.finditer l) :
    l = m.before ++ (m.text ++ m.after) ∧
      pat.atHead (m.text ++ m.after) = some (m.groups, m.text.length) := by
  obtain ⟨gap, hbefore, hl, hat⟩ := of_mem_finditerFrom h
  rw [List.nil_append] at hbefore
  exact ⟨hbefore ▸ hl, hat⟩

theorem pairwise_finditerFrom (pat : Pattern α γ) (before l : List α) :
    (pat.finditerFrom before 0 l).Pairwise fun m n => (m.before ++ m.text) <+: n.before := by
  induction l using induction_on_matches pat generalizing before with
  | nil => exact .nil
  | none c cs h ih =>
    rw [finditerFrom_none _ h]
    exact ih _
  | some l g n h ih =>
    rw [finditerFrom_some _ h]
    refine .cons (fun m hm => ?_) (ih _)
    obtain ⟨gap, hbefore, -⟩ := of_mem_finditerFrom hm
    exact ⟨gap, hbefore.symm⟩

theorem search_of_atHead {l : List α} {g : γ} {n : Nat} (h : pat.atHead l = some (g, n)) :
    pat.search l = some ⟨[], l.take n, l.drop n, g⟩ := by
  rw [search, finditer, finditerFrom_some _ h]
  rfl

/-! Two patterns that match the same at the end of a text, wherever it starts. -/

theorem finditerFrom_congr {pat' : Pattern α γ} {l : List α}
    (h : ∀ t, t <:+ l → pat.atHead t = pat'.atHead t) (before : List α) (k : Nat) :
    pat.finditerFrom before k l = pat'.finditerFrom before k l := by
  induction l generalizing before k with
  | nil => cases k <;> rfl
  | cons c cs ih =>
    have ih := ih fun t ht => h t (ht.trans (List.suffix_cons c cs))
    cases k with
    | succ k => exact ih (before ++ [c]) k
    | zero =>
      rw [finditerFrom, finditerFrom, h _ (List.suffix_refl _)]
      split
      · exact ih (before ++ [c]) 0
      · rw [ih]

theorem captures_congr {pat' : Pattern α γ} {l : List α}
    (h : ∀ t, t <:+ l → pat.atHead t = pat'.atHead t) : pat.captures l = pat'.captures l :=
  congrArg _ (finditerFrom_congr h [] 0)

theorem sub_congr {pat' : Pattern α γ} {l : List α}
    (h : ∀ t, t <:+ l → pat.atHead t = pat'.atHead t) : pat.sub l = pat'.sub l := by
  unfold sub
  generalize 0 = k
  induction l generalizing k with
  | nil => cases k <;> rfl
  | cons c cs ih =>
    have ih := ih fun t ht => h t (ht.trans (List.suffix_cons c cs))
    cases k with
    | succ k => exact ih k
    | zero =>
      rw [subFrom, subFrom, h _ (List.suffix_refl _)]
      split
      · rw [ih]
      · exact ih _

/-! Taking matches out. -/

theorem sub_sublist (pat : Pattern α γ) (l : List α) : (pat.sub l).Sublist l := by
  induction l using induction_on_matches pat with
  | nil => exact .slnil
  | none c cs h ih =>
    rw [sub_none h]
    exact ih.cons_cons c
  | some l g n h ih =>
    rw [sub_some h]
    exact ih.trans (List.drop_sublist n l)

theorem length_sub_le (pat : Pattern α γ) (l : List α) : (pat.sub l).length ≤ l.length :=
  (sub_sublist pat l).length_le

theorem sub_eq_self {l : List α} (h : pat.captures l = []) : pat.sub l = l := by
  induction l using induction_on_matches pat with
  | nil => rfl
  | none c cs hnone ih =>
    rw [captures_none hnone] at h
    rw [sub_none hnone, ih h]
  | some l g n hsome ih =>
    rw [captures_some hsome] at h
    cases h

theorem captures_eq_nil_of_length {l : List α} (h : (pat.sub l).length = l.length) :
    pat.captures l = [] := by
  induction l using induction_on_matches pat with
  | nil => rfl
  | none c cs hnone ih =>
    rw [sub_none hnone, List.length_cons, List.length_cons] at h
    rw [captures_none hnone, ih (by omega)]
  | some l g n hsome ih =>
    obtain ⟨hpos, hle⟩ := pat.takes hsome
    rw [sub_some hsome] at h
    have hshort := length_sub_le pat (l.drop n)
    rw [List.length_drop] at hshort
    omega

/-! Patterns that never look past white space see each word on its own. -/

structure IsLocal (pat : Pattern α γ) (space : α → Bool) : Prop where
  atSpace : ∀ s b, space s = true → pat.atHead (s :: b) = none
  beforeSpace : ∀ a s b, a ≠ [] → space s = true → pat.atHead (a ++ s :: b) = pat.atHead a

theorem IsLocal.atHead_append {space : α → Bool} (hpat : pat.IsLocal space) {a v : List α}
    (hne : a ≠ []) (hv : ∀ c ∈ v, space c = true) : pat.atHead (a ++ v) = pat.atHead a := by
  cases v with
  | nil => rw [List.append_nil]
  | cons s v => exact hpat.beforeSpace a s v hne (hv s List.mem_cons_self)

theorem sub_append {space : α → Bool} (hpat : pat.IsLocal space) (a b : List α) {s : α}
    (hs : space s = true) : pat.sub (a ++ s :: b) = pat.sub a ++ s :: pat.sub b := by
  induction a using induction_on_matches pat with
  | nil => exact sub_none (hpat.atSpace s b hs)
  | none c cs h ih =>
    have h' : pat.atHead (c :: (cs ++ s :: b)) = none :=
      (hpat.beforeSpace (c :: cs) s b (by simp) hs).trans h
    rw [sub_none h, List.cons_append, sub_none h', ih]
    rfl
  | some l g n h ih =>
    obtain ⟨hpos, hle⟩ := pat.takes h
    have hne : l ≠ [] := by
      rintro rfl
      simp at hle
      omega
    have h' : pat.atHead (l ++ s :: b) = some (g, n) := by rw [hpat.beforeSpace _ s b hne hs, h]
    rw [sub_some h, sub_some h', List.drop_append_of_le_length hle, ih]

theorem captures_append {space : α → Bool} (hpat : pat.IsLocal space) (a b : List α) {s : α}
    (hs : space s = true) : pat.captures (a ++ s :: b) = pat.captures a ++ pat.captures b := by
  induction a using induction_on_matches pat with
  | nil => exact captures_none (hpat.atSpace s b hs)
  | none c cs h ih =>
    have h' : pat.atHead (c :: (cs ++ s :: b)) = none :=
      (hpat.beforeSpace (c :: cs) s b (by simp) hs).trans h
    rw [captures_none h, List.cons_append, captures_none h', ih]
  | some l g n h ih =>
    obtain ⟨hpos, hle⟩ := pat.takes h
    have hne : l ≠ [] := by
      rintro rfl
      simp at hle
      omega
    have h' : pat.atHead (l ++ s :: b) = some (g, n) := by rw [hpat.beforeSpace _ s b hne hs, h]
    rw [captures_some h, captures_some h', List.drop_append_of_le_length hle, ih]
    rfl

theorem captures_eq_flatMap_words {space : α → Bool} (hpat : pat.IsLocal space) (l : List α) :
    pat.captures l = (words space l).flatMap pat.captures := by
  have hrun : ∀ a : List α, (∀ c ∈ a, space c = false) →
      pat.captures a = (words space a).flatMap pat.captures := by
    intro a ha
    rw [words_run ha]
    cases a <;> simp [captures_nil]
  induction l using induction_on_words space with
  | hrun a ha => exact hrun a ha
  | hspace a s b ha hs ih =>
    rw [captures_append hpat a b hs, words_append a b hs, List.flatMap_append, ← ih, ← hrun a ha]

/-- Taking matches out of a text takes them out of each word; words that were nothing but
matches go. -/
theorem words_sub {space : α → Bool} (hpat : pat.IsLocal space) (l : List α) :
    words space (pat.sub l) = ((words space l).map pat.sub).filter (!·.isEmpty) := by
  have hsub : ∀ a : List α, (∀ c ∈ a, space c = false) → ∀ c ∈ pat.sub a, space c = false := by
    intro a ha
    induction a using induction_on_matches pat with
    | nil => simp [sub, subFrom]
    | none c cs h ih =>
      rw [sub_none h]
      simp only [List.mem_cons, forall_eq_or_imp] at ha ⊢
      exact ⟨ha.1, ih ha.2⟩
    | some l g n h ih =>
      rw [sub_some h]
      exact ih fun c hc => ha c (List.mem_of_mem_drop hc)
  have hrun : ∀ a : List α, (∀ c ∈ a, space c = false) →
      words space (pat.sub a) = ((words space a).map pat.sub).filter (!·.isEmpty) := by
    intro a ha
    rw [words_run (hsub a ha), words_run ha]
    cases a <;> simp [sub, subFrom]
  induction l using induction_on_words space with
  | hrun a ha => exact hrun a ha
  | hspace a s b ha hs ih =>
    rw [sub_append hpat a b hs, words_append _ _ hs, words_append a b hs, List.map_append,
      List.filter_append, ih, hrun a ha]

theorem captures_spaces_append {space : α → Bool} (hpat : pat.IsLocal space) {u : List α}
    (hu : ∀ c ∈ u, space c = true) (l : List α) : pat.captures (u ++ l) = pat.captures l := by
  rw [captures_eq_flatMap_words hpat, words_spaces_append hu, ← captures_eq_flatMap_words hpat]

theorem words_sub_spaces_append {space : α → Bool} (hpat : pat.IsLocal space) {u : List α}
    (hu : ∀ c ∈ u, space c = true) (l : List α) :
    words space (pat.sub (u ++ l)) = words space (pat.sub l) := by
  rw [words_sub hpat, words_spaces_append hu, ← words_sub hpat]

/-! White space around a text shifts its matches. -/

theorem finditerFrom_shift (pre before : List α) (k : Nat) (l : List α) :
    pat.finditerFrom (pre ++ before) k l =
      (pat.finditerFrom before k l).map fun m => { m with before := pre ++ m.before } := by
  induction l generalizing before k with
  | nil => cases k <;> rfl
  | cons c cs ih =>
    cases k with
    | succ k =>
      rw [finditerFrom, finditerFrom, List.append_assoc]
      exact ih (before ++ [c]) k
    | zero =>
      rw [finditerFrom, finditerFrom, List.append_assoc]
      split
      · exact ih (before ++ [c]) 0
      · rw [List.map_cons, ih]

theorem finditerFrom_append_of_none {u : List α} (hu : ∀ c ∈ u, ∀ r, pat.atHead (c :: r) = none)
    (before l : List α) :
    pat.finditerFrom before 0 (u ++ l) = pat.finditerFrom (before ++ u) 0 l := by
  induction u generalizing before with
  | nil => rw [List.nil_append, List.append_nil]
  | cons c u ih =>
    rw [List.forall_mem_cons] at hu
    rw [List.cons_append, finditerFrom_none _ (hu.1 _), ih hu.2, List.append_assoc,
      List.singleton_append]

theorem search_append_of_none {u : List α} (hu : ∀ c ∈ u, ∀ r, pat.atHead (c :: r) = none)
    (l : List α) : (pat.search (u ++ l)).isSome = (pat.search l).isSome := by
  rw [search, finditer, finditerFrom_append_of_none hu, List.nil_append, ← List.append_nil u,
    finditerFrom_shift, List.head?_map, Option.isSome_map]
  rfl

theorem finditerFrom_spaces_append {space : α → Bool} (hpat : pat.IsLocal space) {u : List α}
    (hu : ∀ c ∈ u, space c = true) (before l : List α) :
    pat.finditerFrom before 0 (u ++ l) = pat.finditerFrom (before ++ u) 0 l :=
  finditerFrom_append_of_none (fun c hc r => hpat.atSpace c r (hu c hc)) before l

theorem finditerFrom_append_spaces {space : α → Bool} (hpat : pat.IsLocal space) {v : List α}
    (hv : ∀ c ∈ v, space c = true) (before l : List α) :
    pat.finditerFrom before 0 (l ++ v) =
      (pat.finditerFrom before 0 l).map fun m => { m with after := m.after ++ v } := by
  cases v with
  | nil => simp
  | cons s v =>
    have hs : space s = true := hv s List.mem_cons_self
    have hspaces : ∀ before, pat.finditerFrom before 0 (s :: v) = [] := by
      intro before
      have h := finditerFrom_spaces_append hpat hv before []
      rwa [List.append_nil] at h
    induction l using induction_on_matches pat generalizing before with
    | nil => exact hspaces before
    | none c cs h ih =>
      have h' : pat.atHead (c :: (cs ++ s :: v)) = none :=
        (hpat.beforeSpace (c :: cs) s v (by simp) hs).trans h
      rw [finditerFrom_none _ h, List.cons_append, finditerFrom_none _ h', ih]
    | some l g n h ih =>
      obtain ⟨hpos, hle⟩ := pat.takes h
      have hne : l ≠ [] := by
        rintro rfl
        simp at hle
        omega
      have h' : pat.atHead (l ++ s :: v) = some (g, n) := by
        rw [hpat.beforeSpace _ s v hne hs, h]
      rw [finditerFrom_some _ h, finditerFrom_some _ h', List.map_cons,
        List.take_append_of_le_length hle, List.drop_append_of_le_length hle, ih]

/-- A match in a text that white space is put around. -/
def surround (u v : List α) (m : Match α γ) : Match α γ :=
  { m with before := u ++ m.before, after := m.after ++ v }

theorem finditer_surround {space : α → Bool} (hpat : pat.IsLocal space) {u v : List α}
    (hu : ∀ c ∈ u, space c = true) (hv : ∀ c ∈ v, space c = true) (l : List α) :
    pat.finditer (u ++ (l ++ v)) = (pat.finditer l).map (surround u v) := by
  rw [finditer, finditerFrom_spaces_append hpat hu, finditerFrom_append_spaces hpat hv,
    List.nil_append, ← List.append_nil u, finditerFrom_shift, List.map_map, List.append_nil]
  rfl

end Pattern

end Eyot.Scan
