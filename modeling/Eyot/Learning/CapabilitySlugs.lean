import Eyot.Learning.DistillAgreement
import Eyot.Library.Segments

/-! The names that are made of the keys and the contents of memories. -/

namespace Eyot.Learning

open Scan (isSegmented words)

/-- The copy of the learning API, with the same pattern. -/
def Api.slugifyCapabilityName (lower : Str → Str) (text : Str) : Str :=
  let lowered := pythonText.strip (lower text)
  let slug := Scan.strip (· = '-') (subNonAlnum false lowered)
  if slug.isEmpty then "capability".toList else slug.take 200

/-! What the substitution leaves. -/

def hyphenated (groups : List Str) : Str := ['-'].intercalate groups

/-- The letters and digits of a text, in groups. -/
def groupsOf (text : Str) : List Str := words (fun c => !isSlugChar c) text

theorem hyphenated_cons {groups : List Str} (h : groups ≠ []) (group : Str) :
    hyphenated (group :: groups) = group ++ '-' :: hyphenated groups := by
  cases groups with
  | nil => exact absurd rfl h
  | cons next groups => simp [hyphenated, List.intercalate, List.intersperse]

theorem subNonAlnum_run {a : Str} (ha : ∀ c ∈ a, isSlugChar c = true) (text : Str) :
    ∀ inRun, a ≠ [] → subNonAlnum inRun (a ++ text) = a ++ subNonAlnum false text := by
  induction a with
  | nil => exact fun _ h => absurd rfl h
  | cons c a ih =>
    rw [List.forall_mem_cons] at ha
    intro inRun _
    rw [List.cons_append, subNonAlnum, if_pos ha.1]
    cases a with
    | nil => rfl
    | cons d a =>
      rw [ih ha.2 false (List.cons_ne_nil d a)]
      rfl

/-- Behind a hyphen the groups come, and a hyphen at most. -/
theorem subNonAlnum_true (text : Str) : ∃ hyphens : Str, (∀ c ∈ hyphens, c = '-') ∧
    (groupsOf text = [] → hyphens = []) ∧
      subNonAlnum true text = hyphenated (groupsOf text) ++ hyphens := by
  induction text using Scan.induction_on_words fun c => !isSlugChar c with
  | hrun a ha =>
    have hgood : ∀ c ∈ a, isSlugChar c = true := fun c hc => by simpa using ha c hc
    refine ⟨[], nofun, fun _ => rfl, ?_⟩
    rw [groupsOf, Scan.words_run ha, List.append_nil]
    cases a with
    | nil => rfl
    | cons c a =>
      have h := subNonAlnum_run hgood [] true (List.cons_ne_nil c a)
      rw [List.append_nil, subNonAlnum, List.append_nil] at h
      exact h.trans (by simp [hyphenated, List.intercalate])
  | hspace a s b ha hs ih =>
    have hgood : ∀ c ∈ a, isSlugChar c = true := fun c hc => by simpa using ha c hc
    have hbad : ¬isSlugChar s = true := by simpa using hs
    obtain ⟨hyphens, hall, hnone, hsub⟩ := ih
    rw [groupsOf, Scan.words_append a b hs, Scan.words_run ha, ← groupsOf]
    cases a with
    | nil =>
      rw [List.nil_append, subNonAlnum, if_neg hbad, if_pos rfl, hsub]
      exact ⟨hyphens, hall, hnone, rfl⟩
    | cons c a =>
      have hgroup : ([c :: a].filter (!·.isEmpty)) ++ groupsOf b = (c :: a) :: groupsOf b := rfl
      rw [hgroup, subNonAlnum_run hgood _ true (List.cons_ne_nil c a), subNonAlnum, if_neg hbad,
        if_neg Bool.false_ne_true, hsub]
      by_cases hb : groupsOf b = []
      · rw [hnone hb, hb]
        refine ⟨['-'], by simp, nofun, ?_⟩
        simp [hyphenated, List.intercalate]
      · refine ⟨hyphens, hall, nofun, ?_⟩
        rw [hyphenated_cons hb, List.append_assoc]
        rfl

theorem subNonAlnum_false (text : Str) : subNonAlnum false text = subNonAlnum true text ∨
    subNonAlnum false text = '-' :: subNonAlnum true text := by
  cases text with
  | nil => exact .inl rfl
  | cons c text =>
    by_cases hc : isSlugChar c = true
    · exact .inl (by rw [subNonAlnum, if_pos hc, subNonAlnum, if_pos hc])
    · exact .inr (by rw [subNonAlnum, if_neg hc, if_neg Bool.false_ne_true, subNonAlnum,
        if_neg hc, if_pos rfl])

theorem isSlugChar_ne {c : Char} (h : isSlugChar c = true) : c ≠ '-' := by
  rintro rfl
  exact absurd h (by decide)

theorem mem_groupsOf {text group : Str} (h : group ∈ groupsOf text) :
    group ≠ [] ∧ ∀ c ∈ group, isSlugChar c = true := by
  obtain ⟨hne, hgood⟩ := Scan.mem_words h
  exact ⟨hne, fun c hc => by simpa using hgood c hc⟩

theorem isSegmented_hyphenated {groups : List Str} (hne : groups ≠ [])
    (h : ∀ group ∈ groups, group ≠ [] ∧ ∀ c ∈ group, isSlugChar c = true) :
    isSegmented '-' isSlugChar (hyphenated groups) = true := by
  induction groups with
  | nil => exact absurd rfl hne
  | cons group groups ih =>
    rw [List.forall_mem_cons] at h
    have hgroup : isSegmented '-' isSlugChar group = true := by
      rw [Scan.isSegmented_run fun c hc => isSlugChar_ne (h.1.2 c hc), Bool.and_eq_true]
      exact ⟨by simpa using h.1.1, List.all_eq_true.mpr h.1.2⟩
    by_cases hgroups : groups = []
    · subst hgroups
      simpa [hyphenated, List.intercalate] using hgroup
    · rw [hyphenated_cons hgroups, Scan.isSegmented_append, hgroup, ih hgroups h.2]
      rfl

theorem strip_subNonAlnum (text : Str) :
    Scan.strip (· = '-') (subNonAlnum false text) = hyphenated (groupsOf text) := by
  obtain ⟨hyphens, hall, hnone, hsub⟩ := subNonAlnum_true text
  have hstrip : ∀ u : Str, (∀ c ∈ u, c = '-') →
      Scan.strip (· = '-') (u ++ (hyphenated (groupsOf text) ++ hyphens)) =
        hyphenated (groupsOf text) := by
    intro u hu
    rw [Scan.strip_append_of_all (by simpa using hu) (by simpa using hall)]
    by_cases hgroups : groupsOf text = []
    · rw [hgroups]
      rfl
    · have hseg := isSegmented_hyphenated hgroups fun _ => mem_groupsOf
      refine Scan.strip_eq_self (fun c hc => ?_) fun c hc => ?_
      · rw [decide_eq_false_iff_not]
        rintro rfl
        exact Scan.head?_of_isSegmented hseg hc
      · rw [decide_eq_false_iff_not]
        rintro rfl
        exact Scan.getLast?_of_isSegmented hseg hc
  rcases subNonAlnum_false text with h | h
  · rw [h, hsub]
    exact hstrip [] nofun
  · rw [h, hsub]
    exact hstrip ['-'] (by simp)

theorem groupsOf_strip (text : Str) : groupsOf (pythonText.strip text) = groupsOf text := by
  have hspace : ∀ c, pythonText.isSpace c = true → (!isSlugChar c) = true := by
    intro c hc
    rw [Bool.not_eq_true', ← Bool.not_eq_true, isSlugChar, Bool.or_eq_true]
    intro hslug
    have hrange : 33 ≤ pythonText.code c ∧ pythonText.code c ≤ 126 := by
      rcases hslug with h | h
      · rw [Alphabet.isLower, Bool.and_eq_true, decide_eq_true_eq, decide_eq_true_eq] at h
        omega
      · rw [Alphabet.isDigit, Bool.and_eq_true, decide_eq_true_eq, decide_eq_true_eq] at h
        omega
    rw [pythonText.isSpace_visible hrange.1 hrange.2] at hc
    cases hc
  obtain ⟨u, v, htext, hu, hv⟩ := Scan.strip_decompose pythonText.isSpace text
  conv_rhs => rw [htext]
  rw [groupsOf, groupsOf, Scan.words_spaces_append fun c hc => hspace c (hu c hc),
    Scan.words_append_spaces _ fun c hc => hspace c (hv c hc)]
  rfl

theorem slugifyCapabilityName_eq (lower : Str → Str) (text : Str) :
    slugifyCapabilityName lower text =
      if groupsOf (lower text) = [] then "capability".toList
      else (hyphenated (groupsOf (lower text))).take 200 := by
  rw [slugifyCapabilityName, strip_subNonAlnum, groupsOf_strip]
  by_cases h : groupsOf (lower text) = []
  · rw [h]
    rfl
  · have hne := Scan.ne_nil_of_isSegmented (isSegmented_hyphenated h fun _ => mem_groupsOf)
    rw [if_neg h, if_neg (by simpa using hne)]

theorem groupsOf_group {a : Str} (h : (!a.isEmpty && a.all isSlugChar) = true) :
    groupsOf a = [a] := by
  rw [Bool.and_eq_true] at h
  have hrun : ∀ c ∈ a, (!isSlugChar c) = false := fun c hc => by
    simpa using List.all_eq_true.mp h.2 c hc
  rw [groupsOf, Scan.words_run hrun]
  cases a with
  | nil => cases h.1
  | cons c a => rfl

/-- A name that is kebab-case already is made of its own groups. -/
theorem hyphenated_groupsOf {name : Str} (h : isSegmented '-' isSlugChar name = true) :
    hyphenated (groupsOf name) = name := by
  induction name using Scan.induction_on_groups '-' with
  | run a ha =>
    rw [groupsOf_group (Scan.isSegmented_run ha ▸ h)]
    simp [hyphenated, List.intercalate]
  | more a b ha ih =>
    rw [Scan.isSegmented_append, Bool.and_eq_true, Scan.isSegmented_run ha] at h
    obtain ⟨hgroup, hb⟩ := h
    have hgroups : groupsOf (a ++ '-' :: b) = a :: groupsOf b := by
      have hdash : (fun c => !isSlugChar c) '-' = true := by decide
      rw [groupsOf, Scan.words_append a b hdash]
      exact congrArg (· ++ groupsOf b) (groupsOf_group hgroup)
    have hrest : groupsOf b ≠ [] := by
      intro hnil
      have hb' := ih hb
      rw [hnil] at hb'
      exact Scan.ne_nil_of_isSegmented hb hb'.symm
    rw [hgroups, hyphenated_cons hrest, ih hb]

/-! The cut. -/

/-- Some of the groups, and the hyphens between them, make 199 characters, and there are more. -/
def CutBehindHyphen (groups : List Str) : Prop :=
  ∃ k, 0 < k ∧ k < groups.length ∧ (groups.take k).flatten.length + (k - 1) = 199

instance (groups : List Str) : Decidable (CutBehindHyphen groups) :=
  decidable_of_iff (∃ k < groups.length, 0 < k ∧ (groups.take k).flatten.length + (k - 1) = 199)
    ⟨fun ⟨k, hlt, hpos, hlen⟩ => ⟨k, hpos, hlt, hlen⟩, fun ⟨k, hpos, hlt, hlen⟩ => ⟨k, hlt, hpos, hlen⟩⟩

theorem length_hyphenated {groups : List Str} (h : groups ≠ []) :
    (hyphenated groups).length = groups.flatten.length + (groups.length - 1) := by
  induction groups with
  | nil => exact absurd rfl h
  | cons group groups ih =>
    by_cases hgroups : groups = []
    · subst hgroups
      simp [hyphenated, List.intercalate]
    · have hpos := List.length_pos_iff.mpr hgroups
      rw [hyphenated_cons hgroups, List.length_append, List.length_cons, ih hgroups,
        List.flatten_cons, List.length_append, List.length_cons]
      omega

theorem hyphenated_append {front back : List Str} (hfront : front ≠ []) (hback : back ≠ []) :
    hyphenated (front ++ back) = hyphenated front ++ '-' :: hyphenated back := by
  induction front with
  | nil => exact absurd rfl hfront
  | cons group front ih =>
    by_cases h : front = []
    · subst h
      rw [List.singleton_append, hyphenated_cons hback]
      simp [hyphenated, List.intercalate]
    · rw [List.cons_append, hyphenated_cons (by simp [h]), hyphenated_cons h, ih h,
        List.append_assoc, List.cons_append]

/-- Where a hyphen stands, groups stand before it and behind it. -/
theorem exists_of_getElem? {groups : List Str}
    (h : ∀ group ∈ groups, ∀ c ∈ group, isSlugChar c = true) {n : Nat}
    (hn : (hyphenated groups)[n]? = some '-') :
    ∃ front back, groups = front ++ back ∧ front ≠ [] ∧ back ≠ [] ∧
      (hyphenated front).length = n := by
  induction groups generalizing n with
  | nil => cases hn
  | cons group groups ih =>
    rw [List.forall_mem_cons] at h
    have hgroup : ∀ m, group[m]? ≠ some '-' := fun m hm =>
      isSlugChar_ne (h.1 _ (List.mem_of_getElem? hm)) rfl
    by_cases hgroups : groups = []
    · subst hgroups
      exact absurd (by simpa [hyphenated, List.intercalate] using hn) (hgroup n)
    · rw [hyphenated_cons hgroups] at hn
      rcases Nat.lt_trichotomy n group.length with hlt | rfl | hgt
      · rw [List.getElem?_append_left hlt] at hn
        exact absurd hn (hgroup n)
      · exact ⟨[group], groups, rfl, List.cons_ne_nil _ _, hgroups, by
          simp [hyphenated, List.intercalate]⟩
      · obtain ⟨m, rfl⟩ : ∃ m, n = group.length + (m + 1) := ⟨n - group.length - 1, by omega⟩
        rw [List.getElem?_append_right (by omega), Nat.add_sub_cancel_left,
          List.getElem?_cons_succ] at hn
        obtain ⟨front, back, hsplit, hfront, hback, hlen⟩ := ih h.2 hn
        refine ⟨group :: front, back, by rw [hsplit]; rfl, List.cons_ne_nil _ _, hback, ?_⟩
        rw [hyphenated_cons hfront, List.length_append, List.length_cons, hlen]

theorem getLast?_take_hyphenated {groups : List Str}
    (h : ∀ group ∈ groups, group ≠ [] ∧ ∀ c ∈ group, isSlugChar c = true) :
    ((hyphenated groups).take 200).getLast? = some '-' ↔ CutBehindHyphen groups := by
  constructor
  · intro hlast
    have hn : (hyphenated groups)[199]? = some '-' := by
      rw [List.getLast?_take, if_neg (by decide)] at hlast
      cases hget : (hyphenated groups)[199]? with
      | some c =>
        rw [hget, Option.some_or] at hlast
        exact hlast
      | none =>
        rw [hget, Option.none_or] at hlast
        by_cases hgroups : groups = []
        · subst hgroups
          cases hlast
        · exact absurd hlast (Scan.getLast?_of_isSegmented (isSegmented_hyphenated hgroups h))
    obtain ⟨front, back, hsplit, hfront, hback, hlen⟩ :=
      exists_of_getElem? (fun group hgroup => (h group hgroup).2) hn
    have hpos := List.length_pos_iff.mpr hfront
    have hposBack := List.length_pos_iff.mpr hback
    rw [length_hyphenated hfront] at hlen
    refine ⟨front.length, hpos, ?_, ?_⟩
    · rw [hsplit, List.length_append]
      omega
    · rw [hsplit, List.take_left]
      exact hlen
  · rintro ⟨k, hpos, hlt, hlen⟩
    have hfront : groups.take k ≠ [] := by
      rw [← List.length_pos_iff, List.length_take]
      omega
    have hback : groups.drop k ≠ [] := by
      rw [← List.length_pos_iff, List.length_drop]
      omega
    have hfrontLen : (hyphenated (groups.take k)).length = 199 := by
      rw [length_hyphenated hfront, List.length_take, Nat.min_eq_left hlt.le]
      exact hlen
    have hsplit : hyphenated groups =
        (hyphenated (groups.take k) ++ ['-']) ++ hyphenated (groups.drop k) := by
      conv_lhs => rw [← List.take_append_drop k groups]
      rw [hyphenated_append hfront hback, List.append_assoc]
      rfl
    rw [hsplit, List.take_left' (by rw [List.length_append, hfrontLen]; rfl)]
    exact List.getLast?_concat

/-! What a name should be. -/

structure IsName (name : Str) : Prop where
  kebab : isSegmented '-' isSlugChar name = true
  length : name.length ≤ 200

def Slugifies (slugify other : Str → Str) (text : Str) : Prop :=
  IsName (slugify text) ∧ slugify (slugify text) = slugify text ∧ other text = slugify text

section

variable {lower : Str → Str}

theorem isName_capability : IsName "capability".toList := ⟨by decide, by decide⟩

theorem isName_slugify_iff (text : Str) : IsName (slugifyCapabilityName lower text) ↔
    ¬CutBehindHyphen (groupsOf (lower text)) := by
  have hmem : ∀ group ∈ groupsOf (lower text), group ≠ [] ∧ ∀ c ∈ group, isSlugChar c = true :=
    fun _ => mem_groupsOf
  rw [slugifyCapabilityName_eq]
  split
  · rename_i hnone
    refine iff_of_true isName_capability ?_
    rintro ⟨k, -, hlt, -⟩
    rw [hnone] at hlt
    exact absurd hlt (Nat.not_lt_zero k)
  · rename_i hgroups
    have hseg := isSegmented_hyphenated hgroups hmem
    rw [← getLast?_take_hyphenated hmem, ← ne_eq, ← Scan.isSegmented_take hseg (by decide)]
    exact ⟨IsName.kebab, fun h => ⟨h, List.length_take_le _ _⟩⟩

theorem slugify_of_isName (hlower : ∀ t : Str, (∀ c ∈ t, isSlugChar c = true ∨ c = '-') → lower t = t)
    {name : Str} (h : IsName name) : slugifyCapabilityName lower name = name := by
  have hgroups : groupsOf name ≠ [] := by
    intro hnil
    have hname := hyphenated_groupsOf h.kebab
    rw [hnil] at hname
    exact Scan.ne_nil_of_isSegmented h.kebab hname.symm
  rw [slugifyCapabilityName_eq, hlower name (Scan.good_of_isSegmented h.kebab), if_neg hgroups,
    hyphenated_groupsOf h.kebab, List.take_of_length_le h.length]

end

/-- Both copies make a name of a text, which they leave as it is from then on, exactly when the cut
does not end in a hyphen. -/
theorem slugifies_iff (lower : Str → Str)
    (hlower : ∀ t : Str, (∀ c ∈ t, isSlugChar c = true ∨ c = '-') → lower t = t) (text : Str) :
    Slugifies (slugifyCapabilityName lower) (Api.slugifyCapabilityName lower) text ↔
      ¬CutBehindHyphen (groupsOf (lower text)) := by
  rw [← isName_slugify_iff text]
  exact ⟨fun h => h.1, fun h => ⟨h, slugify_of_isName hlower h, rfl⟩⟩

theorem asciiLower_eq {t : Str} (h : ∀ c ∈ t, isSlugChar c = true ∨ c = '-') : asciiLower t = t := by
  have hchar : ∀ c ∈ t, c.toLower = id c := by
    intro c hc
    have hlow : ¬(65 ≤ c.val.toNat ∧ c.val.toNat ≤ 90) := by
      rcases h c hc with hc | rfl
      · rw [isSlugChar, Bool.or_eq_true, Alphabet.isLower, Bool.and_eq_true, decide_eq_true_eq,
          decide_eq_true_eq, Alphabet.isDigit, Bool.and_eq_true, decide_eq_true_eq,
          decide_eq_true_eq] at hc
        change 97 ≤ c.val.toNat ∧ c.val.toNat ≤ 122 ∨ 48 ≤ c.val.toNat ∧ c.val.toNat ≤ 57 at hc
        omega
      · decide
    refine dif_neg ?_
    rw [ge_iff_le, UInt32.le_iff_toNat_le, UInt32.le_iff_toNat_le]
    exact hlow
  rw [asciiLower, List.map_congr_left hchar, List.map_id]

theorem slugifies_greeting : Slugifies (slugifyCapabilityName asciiLower)
    (Api.slugifyCapabilityName asciiLower) "Hello, World".toList :=
  (slugifies_iff asciiLower (fun _ => asciiLower_eq) "Hello, World".toList).mpr (by decide +kernel)

def cutText : Str := List.replicate 199 'a' ++ " b".toList

theorem not_slugifies_cutText : ¬Slugifies (slugifyCapabilityName asciiLower)
    (Api.slugifyCapabilityName asciiLower) cutText := by
  intro h
  have hcut : isSegmented '-' isSlugChar (slugifyCapabilityName asciiLower cutText) = false := by
    decide +kernel
  exact Bool.false_ne_true (hcut.symm.trans h.1.kebab)

end Eyot.Learning
