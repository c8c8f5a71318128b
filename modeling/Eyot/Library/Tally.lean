import Eyot.Library.Dict
import Eyot.Library.FirstWins

/-! Counts of keys, in the order in which the keys come up, and the first of the most frequent
ones. -/

universe u v

namespace Eyot.Tally

variable {α : Type u} {κ : Type v}

/-! The first of the greatest. -/

def pick (best : Option (κ × Nat)) (kv : κ × Nat) : Option (κ × Nat) :=
  if best.any fun b => kv.2 ≤ b.2 then best else some kv

/-- The first key of the greatest count. -/
def mostFrequent (counts : List (κ × Nat)) : Option κ := (counts.foldl pick none).map Prod.fst

theorem foldl_pick (best : κ × Nat) (counts : List (κ × Nat)) :
    ∃ kv, counts.foldl pick (some best) = some kv ∧ (kv = best ∨ kv ∈ counts) ∧ best.2 ≤ kv.2 ∧
      ∀ kv' ∈ counts, kv'.2 ≤ kv.2 := by
  induction counts generalizing best with
  | nil => exact ⟨best, rfl, .inl rfl, Nat.le_refl _, List.forall_mem_nil _⟩
  | cons c counts ih =>
    rw [List.foldl_cons, pick, Option.any_some]
    by_cases hc : c.2 ≤ best.2
    · rw [if_pos (decide_eq_true hc)]
      obtain ⟨kv, hkv, hmem, hle, hall⟩ := ih best
      exact ⟨kv, hkv, hmem.imp_right (List.mem_cons_of_mem c), hle,
        List.forall_mem_cons.mpr ⟨Nat.le_trans hc hle, hall⟩⟩
    · rw [if_neg (by simpa using hc)]
      obtain ⟨kv, hkv, hmem, hle, hall⟩ := ih c
      refine ⟨kv, hkv, .inr ?_, Nat.le_trans (Nat.le_of_not_le hc) hle,
        List.forall_mem_cons.mpr ⟨hle, hall⟩⟩
      exact hmem.elim (fun h => h ▸ List.mem_cons_self) (List.mem_cons_of_mem c)

/-- The first entry is picked if no other is greater. -/
theorem foldl_pick_first {best : κ × Nat} {counts : List (κ × Nat)}
    (h : ∀ kv ∈ counts, kv.2 ≤ best.2) :
    counts.foldl pick (some best) = some best := by
  induction counts with
  | nil => rfl
  | cons c counts ih =>
    rw [List.forall_mem_cons] at h
    rw [List.foldl_cons, pick, Option.any_some, if_pos (decide_eq_true h.1)]
    exact ih h.2

/-! Counting. -/

variable [DecidableEq κ] (f : α → Option κ)

def occurrences (l : List α) (k : κ) : Nat := l.countP fun a => f a = some k

def count (counts : List (κ × Nat)) (a : α) : List (κ × Nat) :=
  match f a with
  | none => counts
  | some k => Dict.set counts k ((Dict.get? counts k).getD 0 + 1)

def tally (l : List α) : List (κ × Nat) := l.foldl (count f) []

/-- No key occurs more often. -/
structure IsTop (l : List α) (k : κ) : Prop where
  occurs : 0 < occurrences f l k
  most : ∀ k', occurrences f l k' ≤ occurrences f l k

variable {f} {l m : List α} {a : α} {k k' : κ} {counts : List (κ × Nat)}

theorem occurrences_perm (h : l.Perm m) (k : κ) : occurrences f l k = occurrences f m k :=
  h.countP_eq _

theorem IsTop.perm (h : IsTop f l k) (hperm : l.Perm m) : IsTop f m k := by
  refine ⟨occurrences_perm hperm k ▸ h.occurs, fun k' => ?_⟩
  rw [← occurrences_perm hperm, ← occurrences_perm hperm]
  exact h.most k'

/-! What the counts are. -/

theorem get?_count (counts : List (κ × Nat)) (a : α) (k : κ) :
    (Dict.get? (count f counts a) k).getD 0 =
      (Dict.get? counts k).getD 0 + if f a = some k then 1 else 0 := by
  unfold count
  cases h : f a with
  | none => rfl
  | some j =>
    rw [Dict.get?_set]
    by_cases hk : j = k
    · rw [if_pos hk, if_pos (by rw [hk]), hk]
      rfl
    · rw [if_neg hk, if_neg fun heq => hk (Option.some.inj heq)]
      rfl

theorem get?_foldl (counts : List (κ × Nat)) (l : List α) (k : κ) :
    (Dict.get? (l.foldl (count f) counts) k).getD 0 =
      (Dict.get? counts k).getD 0 + occurrences f l k := by
  induction l generalizing counts with
  | nil => rfl
  | cons a l ih =>
    rw [List.foldl_cons, ih, get?_count, occurrences, occurrences, List.countP_cons, Nat.add_assoc]
    simp only [decide_eq_true_eq, Nat.add_comm]

theorem keys_count (counts : List (κ × Nat)) (a : α) :
    (count f counts a).map Prod.fst =
      counts.map Prod.fst ++ ((f a).filter fun k => k ∉ counts.map Prod.fst).toList := by
  unfold count
  cases f a with
  | none => exact (List.append_nil _).symm
  | some k =>
    rw [Dict.keys_set]
    by_cases hk : k ∈ counts.map Prod.fst
    · rw [if_pos hk, Option.filter_some, if_neg (by simpa using hk)]
      exact (List.append_nil _).symm
    · rw [if_neg hk, Option.filter_some, if_pos (by simpa using hk)]
      rfl

/-- The keys that are there stay in front. -/
theorem keys_foldl (counts : List (κ × Nat)) (l : List α) :
    counts.map Prod.fst <+: (l.foldl (count f) counts).map Prod.fst := by
  induction l generalizing counts with
  | nil => exact List.prefix_refl _
  | cons a l ih =>
    refine List.IsPrefix.trans ?_ (ih (count f counts a))
    rw [keys_count]
    exact List.prefix_append _ _

theorem distinct_foldl (h : Dict.Distinct counts) (l : List α) :
    Dict.Distinct (l.foldl (count f) counts) := by
  induction l generalizing counts with
  | nil => exact h
  | cons a l ih =>
    refine ih ?_
    unfold count
    split
    · exact h
    · exact Dict.distinct_set h

theorem mem_keys_foldl (h : k ∈ (l.foldl (count f) counts).map Prod.fst) :
    k ∈ counts.map Prod.fst ∨ 0 < occurrences f l k := by
  induction l generalizing counts with
  | nil => exact .inl h
  | cons a l ih =>
    have hmore : occurrences f l k ≤ occurrences f (a :: l) k :=
      (List.sublist_cons_self a l).countP_le
    rcases ih h with h | h
    · rw [keys_count, List.mem_append, Option.mem_toList, Option.filter_eq_some_iff] at h
      refine h.imp_right fun hk => ?_
      exact List.countP_pos_iff.mpr ⟨a, List.mem_cons_self, decide_eq_true hk.1⟩
    · exact .inr (Nat.lt_of_lt_of_le h hmore)

/-- Each key stands there once, with the number of its occurrences. -/
theorem mem_tally {n : Nat} : (k, n) ∈ tally f l ↔ 0 < n ∧ n = occurrences f l k := by
  have hget : (Dict.get? (tally f l) k).getD 0 = occurrences f l k :=
    (get?_foldl [] l k).trans (Nat.zero_add _)
  constructor
  · intro h
    have hfound : Dict.get? (tally f l) k = some n :=
      Dict.get?_of_mem (distinct_foldl Dict.distinct_nil l) h
    rw [hfound] at hget
    have hpos := (mem_keys_foldl (List.mem_map_of_mem h)).resolve_left List.not_mem_nil
    obtain rfl : n = occurrences f l k := hget
    exact ⟨hpos, rfl⟩
  · rintro ⟨hpos, rfl⟩
    cases hfound : Dict.get? (tally f l) k with
    | none =>
      rw [hfound] at hget
      rw [← hget] at hpos
      cases hpos
    | some n =>
      rw [hfound] at hget
      obtain rfl : n = occurrences f l k := hget
      exact Dict.mem_of_get? hfound

/-! The key that is picked. -/

theorem isTop_of_mostFrequent (h : mostFrequent (tally f l) = some k) : IsTop f l k := by
  obtain ⟨kv, hkv, rfl⟩ := Option.map_eq_some_iff.mp h
  cases hcounts : tally f l with
  | nil =>
    rw [hcounts] at hkv
    cases hkv
  | cons c counts =>
    rw [hcounts] at hkv
    obtain ⟨kv', hkv', hmem, hle, hall⟩ := foldl_pick c counts
    obtain rfl : kv = kv' := Option.some.inj (hkv.symm.trans hkv')
    have hin : kv ∈ tally f l := by
      rw [hcounts, List.mem_cons]
      exact hmem
    obtain ⟨hpos, hn⟩ := mem_tally.mp hin
    refine ⟨hn ▸ hpos, fun k' => ?_⟩
    rcases Nat.eq_zero_or_pos (occurrences f l k') with hzero | hk'
    · rw [hzero]
      exact Nat.zero_le _
    · have hin' := mem_tally.mpr ⟨hk', rfl⟩
      rw [hcounts, List.mem_cons] at hin'
      rw [← hn]
      rcases hin' with heq | hin'
      · rwa [← heq] at hle
      · exact hall _ hin'

theorem mostFrequent_eq_none : mostFrequent (tally f l) = none ↔ ∀ k, occurrences f l k = 0 := by
  constructor
  · intro h k
    by_contra hk
    have hin := mem_tally.mpr ⟨Nat.pos_of_ne_zero hk, rfl⟩
    rw [mostFrequent, Option.map_eq_none_iff] at h
    cases hcounts : tally f l with
    | nil =>
      rw [hcounts] at hin
      cases hin
    | cons c counts =>
      obtain ⟨kv, hkv, -⟩ := foldl_pick c counts
      rw [hcounts] at h
      cases h.symm.trans hkv
  · intro h
    cases hm : mostFrequent (tally f l) with
    | none => rfl
    | some k => exact absurd (h k) (Nat.ne_of_gt (isTop_of_mostFrequent hm).occurs)

/-- A key on top that comes up first is the one. -/
theorem mostFrequent_of_head (ha : f a = some k) (h : IsTop f (a :: l) k) :
    mostFrequent (tally f (a :: l)) = some k := by
  have hfirst : tally f (a :: l) = l.foldl (count f) [(k, 1)] := by
    rw [tally, List.foldl_cons, count, ha]
    rfl
  obtain ⟨rest, hrest⟩ := keys_foldl (f := f) [(k, 1)] l
  rw [← hfirst] at hrest
  cases hcounts : tally f (a :: l) with
  | nil =>
    rw [hcounts] at hrest
    cases hrest
  | cons c counts =>
    rw [hcounts] at hrest
    obtain rfl : k = c.1 := (List.cons.inj hrest).1
    have hn : ∀ kv ∈ c :: counts, kv.2 = occurrences f (a :: l) kv.1 :=
      fun kv hkv => (mem_tally.mp (hcounts ▸ hkv)).2
    have hmax : ∀ kv ∈ counts, kv.2 ≤ c.2 := by
      intro kv hkv
      rw [hn kv (List.mem_cons_of_mem c hkv), hn c List.mem_cons_self]
      exact h.most kv.1
    rw [mostFrequent, List.foldl_cons]
    exact congrArg (Option.map Prod.fst) (foldl_pick_first hmax)

/-- The most frequent key is the same in whatever order exactly when no two share the top. -/
theorem mostFrequent_perm_iff :
    (∀ m, l.Perm m → mostFrequent (tally f m) = mostFrequent (tally f l)) ↔
      ∀ k k', IsTop f l k → IsTop f l k' → k = k' := by
  constructor
  · intro h
    have hone : ∀ k, IsTop f l k → mostFrequent (tally f l) = some k := by
      intro k hk
      obtain ⟨a, ha, hfa⟩ := List.countP_pos_iff.mp hk.occurs
      obtain ⟨rest, hperm⟩ := exists_perm_cons ha
      rw [← h _ hperm]
      exact mostFrequent_of_head (of_decide_eq_true hfa) (hk.perm hperm)
    intro k k' hk hk'
    exact Option.some.inj ((hone k hk).symm.trans (hone k' hk'))
  · intro h m hperm
    cases hm : mostFrequent (tally f m) with
    | none =>
      rw [mostFrequent_eq_none] at hm
      symm
      rw [mostFrequent_eq_none]
      exact fun k => (occurrences_perm hperm k).trans (hm k)
    | some k =>
      have hk := (isTop_of_mostFrequent hm).perm hperm.symm
      cases hl : mostFrequent (tally f l) with
      | none => exact absurd (mostFrequent_eq_none.mp hl k) (Nat.ne_of_gt hk.occurs)
      | some k' => rw [h k k' hk (isTop_of_mostFrequent hl)]

end Eyot.Tally
