import Mathlib.Data.List.Perm.Basic
import Eyot.Data.JsonKeys

/-! The fingerprint of an entity's capabilities and prompt. -/

namespace Eyot

/-- A capability dict. -/
abbrev Capability := JsonObject

def promptSha (sha : Str → Str) (promptSnapshot : Option Str) : Str :=
  sha (promptSnapshot.getD [])

def normalizeCapabilities : Option (List Capability) → List Capability
  | none => []
  | some [] => []
  | some capabilities => sortBy JsonObject.sortKey capabilities

/-- `sha` is the hexadecimal SHA-256 digest of a text in UTF-8. -/
def computeMigrationHash (sha : Str → Str) (capabilities : Option (List Capability))
    (promptSnapshot : Option Str) : Str :=
  let normalized := normalizeCapabilities capabilities
  let capabilitiesJson := (Json.arr (normalized.map JsonObject.json)).dumps
  sha (capabilitiesJson ++ ':' :: promptSha sha promptSnapshot)

theorem normalizeCapabilities_eq (capabilities : Option (List Capability)) :
    normalizeCapabilities capabilities = sortBy JsonObject.sortKey (capabilities.getD []) := by
  rcases capabilities with _ | _ | ⟨c, cs⟩
  · rfl
  · rfl
  · rfl

/-! What a fingerprint should tell. -/

/-- The same capabilities as often, in any order. -/
def SameCapabilities (xs ys : List Capability) : Prop :=
  ∃ zs : List Capability, xs.Perm zs ∧ List.Forall₂ JsonObject.Same zs ys

def Canonical (sha : Str → Str) (xs : Option (List Capability)) (p : Option Str)
    (ys : Option (List Capability)) (q : Option Str) : Prop :=
  computeMigrationHash sha xs p = computeMigrationHash sha ys q ↔
    SameCapabilities (xs.getD []) (ys.getD []) ∧ p.getD [] = q.getD []

/-- Each capability stands in both lists with the same orders of its keys, one after the
other. -/
def SpelledAlike (xs ys : List Capability) : Prop :=
  ∀ c : Capability, (xs.filter fun x => c.Same x) = ys.filter fun y => c.Same y

theorem filter_same (c : Capability) (xs : List Capability) :
    (xs.filter fun x => c.Same x) = under JsonObject.sortKey c.sortKey xs := by
  apply List.filter_congr
  intro x _
  rw [decide_eq_decide, ← JsonObject.sortKey_eq_iff, eq_comm]

theorem spelledAlike_iff {xs ys : List Capability} :
    SpelledAlike xs ys ↔ sortBy JsonObject.sortKey xs = sortBy JsonObject.sortKey ys := by
  rw [sortBy_eq_iff]
  constructor
  · intro h k
    by_cases hk : ∃ c : Capability, c.sortKey = k
    · obtain ⟨c, rfl⟩ := hk
      rw [← filter_same, ← filter_same]
      exact h c
    · have hnone : ∀ zs, under JsonObject.sortKey k zs = [] := fun zs =>
        List.eq_nil_iff_forall_not_mem.mpr fun c hc => hk ⟨c, (mem_under.mp hc).2⟩
      rw [hnone, hnone]
  · intro h c
    rw [filter_same, filter_same]
    exact h c.sortKey

theorem SpelledAlike.sameCapabilities {xs ys : List Capability} (h : SpelledAlike xs ys) :
    SameCapabilities xs ys :=
  ⟨ys, perm_of_sortBy_eq (spelledAlike_iff.mp h), List.forall₂_same.mpr fun c _ => .refl c⟩

theorem wellFormed_arr (cs : List Capability) :
    (Json.arr (cs.map JsonObject.json)).wellFormed = true := by
  rw [Json.wellFormed, Json.wellFormedAll_iff, List.forall_mem_map]
  exact fun c _ => c.wellFormed

theorem colon_stops (x : Str) : Json.Stops (':' :: x) := by
  intro c hc
  obtain rfl := Option.some.inj hc
  rfl

theorem computeMigrationHash_eq_iff {sha : Str → Str} (hsha : Function.Injective sha)
    (xs : Option (List Capability)) (p : Option Str) (ys : Option (List Capability))
    (q : Option Str) :
    computeMigrationHash sha xs p = computeMigrationHash sha ys q ↔
      SpelledAlike (xs.getD []) (ys.getD []) ∧ p.getD [] = q.getD [] := by
  rw [spelledAlike_iff]
  simp only [computeMigrationHash, normalizeCapabilities_eq, promptSha]
  constructor
  · intro h
    obtain ⟨hcapabilities, hprompt⟩ := Json.dumps_cancel _ _ (wellFormed_arr _)
      (wellFormed_arr _) (colon_stops _) (colon_stops _) (hsha h)
    exact ⟨JsonObject.json_injective.list_map (Json.arr.inj hcapabilities),
      hsha (List.cons.inj hprompt).2⟩
  · rintro ⟨hcapabilities, hprompt⟩
    rw [hcapabilities, hprompt]

theorem canonical_iff_spelledAlike {sha : Str → Str} (hsha : Function.Injective sha)
    (xs : Option (List Capability)) (p : Option Str) (ys : Option (List Capability))
    (q : Option Str) :
    Canonical sha xs p ys q ↔
      (SameCapabilities (xs.getD []) (ys.getD []) → p.getD [] = q.getD [] →
        SpelledAlike (xs.getD []) (ys.getD [])) := by
  rw [Canonical, computeMigrationHash_eq_iff hsha]
  constructor
  · intro h hsame hprompt
    exact (h.mpr ⟨hsame, hprompt⟩).1
  · intro h
    constructor
    · rintro ⟨halike, hprompt⟩
      exact ⟨halike.sameCapabilities, hprompt⟩
    · rintro ⟨hsame, hprompt⟩
      exact ⟨h hsame hprompt, hprompt⟩

/-! A digest that tells all texts apart, and is SHA-256 on the texts of a table. -/

def tableSha (digests : List (Str × Str)) (text : Str) : Str :=
  (digests.lookup text).getD ('x' :: text)

theorem tableSha_injective {digests : List (Str × Str)} (hnodup : (digests.map Prod.snd).Nodup)
    (hx : ∀ d ∈ digests, d.2.head? ≠ some 'x') : Function.Injective (tableSha digests) := by
  have hcode {text digest : Str} (h : digests.lookup text = some digest) (other : Str) :
      digest ≠ 'x' :: other := by
    intro heq
    apply hx _ (mem_of_lookup h)
    rw [heq, List.head?_cons]
  intro s t h
  unfold tableSha at h
  cases hs : digests.lookup s with
  | some d =>
    cases ht : digests.lookup t with
    | some e =>
      rw [hs, ht, Option.getD_some, Option.getD_some] at h
      have hpair := List.inj_on_of_nodup_map hnodup (mem_of_lookup hs) (mem_of_lookup ht) h
      exact congrArg Prod.fst hpair
    | none =>
      rw [hs, ht] at h
      exact absurd h (hcode hs t)
  | none =>
    cases ht : digests.lookup t with
    | some e =>
      rw [hs, ht] at h
      exact absurd h.symm (hcode ht s)
    | none =>
      rw [hs, ht] at h
      exact (List.cons.inj h).2

def emptyDigest : Str :=
  "e3b0c44298fc1c149afbf4c8996fb92427ae41e4649b934ca495991b7852b855".toList

def reorderedDigests : List (Str × Str) :=
  [([], emptyDigest),
    ("[\x7b\"name\":\"alpha\"\x7d,\x7b\"name\":\"beta\"\x7d]:".toList ++ emptyDigest,
      "a21dd59b324be0ad2247892ae2125a9f0aed609d41a95964f396d2923e150a1f".toList)]

theorem reorderedDigests_injective : Function.Injective (tableSha reorderedDigests) :=
  tableSha_injective (by decide) (by decide)

def named (name : String) : Capability :=
  ⟨[("name".toList, .str name.toList)], rfl⟩

theorem canonical_reordered :
    Canonical (tableSha reorderedDigests) (some [named "beta", named "alpha"]) none
      (some [named "alpha", named "beta"]) (some []) :=
  (canonical_iff_spelledAlike reorderedDigests_injective _ _ _ _).mpr fun _ _ =>
    spelledAlike_iff.mpr rfl

/-- One object under two orders of its keys. -/
def readFirst : Capability :=
  ⟨[("read".toList, .bool true), ("write".toList, .bool false)], rfl⟩

def writeFirst : Capability :=
  ⟨[("write".toList, .bool false), ("read".toList, .bool true)], rfl⟩

theorem same_readFirst : readFirst.Same writeFirst := by decide

/-- No digest makes the fingerprint canonical: the key order within an object is written as
it is. -/
theorem not_canonical_respelled : ¬ ∃ sha : Str → Str, Function.Injective sha ∧
    Canonical sha (some [readFirst]) none (some [writeFirst]) none := by
  rintro ⟨sha, hsha, hcanonical⟩
  have hsame : SameCapabilities [readFirst] [writeFirst] :=
    ⟨[readFirst], .refl _, .cons same_readFirst .nil⟩
  have hhash := hcanonical.mpr ⟨hsame, rfl⟩
  rw [computeMigrationHash_eq_iff hsha] at hhash
  have hlist : [readFirst] = [writeFirst] := spelledAlike_iff.mp hhash.1
  have hkeys := congrArg (List.map fun c => c.members.map Prod.fst) hlist
  exact absurd hkeys (by decide)

end Eyot
