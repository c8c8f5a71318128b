import Eyot.Library.Run
import Eyot.Library.Segments
import Eyot.Market.AssetRequests
import Eyot.Naming.EntityRename
import Eyot.Topology.WorkspaceClones

/-! The slugs of clones, of clones of clones, and so on. -/

namespace Eyot.Naming

open Market (KebabSlug matchesSlugPattern)
open Scan (isSegmented)
open Eyot.Topology (CloneDraws newSlug slugMax)

/-- A slug that a request may bring and the column holds. -/
structure SourceSlug extends KebabSlug where
  fits : text.length ≤ slugMax

/-- What a clone draws, with the first eight digits of `uuid4().hex`. -/
structure Draw extends CloneDraws where
  length : suffix.length = 8
  hex : suffix.all isHex = true

/-- The clone of a slug is cloned in turn. -/
def cloneSlug (slug : Str) (draw : Draw) : Str := newSlug draw.toCloneDraws slug none

def Good (slug : Str) (draw : Draw) : Prop :=
  matchesSlugPattern (cloneSlug slug draw) = true ∧ (cloneSlug slug draw).length ≤ slugMax ∧
    cloneSlug slug draw ≠ slug

instance (slug : Str) (draw : Draw) : Decidable (Good slug draw) :=
  inferInstanceAs (Decidable (_ ∧ _ ∧ _))

def keptOfSource : Nat := 240

/-- What is kept of the slug ends a word, and what is not kept is not the new suffix. -/
def Clean (slug : Str) (draw : Draw) : Prop :=
  (slug.take keptOfSource).getLast? ≠ some '-' ∧ (slug.take keptOfSource).getLast? ≠ some '\n' ∧
    slug.drop keptOfSource ≠ "-clone-".toList ++ draw.suffix

instance (slug : Str) (draw : Draw) : Decidable (Clean slug draw) :=
  inferInstanceAs (Decidable (_ ∧ _ ∧ _))

theorem cloneSlug_eq (slug : Str) (draw : Draw) : cloneSlug slug draw =
    slug.take keptOfSource ++ ("-clone-".toList ++ draw.suffix) := by
  have hlen : ("-clone-".toList ++ draw.suffix).length = 15 := by
    rw [List.length_append, draw.length]
    rfl
  change slug.take (slugMax - ("-clone-".toList ++ draw.suffix).length) ++ _ = _
  rw [hlen]
  rfl

theorem length_cloneSlug (slug : Str) (draw : Draw) : (cloneSlug slug draw).length ≤ slugMax := by
  rw [cloneSlug_eq, List.length_append, List.length_append, draw.length, List.length_take]
  change min 240 slug.length + (7 + 8) ≤ 255
  omega

theorem isSlugChar_of_isHex {c : Char} (h : isHex c = true) : Market.isSlugChar c = true := by
  rw [isHex, Bool.or_eq_true, decide_eq_true_eq] at h
  rw [Market.isSlugChar, Bool.or_eq_true]
  refine h.imp id fun h => ?_
  refine Bool.and_eq_true_iff.mpr ?_
  rw [decide_eq_true_eq, decide_eq_true_eq]
  exact ⟨h.1, h.2.trans (by decide)⟩

theorem isSegmented_suffix (draw : Draw) : isSegmented '-' Market.isSlugChar draw.suffix = true := by
  have hgood : ∀ c ∈ draw.suffix, Market.isSlugChar c = true := fun c hc =>
    isSlugChar_of_isHex (List.all_eq_true.mp draw.hex c hc)
  have hsep : ∀ c ∈ draw.suffix, c ≠ '-' := by
    rintro c hc rfl
    exact absurd (hgood '-' hc) (by decide)
  have hne : draw.suffix ≠ [] := by
    intro h
    have hlen := draw.length
    rw [h] at hlen
    cases hlen
  rw [Scan.isSegmented_run hsep, Bool.and_eq_true]
  exact ⟨by simpa using hne, List.all_eq_true.mpr hgood⟩

theorem getLast?_cloneSlug (slug : Str) (draw : Draw) :
    (cloneSlug slug draw).getLast? ≠ some '\n' := by
  intro h
  have hne : draw.suffix ≠ [] := Scan.ne_nil_of_isSegmented (isSegmented_suffix draw)
  rw [cloneSlug_eq, ← List.append_assoc, List.getLast?_append_of_ne_nil _ hne] at h
  rcases Scan.good_of_isSegmented (isSegmented_suffix draw) _ (List.mem_of_getLast? h) with h | h
  · exact absurd h (by decide)
  · exact absurd h (by decide)

theorem matchesSlugPattern_cloneSlug (slug : Str) (draw : Draw) :
    matchesSlugPattern (cloneSlug slug draw) =
      isSegmented '-' Market.isSlugChar (slug.take keptOfSource) := by
  have hsuffix : isSegmented '-' Market.isSlugChar ("clone".toList ++ '-' :: draw.suffix) = true := by
    rw [Scan.isSegmented_append, isSegmented_suffix]
    decide
  rw [matchesSlugPattern, if_neg (getLast?_cloneSlug slug draw)]
  change isSegmented '-' Market.isSlugChar _ = _
  rw [cloneSlug_eq]
  change isSegmented '-' Market.isSlugChar
    (slug.take keptOfSource ++ '-' :: ("clone".toList ++ '-' :: draw.suffix)) = _
  rw [Scan.isSegmented_append, hsuffix, Bool.and_true]

/-- A slug that is accepted can be cut anywhere but behind a hyphen, or the last newline. -/
theorem isSegmented_kept {slug : Str} (h : matchesSlugPattern slug = true) :
    isSegmented '-' Market.isSlugChar (slug.take keptOfSource) = true ↔
      (slug.take keptOfSource).getLast? ≠ some '-' ∧
        (slug.take keptOfSource).getLast? ≠ some '\n' := by
  have hnot : ∀ l : Str, isSegmented '-' Market.isSlugChar l = true → '\n' ∉ l := by
    intro l hl hmem
    rcases Scan.good_of_isSegmented hl _ hmem with h | h
    · exact absurd h (by decide)
    · exact absurd h (by decide)
  refine ⟨fun hseg => ⟨Scan.getLast?_of_isSegmented hseg, fun hlast =>
    hnot _ hseg (List.mem_of_getLast? hlast)⟩, fun hlast => ?_⟩
  rw [matchesSlugPattern] at h
  split at h
  · rename_i hnewline
    change isSegmented '-' Market.isSlugChar slug.dropLast = true at h
    have hslug : slug.dropLast ++ ['\n'] = slug := by
      have hne : slug ≠ [] := by
        rintro rfl
        cases hnewline
      rw [List.getLast?_eq_some_getLast hne, Option.some.injEq] at hnewline
      rw [← hnewline, List.dropLast_append_getLast]
    -- The newline is not kept, or it would be the last of what is kept.
    rcases Nat.lt_or_ge slug.dropLast.length keptOfSource with hlt | hge
    · have htake : slug.take keptOfSource = slug := by
        rw [← hslug]
        exact List.take_of_length_le (by simpa using hlt)
      rw [htake, hnewline] at hlast
      exact absurd rfl hlast.2
    · have htake : slug.take keptOfSource = slug.dropLast.take keptOfSource := by
        conv_lhs => rw [← hslug]
        exact List.take_append_of_le_length hge
      rw [htake] at hlast ⊢
      exact (Scan.isSegmented_take h (by decide)).mpr hlast.1
  · exact (Scan.isSegmented_take h (by decide)).mpr hlast.1

theorem cloneSlug_ne_iff (slug : Str) (draw : Draw) : cloneSlug slug draw ≠ slug ↔
    slug.drop keptOfSource ≠ "-clone-".toList ++ draw.suffix := by
  refine not_congr ?_
  rw [cloneSlug_eq]
  constructor
  · intro h
    conv_rhs at h => rw [← List.take_append_drop keptOfSource slug]
    exact (List.append_cancel_left h).symm
  · intro h
    rw [← h, List.take_append_drop]

theorem good_iff_clean {slug : Str} (h : matchesSlugPattern slug = true) (draw : Draw) :
    Good slug draw ↔ Clean slug draw := by
  rw [Good, Clean, matchesSlugPattern_cloneSlug, isSegmented_kept h, cloneSlug_ne_iff, and_assoc]
  refine and_congr_right fun _ => and_congr_right fun _ => ?_
  exact and_iff_right (length_cloneSlug slug draw)

/-- Down a line of clones, all slugs are good exactly when no step of it cuts behind a hyphen or a
newline or draws what the source ends in. -/
theorem clones_good_iff (source : SourceSlug) (draws : List Draw) :
    Run.Meets cloneSlug Good source.text draws ↔ Run.Meets cloneSlug Clean source.text draws :=
  Run.meets_iff_of_keeps (r := fun slug => matchesSlugPattern slug = true)
    (fun _ _ h hclean => ((good_iff_clean h _).mpr hclean).1)
    (fun _ draw h => good_iff_clean h draw) source.valid draws

def zeros : Draw where
  suffix := "00000000".toList
  workspaceId := "workspace"
  centralHubId := "hub"
  vaultId := "vault"
  membershipId := id
  passageId := id
  length := rfl
  hex := by decide

/-- Cut behind a hyphen, ended by a newline, and at the end of the column with the same draw. -/
def troubled : List SourceSlug :=
  [⟨⟨List.replicate 239 'a' ++ "-b".toList, by decide +kernel⟩, by decide +kernel⟩,
    ⟨⟨"a\n".toList, by decide +kernel⟩, by decide +kernel⟩,
    ⟨⟨List.replicate 240 'a' ++ "-clone-00000000".toList, by decide +kernel⟩, by decide +kernel⟩]

theorem troubled_not_good :
    ¬ ∃ source ∈ troubled, Run.Meets cloneSlug Good source.text [zeros] := by
  decide +kernel

end Eyot.Naming
