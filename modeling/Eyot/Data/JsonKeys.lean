import Mathlib.Data.List.Forall2
import Eyot.Data.JsonText

/-! JSON values up to the order of the keys of their objects, and the ones with their keys in
order. -/

namespace Eyot

namespace Json

/-! Equal values: the members of an object come in any order, at every depth. -/

mutual
inductive Same : Json Str → Json Str → Prop
  | null : Same .null .null
  | bool (b : Bool) : Same (.bool b) (.bool b)
  | num (t : Str) : Same (.num t) (.num t)
  | str (s : Str) : Same (.str s) (.str s)
  | arr {vs ws : List (Json Str)} : SameAll vs ws → Same (.arr vs) (.arr ws)
  | obj {kvs mvs lws : List (Str × Json Str)} :
      SameMembers kvs mvs → mvs.Perm lws → Same (.obj kvs) (.obj lws)

inductive SameAll : List (Json Str) → List (Json Str) → Prop
  | nil : SameAll [] []
  | cons {v w : Json Str} {vs ws : List (Json Str)} :
      Same v w → SameAll vs ws → SameAll (v :: vs) (w :: ws)

inductive SameMembers : List (Str × Json Str) → List (Str × Json Str) → Prop
  | nil : SameMembers [] []
  | cons (k : Str) {v w : Json Str} {kvs lws : List (Str × Json Str)} :
      Same v w → SameMembers kvs lws → SameMembers ((k, v) :: kvs) ((k, w) :: lws)
end

mutual
/-- What `sort_keys` makes of a value before it is written. -/
def sortKeys : Json Str → Json Str
  | .arr vs => .arr (sortKeysAll vs)
  | .obj kvs => .obj (sortBy Prod.fst (sortKeysMembers kvs))
  | v => v

def sortKeysAll : List (Json Str) → List (Json Str)
  | [] => []
  | v :: vs => v.sortKeys :: sortKeysAll vs

def sortKeysMembers : List (Str × Json Str) → List (Str × Json Str)
  | [] => []
  | (k, v) :: kvs => (k, v.sortKeys) :: sortKeysMembers kvs
end

theorem sortKeysMembers_eq_map (kvs : List (Str × Json Str)) :
    sortKeysMembers kvs = kvs.map fun kv => (kv.1, kv.2.sortKeys) := by
  induction kvs with
  | nil => rfl
  | cons kv kvs ih => rw [sortKeysMembers, ih, List.map_cons]

theorem keys_sortKeysMembers (kvs : List (Str × Json Str)) :
    (sortKeysMembers kvs).map Prod.fst = kvs.map Prod.fst := by
  simp [sortKeysMembers_eq_map, Function.comp_def]

/-- Members that are others' in another order, each with its keys in order. -/
theorem perm_sortKeysMembers {kvs lws : List (Str × Json Str)} :
    (sortKeysMembers kvs).Perm (sortKeysMembers lws) ↔
      ∃ mvs : List (Str × Json Str),
        sortKeysMembers kvs = sortKeysMembers mvs ∧ mvs.Perm lws := by
  constructor
  · intro h
    have hmap : List.Forall₂ (fun m l => m = (l.1, l.2.sortKeys)) (sortKeysMembers lws) lws := by
      rw [sortKeysMembers_eq_map, List.forall₂_map_left_iff]
      exact List.forall₂_same.mpr fun _ _ => rfl
    obtain ⟨mvs, hmvs, hperm⟩ := List.perm_comp_forall₂ h hmap
    refine ⟨mvs, ?_, hperm⟩
    rw [sortKeysMembers_eq_map mvs]
    clear hperm hmap h
    generalize sortKeysMembers kvs = ms at hmvs
    induction hmvs with
    | nil => rfl
    | cons hhead _ ih => rw [List.map_cons, hhead, ih]
  · rintro ⟨mvs, heq, hperm⟩
    rw [heq, sortKeysMembers_eq_map, sortKeysMembers_eq_map]
    exact hperm.map _

theorem sortKeys_obj_eq_iff {kvs lws : List (Str × Json Str)}
    (hkeys : (kvs.map Prod.fst).Nodup) :
    sortKeys (.obj kvs) = sortKeys (.obj lws) ↔
      (sortKeysMembers kvs).Perm (sortKeysMembers lws) := by
  rw [sortKeys, sortKeys, Json.obj.injEq]
  constructor
  · exact perm_of_sortBy_eq
  · intro hperm
    apply sortBy_congr_perm hperm
    rwa [keys_sortKeysMembers]

mutual
/-- Two values are the same exactly if they are once the keys are in order. -/
theorem same_iff (v w : Json Str) (hv : v.wellFormed = true) :
    Same v w ↔ v.sortKeys = w.sortKeys := by
  match v with
  | .null =>
    constructor
    · rintro ⟨⟩
      rfl
    · intro h
      cases w with
      | null => exact .null
      | _ => cases h
  | .bool b =>
    constructor
    · rintro ⟨⟩
      rfl
    · intro h
      cases w with
      | bool c =>
        obtain rfl : b = c := Json.bool.inj h
        exact .bool b
      | _ => cases h
  | .num t =>
    constructor
    · rintro ⟨⟩
      rfl
    · intro h
      cases w with
      | num s =>
        obtain rfl : t = s := Json.num.inj h
        exact .num t
      | _ => cases h
  | .str s =>
    constructor
    · rintro ⟨⟩
      rfl
    · intro h
      cases w with
      | str t =>
        obtain rfl : s = t := Json.str.inj h
        exact .str s
      | _ => cases h
  | .arr vs =>
    constructor
    · intro h
      cases h with
      | @arr _ ws hall => exact congrArg Json.arr ((sameAll_iff vs ws hv).mp hall)
    · intro h
      cases w with
      | arr ws => exact .arr ((sameAll_iff vs ws hv).mpr (Json.arr.inj h))
      | _ => cases h
  | .obj kvs =>
    simp only [wellFormed, Bool.and_eq_true, decide_eq_true_eq] at hv
    constructor
    · intro h
      cases h with
      | @obj _ mvs lws hmembers hperm =>
        rw [sortKeys_obj_eq_iff hv.1, perm_sortKeysMembers]
        exact ⟨mvs, (sameMembers_iff kvs mvs hv.2).mp hmembers, hperm⟩
    · intro h
      cases w with
      | obj lws =>
        rw [sortKeys_obj_eq_iff hv.1, perm_sortKeysMembers] at h
        obtain ⟨mvs, heq, hperm⟩ := h
        exact .obj ((sameMembers_iff kvs mvs hv.2).mpr heq) hperm
      | _ => cases h

theorem sameAll_iff (vs ws : List (Json Str)) (hvs : wellFormedAll vs = true) :
    SameAll vs ws ↔ sortKeysAll vs = sortKeysAll ws := by
  match vs, ws with
  | [], [] => exact iff_of_true .nil rfl
  | [], w :: ws => exact iff_of_false nofun nofun
  | v :: vs, [] => exact iff_of_false nofun nofun
  | v :: vs, w :: ws =>
    simp only [wellFormedAll, Bool.and_eq_true] at hvs
    rw [sortKeysAll, sortKeysAll, List.cons.injEq, ← same_iff v w hvs.1,
      ← sameAll_iff vs ws hvs.2]
    constructor
    · intro h
      cases h with
      | cons hvalue hrest => exact ⟨hvalue, hrest⟩
    · exact fun h => .cons h.1 h.2

theorem sameMembers_iff (kvs lws : List (Str × Json Str)) (hkvs : wellFormedMembers kvs = true) :
    SameMembers kvs lws ↔ sortKeysMembers kvs = sortKeysMembers lws := by
  match kvs, lws with
  | [], [] => exact iff_of_true .nil rfl
  | [], lw :: lws => exact iff_of_false nofun nofun
  | kv :: kvs, [] => exact iff_of_false nofun nofun
  | (k, v) :: kvs, (l, w) :: lws =>
    simp only [wellFormedMembers, Bool.and_eq_true] at hkvs
    rw [sortKeysMembers, sortKeysMembers, List.cons.injEq, Prod.mk.injEq,
      ← same_iff v w hkvs.1, ← sameMembers_iff kvs lws hkvs.2]
    constructor
    · intro h
      cases h with
      | cons _ hvalue hrest => exact ⟨⟨rfl, hvalue⟩, hrest⟩
    · rintro ⟨⟨rfl, hvalue⟩, hrest⟩
      exact .cons k hvalue hrest
end

mutual
theorem wellFormed_sortKeys (v : Json Str) (hv : v.wellFormed = true) :
    v.sortKeys.wellFormed = true := by
  match v with
  | .null => exact hv
  | .bool _ => exact hv
  | .num _ => exact hv
  | .str _ => exact hv
  | .arr vs => exact wellFormed_sortKeysAll vs hv
  | .obj kvs =>
    simp only [wellFormed, Bool.and_eq_true, decide_eq_true_eq] at hv
    have hperm := sortBy_perm Prod.fst (sortKeysMembers kvs)
    simp only [sortKeys, wellFormed, Bool.and_eq_true, decide_eq_true_eq]
    constructor
    · rw [(hperm.map Prod.fst).nodup_iff, keys_sortKeysMembers]
      exact hv.1
    · rw [wellFormedMembers_iff]
      intro kv hkv
      exact wellFormedMembers_iff.mp (wellFormed_sortKeysMembers kvs hv.2) kv
        (hperm.mem_iff.mp hkv)

theorem wellFormed_sortKeysAll (vs : List (Json Str)) (hvs : wellFormedAll vs = true) :
    wellFormedAll (sortKeysAll vs) = true := by
  match vs with
  | [] => rfl
  | v :: vs =>
    simp only [wellFormedAll, Bool.and_eq_true] at hvs
    simp only [sortKeysAll, wellFormedAll, Bool.and_eq_true]
    exact ⟨wellFormed_sortKeys v hvs.1, wellFormed_sortKeysAll vs hvs.2⟩

theorem wellFormed_sortKeysMembers (kvs : List (Str × Json Str))
    (hkvs : wellFormedMembers kvs = true) : wellFormedMembers (sortKeysMembers kvs) = true := by
  match kvs with
  | [] => rfl
  | (k, v) :: kvs =>
    simp only [wellFormedMembers, Bool.and_eq_true] at hkvs
    simp only [sortKeysMembers, wellFormedMembers, Bool.and_eq_true]
    exact ⟨wellFormed_sortKeys v hkvs.1, wellFormed_sortKeysMembers kvs hkvs.2⟩
end

theorem dumps_inj {v w : Json Str} (hv : v.wellFormed = true) (hw : w.wellFormed = true)
    (h : v.dumps = w.dumps) : v = w := by
  have hnil : Stops [] := nofun
  have happ : v.dumps ++ [] = w.dumps ++ [] := by rw [h]
  exact (dumps_cancel v w hv hw hnil hnil happ).1

/-- With the keys sorted, values are written alike exactly if they are the same. -/
theorem dumps_sortKeys_eq_iff {v w : Json Str} (hv : v.wellFormed = true)
    (hw : w.wellFormed = true) : v.sortKeys.dumps = w.sortKeys.dumps ↔ Same v w := by
  rw [same_iff v w hv]
  exact ⟨dumps_inj (wellFormed_sortKeys v hv) (wellFormed_sortKeys w hw), congrArg dumps⟩

end Json

/-- A JSON object, with its keys in the order they were written in. -/
structure JsonObject where
  members : List (Str × Json Str)
  wellFormed : (Json.obj members).wellFormed = true

namespace JsonObject

def json (c : JsonObject) : Json Str := .obj c.members

theorem ext_members {c d : JsonObject} (h : c.members = d.members) : c = d := by
  obtain ⟨members, hc⟩ := c
  obtain ⟨members', hd⟩ := d
  obtain rfl : members = members' := h
  rfl

theorem json_injective : Function.Injective json := fun _ _ h => ext_members (Json.obj.inj h)

/-- `json.dumps(c, sort_keys=True)` -/
def sortKey (c : JsonObject) : Str := c.json.sortKeys.dumps

/-- The same object, whatever the order of its keys. -/
def Same (c d : JsonObject) : Prop := Json.Same c.json d.json

theorem sortKey_eq_iff {c d : JsonObject} : c.sortKey = d.sortKey ↔ c.Same d :=
  Json.dumps_sortKeys_eq_iff c.wellFormed d.wellFormed

instance (c d : JsonObject) : Decidable (c.Same d) :=
  decidable_of_iff _ sortKey_eq_iff

theorem Same.refl (c : JsonObject) : c.Same c := sortKey_eq_iff.mp rfl

end JsonObject

end Eyot
