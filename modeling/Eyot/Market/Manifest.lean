import Eyot.Library.FirstWins
import Eyot.Market.Catalog
import Mathlib.Data.Sum.Order

/-! The effective capabilities of an entity from the rows the database returns, with manifests that
hold any JSON. -/

namespace Eyot.Market.Manifest

/-- What a JSONB column holds. -/
structure Jsonb where
  value : Json Str
  wellFormed : value.wellFormed = true

namespace Jsonb

theorem wellFormed_of_get? {v w : Json Str} {k : Str} (h : v.get? k = some w)
    (hv : v.wellFormed = true) : w.wellFormed = true := by
  cases v with
  | obj kvs =>
    rw [Json.wellFormed, Bool.and_eq_true, Json.wellFormedMembers_iff] at hv
    obtain ⟨kv, hkv, rfl⟩ := Option.map_eq_some_iff.mp h
    exact hv.2 kv (List.mem_of_find?_eq_some hkv)
  | null | bool b | num t | str s | arr vs => cases h

theorem wellFormed_of_mem {vs : List (Json Str)} {v : Json Str} (hv : v ∈ vs)
    (hvs : (Json.arr vs).wellFormed = true) : v.wellFormed = true :=
  Json.wellFormedAll_iff.mp hvs v hv

/-- `dict.get`, on any value. -/
def get? (k : Str) : Jsonb → Option Jsonb
  | ⟨v, hv⟩ =>
    match h : v.get? k with
    | some w => some ⟨w, wellFormed_of_get? h hv⟩
    | none => none

def items? : Jsonb → Option (List Jsonb)
  | ⟨.arr vs, hvs⟩ => some (vs.attach.map fun ⟨v, hv⟩ => ⟨v, wellFormed_of_mem hv hvs⟩)
  | _ => none

def str (s : Str) : Jsonb := ⟨.str s, rfl⟩

end Jsonb

structure GeneRow where
  slug : Str
  manifest : Option Jsonb

/-- A capability dict; the names and types that come from a manifest may be anything. -/
structure Dict where
  name : Jsonb
  type : Jsonb
  description : Option Jsonb
  configTemplate : Option JsonObject

namespace Dict

def members (d : Dict) : List (Str × Json Str) :=
  [("name".toList, d.name.value), ("type".toList, d.type.value)] ++
    (d.description.toList.map fun v => ("description".toList, v.value)) ++
    d.configTemplate.toList.map fun t => ("config_template".toList, t.json)

theorem members_wellFormed (d : Dict) : (Json.obj d.members).wellFormed = true := by
  obtain ⟨name, type, description, configTemplate⟩ := d
  have hkeys : ((members ⟨name, type, description, configTemplate⟩).map Prod.fst).Nodup := by
    cases description with
    | none => cases configTemplate <;> exact of_decide_eq_true rfl
    | some d => cases configTemplate <;> exact of_decide_eq_true rfl
  rw [Json.wellFormed, Bool.and_eq_true, decide_eq_true_eq, Json.wellFormedMembers_iff]
  refine ⟨hkeys, ?_⟩
  intro kv hkv
  simp only [members, List.mem_append, List.mem_cons, List.not_mem_nil, or_false, List.mem_map,
    Option.mem_toList] at hkv
  rcases hkv with ((rfl | rfl) | ⟨v, -, rfl⟩) | ⟨t, -, rfl⟩
  · exact name.wellFormed
  · exact type.wellFormed
  · exact v.wellFormed
  · exact t.wellFormed

def toCapability (d : Dict) : Capability := ⟨d.members, d.members_wellFormed⟩

end Dict

/-- The rows of the three queries.  Active names of the market and active slugs of the genes are
unique, and so are the links. -/
structure Rows where
  junction : List CapabilityMarketEntry
  explicit : List GeneRow
  inherited : List GeneRow
  junction_nodup : (junction.map CapabilityMarketEntry.name).Nodup
  explicit_nodup : (explicit.map GeneRow.slug).Nodup
  inherited_nodup : (inherited.map GeneRow.slug).Nodup

inductive TypeError where
  | unhashable
  | unorderable
  deriving DecidableEq

section Python

-- The number a numeral is read as, by which Python compares it.
variable {ν : Type} [LinearOrder ν] (number : Str → ν)

def truthy : Json Str → Bool
  | .null => false
  | .bool b => b
  | .num t => number t ≠ number "0".toList
  | .str s => !s.isEmpty
  | .arr vs => !vs.isEmpty
  | .obj kvs => !kvs.isEmpty

def isHashable : Json Str → Bool
  | .arr _ => false
  | .obj _ => false
  | _ => true

/-- What Python finds a name by; `True` is the number one. -/
def nameKey : Json Str → Str ⊕ₗ ν
  | .str s => toLex (.inl s)
  | .num t => toLex (.inr (number t))
  | .bool true => toLex (.inr (number "1".toList))
  | .bool false => toLex (.inr (number "0".toList))
  | _ => toLex (.inl [])

def isText (k : Str ⊕ₗ ν) : Bool := (ofLex k).isLeft

def Dict.key (d : Dict) : Str ⊕ₗ ν := nameKey number d.name.value

def capabilityToDict (cap : CapabilityMarketEntry) : Dict where
  name := .str cap.name
  type := .str cap.type
  description := (Market.truthy cap.description).map Jsonb.str
  configTemplate := cap.configTemplate.filter fun t => !t.members.isEmpty

def extractManifestCapabilities (manifest : Option Jsonb) : Option (List Jsonb) :=
  (manifest.bind (Jsonb.get? "capabilities".toList)).bind Jsonb.items?

/-- `_gene_inline_to_dict` of an item that is a dict with a name. -/
def geneInlineToDict? (item : Jsonb) : Option Dict :=
  match (item.get? "name".toList).filter fun v => truthy number v.value with
  | some name =>
    some {
      name := name
      type := ((item.get? "type".toList).filter fun v => truthy number v.value).getD
        (.str "skill".toList)
      description := (item.get? "description".toList).filter fun v => truthy number v.value
      configTemplate := none }
  | none => none

def inlineCapabilities (manifest : Option Jsonb) : List Dict :=
  ((extractManifestCapabilities manifest).getD []).filterMap (geneInlineToDict? number)

def loadEntityGeneInlineCapabilityDicts (rows : Rows) : List Dict :=
  let genes := rows.inherited.foldl (fun d g => setDefault d g.slug g.manifest)
    (rows.explicit.foldl (fun d g => setItem d g.slug g.manifest) [])
  genes.flatMap fun kv => inlineCapabilities number kv.2

/-- A sort of texts and numbers compares a text with a number somewhere. -/
def comparable (caps : List Dict) : Bool :=
  caps.all (fun d => isText (d.key number)) || caps.all fun d => !isText (d.key number)

def loadEntityCapabilityDicts (rows : Rows) : Except TypeError (List Dict) :=
  let junction := rows.junction.map capabilityToDict
  let geneCaps := loadEntityGeneInlineCapabilityDicts number rows
  if geneCaps.all fun d => isHashable d.name.value then
    let merged := geneCaps.foldl (mergeBy (Dict.key number)) junction
    if comparable number merged then .ok (sortBy (Dict.key number) merged) else .error .unorderable
  else .error .unhashable

def migrationHash (sha : Str → Str) (rows : Rows) (prompt : Option Str) : Except TypeError Str :=
  (loadEntityCapabilityDicts number rows).map fun caps =>
    computeMigrationHash sha (some (caps.map Dict.toCapability)) prompt

end Python

end Eyot.Market.Manifest
