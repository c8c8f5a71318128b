import Eyot.Market.Manifest
import Eyot.Market.Requests

/-! The agent config of an entity: the template of its base class under what the entity sets
itself. -/

namespace Eyot.Market

/-- A dict of JSON values. -/
abbrev Members := List (Str × Json Str)

def member? (d : Members) (k : String) : Option (Json Str) := (Json.obj d).get? k.toList

/-- `list(v)`; a dict gives its keys and a text its characters. -/
def pyList : Json Str → Option (List (Json Str))
  | .arr vs => some vs
  | .obj kvs => some (kvs.map fun kv => .str kv.1)
  | .str s => some (s.map fun c => .str [c])
  | _ => none

/-- One item of what `dict` is given. -/
def setPair (d : Members) (item : Json Str) : Option Members :=
  match pyList item with
  | some [.str k, v] => some (setItem d k v)
  | _ => none

/-- `dict(v)`; `none` where it raises, or where a key is no text. -/
def pyDict : Json Str → Option Members
  | .obj kvs => some kvs
  | .arr vs => vs.foldlM setPair []
  | .str s => (s.map fun c => Json.str [c]).foldlM setPair []
  | _ => none

mutual
/-- The value of an override over the one that is there. -/
def mergeValue (base : Option (Json Str)) : Json Str → Json Str
  | .obj kvs =>
    match base with
    | some (.obj bs) => .obj (deepMerge bs kvs)
    | _ => .obj kvs
  | .null => .null
  | .bool b => .bool b
  | .num t => .num t
  | .str s => .str s
  | .arr vs => .arr vs

def deepMerge (base : Members) : Members → Members
  | [] => base
  | (k, v) :: override => deepMerge (setItem base k (mergeValue ((Json.obj base).get? k) v)) override
end

structure EntityRow extends Entity where
  displayName : Option Str
  configOverride : Option JsonObject
  hasKnowledge : Option (List Str)

structure ClassRow extends BaseClass where
  name : Str
  displayName : Option Str
  manifest : Option JsonObject
  hasKnowledge : Option (List Str)

/-- `display_name or name` -/
def shownName (displayName : Option Str) (name : Str) : Str := (truthy displayName).getD name

def CAP_KEYS : List Str :=
  ["default_capabilities".toList, "capabilities".toList, "default_gene_refs".toList,
    "gene_refs".toList, "installed_genes".toList]

def asList? : Json Str → Option (List (Json Str))
  | .arr vs => some vs
  | _ => none

/-- The first of the keys that has a list. -/
def firstList? (d : Members) (keys : List String) : Option (List (Json Str)) :=
  keys.findSome? fun k => (member? d k).bind asList?

section

variable {ν : Type} [LinearOrder ν] (number : Str → ν)

/-- `v or d` -/
def orElse (v : Option (Json Str)) (d : Json Str) : Json Str :=
  (v.filter (Manifest.truthy number)).getD d

def manifestTemplateSubset (manifest : Members) : Option Members := do
  let commands ← pyList (orElse number (member? manifest "commands") (.arr []))
  let tools ← pyList (orElse number (member? manifest "tools") (.arr []))
  let runtimeConfig ← pyDict (orElse number (member? manifest "runtime_config") (.obj []))
  let prompt := orElse number (member? manifest "system_prompt")
    (orElse number (member? manifest "prompt") (.str []))
  some [
    ("provider_config".toList, orElse number (member? manifest "provider_config") (.obj [])),
    ("default_model".toList, orElse number (member? manifest "default_model")
      (orElse number (member? manifest "model") (.str "tbd".toList))),
    ("commands".toList, .arr commands),
    ("system_prompt".toList, prompt),
    ("tools".toList, .arr tools),
    ("runtime_config".toList, .obj runtimeConfig),
    ("subagent_strategy".toList, orElse number (member? manifest "subagent_strategy") (.obj [])),
    ("baseclass_template_prompt".toList, prompt),
    ("baseclass_operating_form".toList, orElse number (member? manifest "operating_form")
      (orElse number (member? manifest "description") (.str [])))]

/-- `none` where the template raises. -/
def resolveEntityConfig (entity : EntityRow) (baseManifest : Option JsonObject)
    (capabilities geneRefs : List (Json Str)) : Option Members :=
  (manifestTemplateSubset number ((baseManifest.map JsonObject.members).getD [])).map
    fun template =>
      let prompted := match entity.systemPrompt with
        | some prompt => setItem template "system_prompt".toList (.str prompt)
        | none => template
      let override := (entity.configOverride.map JsonObject.members).getD []
      let merged := deepMerge prompted (override.filter fun kv => !CAP_KEYS.contains kv.1)
      let capabilities :=
        (firstList? override ["default_capabilities", "capabilities"]).getD capabilities
      let refs := (firstList? override ["default_gene_refs", "gene_refs", "installed_genes"]).getD
        geneRefs
      [("default_capabilities".toList, .arr capabilities),
        ("default_gene_refs".toList, .arr refs),
        ("entity_slug".toList, .str entity.slug),
        ("entity_name".toList, .str (shownName entity.displayName entity.name)),
        ("entity_role_prompt".toList, (entity.systemPrompt.map Json.str).getD .null)].foldl
          (fun d kv => setItem d kv.1 kv.2) merged

end

/-! Slugs under which a base class may be found. -/

def legacyAlias? (slug : Str) : Option Str :=
  (LEGACY_PRESET_ALIASES.find? fun kv => kv.1 = slug).map Prod.snd

def legacyNames (slug : Str) : List Str :=
  (LEGACY_PRESET_ALIASES.filter fun kv => kv.2 = slug).map Prod.fst

def addNew (out : List Str) (item : Str) : List Str :=
  if out.contains item then out else out ++ [item]

def candidateSlugs (slug : Str) : List Str :=
  (slug :: (legacyAlias? slug).toList ++ legacyNames slug).foldl addNew []

/-- The active base class of that slug. -/
def classWithSlug? (classes : List ClassRow) (slug : Str) : Option ClassRow :=
  classes.find? fun b => decide (b.slug = slug) && !b.deleted

/-- The active base class of the first slug that has one. -/
def candidateClass? (classes : List ClassRow) (slug : Str) : Option ClassRow :=
  (candidateSlugs slug).findSome? (classWithSlug? classes)

end Eyot.Market
