import Eyot.Knowledge.Winners
import Eyot.Library.Dict
import Mathlib.Data.List.Infix

/-! The environment of an instance's pod, and the knowledge in it. -/

namespace Eyot.Knowledge

abbrev Env := List (Str × Str)

/-- `re.sub(r"[^A-Za-z0-9]", "_", slug).upper()`, one character at a time. -/
def envChar (c : Char) : Char := if c.isAlphanum then c.toUpper else '_'

def knowledgeSlugToEnvKey (slug : Str) : Str := "KNOWLEDGE_".toList ++ slug.map envChar

/-! What the spawn of an instance writes to its `runtime_config`, and the deployment reads. -/

def spawnEnv (has : List Str) (entries : List KnowledgeEntry) : Env :=
  sortBy Prod.fst <| entries.foldl
    (fun env entry => if has.contains entry.key then Dict.set env entry.key entry.body else env) []

def buildSpawnKnowledgePayload (has : List Str) (entries : List KnowledgeEntry) :
    Option (Json Str) :=
  if has.isEmpty || (spawnEnv has entries).isEmpty then none
  else some (.obj [("env".toList, .obj ((spawnEnv has entries).map fun kv => (kv.1, .str kv.2))),
    ("files".toList, .arr [])])

/-- `override` comes with the request that makes the instance. -/
def runtimeConfig (override : List (Str × Json Str)) (agentConfig : Json Str)
    (payload : Option (Json Str)) : List (Str × Json Str) :=
  let config := Dict.set override "agent_config".toList agentConfig
  match payload with
  | none => config
  | some payload => Dict.set config "knowledge".toList payload

def stringItem (kv : Str × Json Str) : Option (Str × Str) :=
  kv.2.asStr?.map fun value => (knowledgeSlugToEnvKey kv.1, value)

/-- Whatever is not of the expected shape is read as nothing. -/
def knowledgeEnvForInstance (config : List (Str × Json Str)) : Env :=
  match Dict.get? config "knowledge".toList with
  | some (.obj knowledge) =>
    match Dict.get? knowledge "env".toList with
    | some (.obj env) => Dict.update [] (env.filterMap stringItem)
    | _ => []
  | _ => []

/-! What `pi` needs for the provider. -/

structure OrganizationProvider where
  catalogProviderId : Option Str
  slug : Str
  name : Str
  requestFormat : Str
  baseUrl : Option Str
  defaultModel : Str

def PROVIDER_ENV_KEYS : Env :=
  [("anthropic".toList, "ANTHROPIC_API_KEY".toList), ("openai".toList, "OPENAI_API_KEY".toList),
    ("deepseek".toList, "DEEPSEEK_API_KEY".toList), ("google".toList, "GEMINI_API_KEY".toList),
    ("gemini".toList, "GEMINI_API_KEY".toList), ("groq".toList, "GROQ_API_KEY".toList),
    ("mistral".toList, "MISTRAL_API_KEY".toList), ("xai".toList, "XAI_API_KEY".toList),
    ("openrouter".toList, "OPENROUTER_API_KEY".toList),
    ("together".toList, "TOGETHER_API_KEY".toList),
    ("fireworks".toList, "FIREWORKS_API_KEY".toList),
    ("minimax".toList, "MINIMAX_API_KEY".toList), ("kimi".toList, "KIMI_API_KEY".toList),
    ("kimi-coding".toList, "KIMI_API_KEY".toList)]

/-- A provider is known by one of its names, or by what is in one of them. -/
def keyInName (raw : Str) : Option Str :=
  (Dict.get? PROVIDER_ENV_KEYS raw).or
    ((PROVIDER_ENV_KEYS.find? fun kv => decide (kv.1 <:+: raw)).map Prod.snd)

-- `str.lower`.
def piEnvKeyForProvider (lower : Str → Str) (provider : OrganizationProvider) : Str :=
  let candidates := [lower (provider.catalogProviderId.getD []), lower provider.slug,
    lower provider.name]
  (candidates.findSome? keyInName).getD <|
    if provider.requestFormat = "completion".toList ∨ provider.requestFormat = "response".toList
    then "OPENAI_API_KEY".toList
    else if provider.requestFormat = "anthropic".toList then "ANTHROPIC_API_KEY".toList
    else if provider.requestFormat = "gemini".toList then "GEMINI_API_KEY".toList
    else "OPENAI_API_KEY".toList

def nonEmpty (text : Option Str) : Option Str := text.filter fun t => !t.isEmpty

def piProviderId (provider : OrganizationProvider) : Str :=
  pythonText.strip ((nonEmpty provider.catalogProviderId).getD
    ((nonEmpty (some provider.slug)).getD "openai".toList))

def withModel (provider : OrganizationProvider) (modelId : Str) (out : Env) : Env :=
  if modelId.isEmpty then out
  else Dict.set out "PI_MODEL".toList
    (if modelId.contains '/' then modelId else piProviderId provider ++ '/' :: modelId)

/-- `apiKey` is what `resolve_api_key` gives, if it does not fail. -/
def providerToPiEnv (lower : Str → Str) (provider : OrganizationProvider) (apiKey : Option Str)
    (model : Option Str) : Env :=
  match apiKey with
  | none => []
  | some apiKey =>
    let envName := piEnvKeyForProvider lower provider
    let out := [(envName, apiKey)]
    let out :=
      if envName ≠ "OPENAI_API_KEY".toList ∧ (provider.requestFormat = "completion".toList ∨
        provider.requestFormat = "response".toList)
      then Dict.set out "OPENAI_API_KEY".toList apiKey else out
    let out :=
      match nonEmpty provider.baseUrl with
      | none => out
      | some url =>
        let url := url.rdropWhile (· = '/')
        Dict.set (Dict.set out "OPENAI_BASE_URL".toList url) "PI_BASE_URL".toList url
    let modelId := pythonText.strip ((nonEmpty model).getD provider.defaultModel)
    Dict.set (withModel provider modelId out) "PI_PROVIDER".toList (piProviderId provider)

/-! The pod. -/

def withSetting (name : String) (value : Str) (env : Env) : Env :=
  if value.isEmpty then env else Dict.set env name.toList value

def setting (environ extra : Env) (name : String) (default : Str) : Str :=
  (nonEmpty (Dict.get? extra name.toList)).getD ((Dict.get? environ name.toList).getD default)

/-- `environ` is that of the backend. -/
def instancePodEnv (environ : Env) (instanceId proxyToken : Str) (extra : Env) : Env :=
  let apiUrl := setting environ extra "EYOT_API_URL"
    "http://eyot-backend.eyot.svc.cluster.local:4510".toList
  let apiToken := setting environ extra "EYOT_API_TOKEN" []
  let tunnelUrl := setting environ extra "EYOT_TUNNEL_URL" []
  let workspacePath := (nonEmpty (Dict.get? extra "EYOT_WORKSPACE_PATH".toList)).getD "/data".toList
  let env := Dict.update extra
    [("EYOT_PROXY_TOKEN".toList, proxyToken), ("EYOT_INSTANCE_ID".toList, instanceId),
      ("EYOT_POD_MODE".toList, "true".toList), ("EYOT_API_URL".toList, apiUrl),
      ("EYOT_WORKSPACE_PATH".toList, workspacePath)]
  withSetting "EYOT_API_TOKEN" apiToken (withSetting "EYOT_TUNNEL_URL" tunnelUrl env)

def instancePodEnvAsync (piEnv knowledgeEnv base : Env) : Env :=
  Dict.update (Dict.update piEnv knowledgeEnv) base

/-- What an instance is spawned with: the winners for the slugs that its entity has. -/
structure Spawn where
  has : List Str
  entries : List KnowledgeEntry
  declared : ∀ e ∈ entries, e.key ∈ has
  distinct : (entries.map KnowledgeEntry.key).Nodup

/-- The rest of what a pod is deployed with; `extra` are the variables of the request. -/
structure Pod where
  provider : Option (OrganizationProvider × Option Str × Option Str)
  override : List (Str × Json Str)
  agentConfig : Json Str
  environ : Env
  instanceId : Str
  proxyToken : Str
  extra : Env
  distinct : Dict.Distinct extra

namespace Pod

variable (lower : Str → Str) (pod : Pod) (spawn : Spawn)

def piEnv : Env :=
  match pod.provider with
  | none => []
  | some (provider, apiKey, model) => providerToPiEnv lower provider apiKey model

def config : List (Str × Json Str) :=
  runtimeConfig pod.override pod.agentConfig (buildSpawnKnowledgePayload spawn.has spawn.entries)

def base : Env := instancePodEnv pod.environ pod.instanceId pod.proxyToken pod.extra

def env : Env :=
  instancePodEnvAsync (pod.piEnv lower) (knowledgeEnvForInstance (pod.config spawn)) pod.base

/-- Every entry has a variable of its own, and the other variables are as without any. -/
structure Faithful : Prop where
  kept : ∀ e ∈ spawn.entries,
    Dict.get? (pod.env lower spawn) (knowledgeSlugToEnvKey e.key) = some e.body
  apart : ∀ e ∈ spawn.entries, ∀ e' ∈ spawn.entries,
    knowledgeSlugToEnvKey e.key = knowledgeSlugToEnvKey e'.key → e.key = e'.key
  spared : ∀ name value, Dict.get? (Dict.update (pod.piEnv lower) pod.base) name = some value →
    Dict.get? (pod.env lower spawn) name = some value

end Pod

/-! When two keys share a variable. -/

def knowledgeMark : Str := "KNOWLEDGE_".toList

/-- Both are letters or digits, and the same up to case, or neither is. -/
def AlikeChar (c d : Char) : Prop :=
  c.isAlphanum = true ∧ d.isAlphanum = true ∧ c.toUpper = d.toUpper ∨
    c.isAlphanum = false ∧ d.isAlphanum = false

def Alike (key key' : Str) : Prop := List.Forall₂ AlikeChar key key'

theorem isAlphanum_toUpper {c : Char} (h : c.isAlphanum = true) : c.toUpper ≠ '_' := by
  have hall : ∀ n : Fin 128, (Char.ofNat n).isAlphanum = true → (Char.ofNat n).toUpper ≠ '_' := by
    decide +kernel
  have hlt : c.toNat < 128 := by
    change ((decide (c.val ≥ 'A'.val ∧ c.val ≤ 'Z'.val) ||
      (decide (c.val ≥ 'a'.val) && decide (c.val ≤ 'z'.val))) ||
        (decide (c.val ≥ '0'.val) && decide (c.val ≤ '9'.val))) = true at h
    simp only [Bool.or_eq_true, Bool.and_eq_true, decide_eq_true_eq, ge_iff_le,
      UInt32.le_iff_toNat_le] at h
    have hnat : c.val.toNat = c.toNat := rfl
    have h9 : ('9').val.toNat = 57 := rfl
    have hz : ('z').val.toNat = 122 := rfl
    have hZ : ('Z').val.toNat = 90 := rfl
    omega
  have hc := hall ⟨c.toNat, hlt⟩
  rw [Char.ofNat_toNat] at hc
  exact hc h

theorem envChar_eq_iff {c d : Char} : envChar c = envChar d ↔ AlikeChar c d := by
  rw [envChar, envChar, AlikeChar]
  cases hc : c.isAlphanum with
  | true =>
    cases hd : d.isAlphanum with
    | true => simp
    | false => simp [isAlphanum_toUpper hc]
  | false =>
    cases hd : d.isAlphanum with
    | true => simp [(isAlphanum_toUpper hd).symm]
    | false => simp

theorem envKey_eq_iff {key key' : Str} :
    knowledgeSlugToEnvKey key = knowledgeSlugToEnvKey key' ↔ Alike key key' := by
  refine (List.append_right_inj knowledgeMark).trans ?_
  rw [Alike]
  induction key generalizing key' with
  | nil => cases key' <;> simp
  | cons c key ih =>
    cases key' with
    | nil => simp
    | cons d key' => rw [List.map_cons, List.map_cons, List.cons.injEq, ih, envChar_eq_iff,
        List.forall₂_cons]

/-! Which names there are. -/

/-- No name is that of a knowledge variable. -/
def Spares (env : Env) : Prop := ∀ name ∈ env.map Prod.fst, ¬knowledgeMark <+: name

theorem mark_envKey (slug : Str) : knowledgeMark <+: knowledgeSlugToEnvKey slug :=
  List.prefix_append _ _

theorem spares_set {env : Env} (h : Spares env) {name : Str} (hname : ¬knowledgeMark <+: name)
    (value : Str) : Spares (Dict.set env name value) := by
  intro k hk
  rw [Dict.keys_set] at hk
  split at hk
  · exact h k hk
  · rcases List.mem_append.mp hk with hk | hk
    · exact h k hk
    · rwa [List.mem_singleton.mp hk]

theorem get?_of_spares {env : Env} (h : Spares env) {name : Str} (hname : knowledgeMark <+: name) :
    Dict.get? env name = none :=
  Dict.get?_eq_none.mpr fun hmem => h name hmem hname

theorem spares_keyInName {raw name : Str} (h : keyInName raw = some name) :
    ¬knowledgeMark <+: name := by
  have hall : ∀ kv ∈ PROVIDER_ENV_KEYS, ¬knowledgeMark <+: kv.2 := by decide +kernel
  rw [keyInName, Option.or_eq_some_iff] at h
  obtain h | ⟨-, h⟩ := h
  · exact hall _ (Dict.mem_of_get? h)
  · obtain ⟨kv, hfind, rfl⟩ := Option.map_eq_some_iff.mp h
    exact hall kv (List.mem_of_find?_eq_some hfind)

theorem spares_piEnvKey (lower : Str → Str) (provider : OrganizationProvider) :
    ¬knowledgeMark <+: piEnvKeyForProvider lower provider := by
  rw [piEnvKeyForProvider]
  cases hkey : [lower (provider.catalogProviderId.getD []), lower provider.slug,
      lower provider.name].findSome? keyInName with
  | some name =>
    obtain ⟨raw, -, hraw⟩ := List.exists_of_findSome?_eq_some hkey
    exact spares_keyInName hraw
  | none =>
    rw [Option.getD_none]
    split
    · decide
    · split
      · decide
      · split <;> decide

theorem spares_withModel {out : Env} (h : Spares out) (provider : OrganizationProvider)
    (modelId : Str) : Spares (withModel provider modelId out) := by
  rw [withModel]
  split
  · exact h
  · exact spares_set h (by decide) _

theorem spares_providerToPiEnv (lower : Str → Str) (provider : OrganizationProvider)
    (apiKey model : Option Str) : Spares (providerToPiEnv lower provider apiKey model) := by
  cases apiKey with
  | none => exact nofun
  | some apiKey =>
    have hstart : Spares [(piEnvKeyForProvider lower provider, apiKey)] := by
      intro name hname
      rw [List.mem_singleton.mp hname]
      exact spares_piEnvKey lower provider
    have hboth : Spares (if piEnvKeyForProvider lower provider ≠ "OPENAI_API_KEY".toList ∧
        (provider.requestFormat = "completion".toList ∨ provider.requestFormat = "response".toList)
      then Dict.set [(piEnvKeyForProvider lower provider, apiKey)] "OPENAI_API_KEY".toList apiKey
      else [(piEnvKeyForProvider lower provider, apiKey)]) := by
      split
      · exact spares_set hstart (by decide) _
      · exact hstart
    rw [providerToPiEnv]
    refine spares_set (spares_withModel ?_ _ _) (by decide) _
    cases nonEmpty provider.baseUrl with
    | none => exact hboth
    | some url => exact spares_set (spares_set hboth (by decide) _) (by decide) _

theorem spares_piEnv (lower : Str → Str) (pod : Pod) : Spares (pod.piEnv lower) := by
  rw [Pod.piEnv]
  split
  · exact nofun
  · exact spares_providerToPiEnv lower _ _ _

theorem distinct_withSetting {env : Env} (h : Dict.Distinct env) (name : String) (value : Str) :
    Dict.Distinct (withSetting name value env) := by
  rw [withSetting]
  split
  · exact h
  · exact Dict.distinct_set h

theorem get?_withSetting {env : Env} {name : String} {key : Str} (h : name.toList ≠ key)
    (value : Str) : Dict.get? (withSetting name value env) key = Dict.get? env key := by
  rw [withSetting]
  split
  · rfl
  · rw [Dict.get?_set, if_neg h]

theorem distinct_base (pod : Pod) : Dict.Distinct pod.base :=
  distinct_withSetting (distinct_withSetting (Dict.distinct_update pod.distinct _) _ _) _ _

/-- Of the knowledge variables the base has those of the request. -/
theorem get?_base (pod : Pod) {key : Str} (h : knowledgeMark <+: key) :
    Dict.get? pod.base key = Dict.get? pod.extra key := by
  have hne : ∀ name : String, ¬knowledgeMark <+: name.toList → name.toList ≠ key := by
    rintro name hname rfl
    exact hname h
  rw [Pod.base, instancePodEnv, get?_withSetting (hne _ (by decide)),
    get?_withSetting (hne _ (by decide)), Dict.get?_update]
  refine Option.or_eq_right_of_none (Dict.get?_eq_none.mpr fun hmem => ?_)
  have hall : ∀ name ∈ ["EYOT_WORKSPACE_PATH".toList, "EYOT_API_URL".toList, "EYOT_POD_MODE".toList,
      "EYOT_INSTANCE_ID".toList, "EYOT_PROXY_TOKEN".toList], ¬knowledgeMark <+: name := by decide
  exact hall key hmem h

/-! What is spawned with is what is deployed with. -/

theorem foldl_set {has : List Str} {entries : List KnowledgeEntry}
    (hhas : ∀ e ∈ entries, e.key ∈ has) (env : Env)
    (h : (env.map Prod.fst ++ entries.map KnowledgeEntry.key).Nodup) :
    entries.foldl (fun env e => if has.contains e.key then Dict.set env e.key e.body else env) env =
      env ++ entries.map fun e => (e.key, e.body) := by
  induction entries generalizing env with
  | nil => exact (List.append_nil env).symm
  | cons e entries ih =>
    rw [List.forall_mem_cons] at hhas
    rw [List.map_cons, List.nodup_append] at h
    have hnew : e.key ∉ env.map Prod.fst := fun hmem =>
      h.2.2 e.key hmem e.key List.mem_cons_self rfl
    rw [List.foldl_cons, if_pos (List.contains_iff_mem.mpr hhas.1), Dict.set_of_not_mem hnew,
      ih hhas.2, List.append_assoc, List.map_cons]
    · rfl
    · rw [List.map_append, List.append_assoc, List.nodup_append]
      exact h

theorem spawnEnv_perm (spawn : Spawn) :
    (spawnEnv spawn.has spawn.entries).Perm (spawn.entries.map fun e => (e.key, e.body)) := by
  rw [spawnEnv, foldl_set spawn.declared [] spawn.distinct]
  exact sortBy_perm _ _

def knowledgeItems (spawn : Spawn) : Env :=
  (spawnEnv spawn.has spawn.entries).map fun kv => (knowledgeSlugToEnvKey kv.1, kv.2)

theorem mem_knowledgeItems {spawn : Spawn} {item : Str × Str} : item ∈ knowledgeItems spawn ↔
    ∃ e ∈ spawn.entries, (knowledgeSlugToEnvKey e.key, e.body) = item := by
  rw [knowledgeItems, ((spawnEnv_perm spawn).map _).mem_iff, List.map_map, List.mem_map]
  rfl

theorem knowledgeEnv_config {pod : Pod} {spawn : Spawn} (h : spawn.entries ≠ []) :
    knowledgeEnvForInstance (pod.config spawn) = Dict.update [] (knowledgeItems spawn) := by
  have hentries : (spawnEnv spawn.has spawn.entries).isEmpty = false := by
    rw [List.isEmpty_eq_false_iff]
    intro hnil
    have hperm := spawnEnv_perm spawn
    rw [hnil, List.nil_perm, List.map_eq_nil_iff] at hperm
    exact h hperm
  have hhas : spawn.has.isEmpty = false := by
    rw [List.isEmpty_eq_false_iff]
    intro hnil
    obtain ⟨e, entries, heq⟩ := List.exists_cons_of_ne_nil h
    have hkey := spawn.declared e (heq ▸ List.mem_cons_self)
    rw [hnil] at hkey
    cases hkey
  rw [Pod.config, buildSpawnKnowledgePayload, hhas, hentries]
  simp only [Bool.or_self, Bool.false_eq_true, if_false, runtimeConfig, knowledgeEnvForInstance,
    Dict.get?_set, if_true, Dict.get?_cons, List.filterMap_map]
  rw [knowledgeItems, ← List.filterMap_eq_map]
  rfl

theorem marked_knowledgeEnv {config : List (Str × Json Str)} {name : Str}
    (h : name ∈ (knowledgeEnvForInstance config).map Prod.fst) : knowledgeMark <+: name := by
  rw [knowledgeEnvForInstance] at h
  split at h
  · split at h
    · obtain h | h := Dict.mem_keys_update h
      · cases h
      · obtain ⟨item, hitem, rfl⟩ := List.mem_map.mp h
        obtain ⟨kv, -, hkv⟩ := List.mem_filterMap.mp hitem
        obtain ⟨value, -, rfl⟩ := Option.map_eq_some_iff.mp hkv
        exact mark_envKey kv.1
    · cases h
  · cases h

theorem distinct_knowledgeEnv (config : List (Str × Json Str)) :
    Dict.Distinct (knowledgeEnvForInstance config) := by
  rw [knowledgeEnvForInstance]
  split
  · split
    · exact Dict.distinct_update Dict.distinct_nil _
    · exact Dict.distinct_nil
  · exact Dict.distinct_nil

theorem get?_env (lower : Str → Str) (pod : Pod) (spawn : Spawn) (name : Str) :
    Dict.get? (pod.env lower spawn) name = (Dict.get? pod.base name).or
      ((Dict.get? (knowledgeEnvForInstance (pod.config spawn)) name).or
        (Dict.get? (pod.piEnv lower) name)) := by
  rw [Pod.env, instancePodEnvAsync, Dict.get?_merge _ (distinct_base pod),
    Dict.get?_merge _ (distinct_knowledgeEnv _)]

theorem spared (lower : Str → Str) (pod : Pod) (spawn : Spawn) {name value : Str}
    (h : Dict.get? (Dict.update (pod.piEnv lower) pod.base) name = some value) :
    Dict.get? (pod.env lower spawn) name = some value := by
  rw [Dict.get?_merge _ (distinct_base pod)] at h
  rw [get?_env]
  cases hbase : Dict.get? pod.base name with
  | some v =>
    rw [hbase, Option.some_or] at h
    exact h
  | none =>
    rw [hbase, Option.none_or] at h
    have hname : ¬knowledgeMark <+: name := fun hmark => by
      rw [get?_of_spares (spares_piEnv lower pod) hmark] at h
      cases h
    have hknowledge : Dict.get? (knowledgeEnvForInstance (pod.config spawn)) name = none :=
      Dict.get?_eq_none.mpr fun hmem => hname (marked_knowledgeEnv hmem)
    rw [hknowledge, Option.none_or, Option.none_or]
    exact h

/-- No knowledge is lost exactly when no two keys are alike and the request sets none of their
variables to anything else. -/
theorem faithful_iff (lower : Str → Str) (pod : Pod) (spawn : Spawn) :
    pod.Faithful lower spawn ↔
      (∀ e ∈ spawn.entries, ∀ e' ∈ spawn.entries, Alike e.key e'.key → e.key = e'.key) ∧
        ∀ e ∈ spawn.entries, ∀ value,
          Dict.get? pod.extra (knowledgeSlugToEnvKey e.key) = some value → value = e.body := by
  constructor
  · intro h
    refine ⟨fun e he e' he' halike => h.apart e he e' he' (envKey_eq_iff.mpr halike), ?_⟩
    intro e he value hvalue
    have hkept := h.kept e he
    rw [get?_env, get?_base pod (mark_envKey e.key), hvalue, Option.some_or] at hkept
    exact Option.some.inj hkept
  · rintro ⟨hapart, hextra⟩
    have hapart' : ∀ e ∈ spawn.entries, ∀ e' ∈ spawn.entries,
        knowledgeSlugToEnvKey e.key = knowledgeSlugToEnvKey e'.key → e.key = e'.key :=
      fun e he e' he' heq => hapart e he e' he' (envKey_eq_iff.mp heq)
    refine ⟨fun e he => ?_, hapart', fun _ _ => spared lower pod spawn⟩
    rw [get?_env, get?_base pod (mark_envKey e.key)]
    cases hvalue : Dict.get? pod.extra (knowledgeSlugToEnvKey e.key) with
    | some value => rw [Option.some_or, hextra e he value hvalue]
    | none =>
      have hitems : Dict.Distinct (knowledgeItems spawn) := by
        have hperm := ((spawnEnv_perm spawn).map fun kv => (knowledgeSlugToEnvKey kv.1, kv.2)).map
          Prod.fst
        have hkeys : ((spawn.entries.map KnowledgeEntry.key).map knowledgeSlugToEnvKey).Nodup := by
          refine spawn.distinct.map_on fun k hk k' hk' heq => ?_
          obtain ⟨e, he, rfl⟩ := List.mem_map.mp hk
          obtain ⟨e', he', rfl⟩ := List.mem_map.mp hk'
          exact hapart' e he e' he' heq
        rw [Dict.Distinct, knowledgeItems, hperm.nodup_iff, List.map_map, List.map_map]
        rw [List.map_map] at hkeys
        exact hkeys
      rw [knowledgeEnv_config (List.ne_nil_of_mem he), Dict.get?_merge _ hitems,
        Dict.get?_of_mem hitems (mem_knowledgeItems.mpr ⟨e, he, rfl⟩)]
      rfl

/-- Two keys of one entity that differ in a separator. -/
def runbooks : Spawn where
  has := ["docs-runbook".toList, "docs.runbook".toList]
  entries :=
    [⟨"a", "docs-runbook".toList, [], "call".toList, none, .system, none, none, none, none, none, 0,
        none⟩,
      ⟨"b", "docs.runbook".toList, [], "write".toList, none, .system, none, none, none, none, none, 0,
        none⟩]
  declared := by decide
  distinct := by decide

def plainPod : Pod where
  provider := none
  override := []
  agentConfig := .null
  environ := []
  instanceId := "i".toList
  proxyToken := "t".toList
  extra := []
  distinct := Dict.distinct_nil

theorem runbooks_not_faithful : ¬plainPod.Faithful id runbooks := by
  intro h
  have hapart := h.apart (runbooks.entries.get ⟨0, by decide⟩) (List.get_mem _ _)
    (runbooks.entries.get ⟨1, by decide⟩) (List.get_mem _ _) (by decide)
  exact absurd hapart (by decide)

end Eyot.Knowledge
