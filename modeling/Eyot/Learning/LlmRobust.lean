import Eyot.Learning.LlmDistill
import Eyot.Library.FailingFold

/-! What replies of the language model the distillation survives. -/

namespace Eyot.Learning.Llm

open FailingFold (bind_eq_ok)
open PyStr (ofStr)

/-! What the rows of the market take. -/

section Rows

variable {ν : Type} {number : PyStr → ν} {isFinite : ν → Bool}

theorem textColumn_eq_ok {v : PyValue} {s : Str} :
    textColumn v = .ok s ↔ ∃ t, v = .str t ∧ t.isStorable = true ∧ t.toStr = s := by
  cases v with
  | str t =>
    rw [textColumn]
    split
    · rename_i h
      simp [h]
    · rename_i h
      simp [h]
  | null | bool b | num t | arr vs | obj kvs => simp [textColumn]

theorem newRow_name {origin : Origin} {c : LlmCandidate} {cap : ConfiguredEntry}
    (h : newRow number isFinite origin c = .ok cap) :
    textColumn c.name = .ok cap.name ∧ cap.isLive = true := by
  unfold newRow at h
  rw [bind_eq_ok] at h
  obtain ⟨name, hname, h⟩ := h
  rw [bind_eq_ok] at h
  obtain ⟨description, -, h⟩ := h
  rw [guard_eq_ok, guard_eq_ok] at h
  obtain ⟨-, -, h⟩ := h
  obtain rfl := Except.ok.inj h
  exact ⟨hname, rfl⟩

theorem newRow_isOk {origin : Origin} {c : LlmCandidate} :
    (∃ cap, newRow number isFinite origin c = .ok cap) ↔
      (∃ t, c.name = .str t ∧ t.isStorable = true ∧ t.toStr.length ≤ NAME_LENGTH) ∧
      (∀ v, c.description = some v → ∃ t, v = .str t ∧ t.isStorable = true) ∧
      ∀ v, c.configTemplate = some v → jsonbTakes number isFinite v = true := by
  have htemplate : (¬ (c.configTemplate.any fun v => !jsonbTakes number isFinite v) = true) ↔
      ∀ v, c.configTemplate = some v → jsonbTakes number isFinite v = true := by
    cases c.configTemplate with
    | none => simp
    | some v => simp
  unfold newRow
  simp only [bind_eq_ok, guard_eq_ok, textColumn_eq_ok, htemplate]
  constructor
  · rintro ⟨cap, name, ⟨t, ht, hstorable, rfl⟩, description, hdescription, hlen, htemplate, -⟩
    refine ⟨⟨t, ht, hstorable, Nat.le_of_not_lt hlen⟩, fun v hv => ?_, htemplate⟩
    rw [hv] at hdescription
    obtain ⟨s, hs, -⟩ := FailingFold.map_eq_ok.mp hdescription
    obtain ⟨u, hu, hstorable, -⟩ := textColumn_eq_ok.mp hs
    exact ⟨u, hu, hstorable⟩
  · rintro ⟨⟨t, ht, hstorable, hlen⟩, hdescription, htemplate⟩
    cases hd : c.description with
    | none => exact ⟨_, t.toStr, ⟨t, ht, hstorable, rfl⟩, none, rfl, Nat.not_lt.mpr hlen,
        htemplate, rfl⟩
    | some v =>
      obtain ⟨u, rfl, hu⟩ := hdescription v hd
      refine ⟨_, t.toStr, ⟨t, ht, hstorable, rfl⟩, some u.toStr, ?_, Nat.not_lt.mpr hlen,
        htemplate, rfl⟩
      exact FailingFold.map_eq_ok.mpr ⟨u.toStr, textColumn_eq_ok.mpr ⟨u, rfl, hu, rfl⟩, rfl⟩

theorem upsert_total {origin : Origin} {c : LlmCandidate}
    (h : ∃ cap, newRow number isFinite origin c = .ok cap) (market : CapabilityMarket) :
    ∃ r, upsert number isFinite origin market c = .ok r := by
  obtain ⟨cap, hcap⟩ := h
  unfold upsert
  rw [(newRow_name hcap).1, hcap]
  dsimp only [bind, Except.bind]
  split
  · exact ⟨_, rfl⟩
  · exact ⟨_, rfl⟩

theorem upsertAll_total {origin : Origin} {cs : List LlmCandidate}
    (h : ∀ c ∈ cs, ∃ cap, newRow number isFinite origin c = .ok cap) (market : CapabilityMarket) :
    ∃ r, upsertAll number isFinite origin market cs = .ok r := by
  induction cs generalizing market with
  | nil => exact ⟨_, rfl⟩
  | cons c cs ih =>
    rw [List.forall_mem_cons] at h
    obtain ⟨⟨cap, market'⟩, hcap⟩ := upsert_total h.1 market
    obtain ⟨⟨caps, market''⟩, hcaps⟩ := ih h.2 market'
    refine ⟨(cap :: caps, market''), ?_⟩
    rw [upsertAll, hcap]
    dsimp only [bind, Except.bind]
    rw [hcaps]
    rfl

/-- Where the name is new, the row is made and put behind the others. -/
theorem newRow_of_upsert {origin : Origin} {c : LlmCandidate} {market market' : CapabilityMarket}
    {cap : ConfiguredEntry} (h : upsert number isFinite origin market c = .ok (cap, market'))
    (hfresh : ∀ e ∈ market.rows, e.isLive = true → textColumn c.name ≠ .ok e.name) :
    newRow number isFinite origin c = .ok cap ∧ market'.rows = market.rows ++ [cap] := by
  unfold upsert at h
  rw [bind_eq_ok] at h
  obtain ⟨name, hname, h⟩ := h
  have hnone : firstUnder ConfiguredEntry.isLive (fun e => e.name) market.rows name = none := by
    cases hfound : firstUnder ConfiguredEntry.isLive (fun e => e.name) market.rows name with
    | none => rfl
    | some e =>
      obtain ⟨he, hlive, rfl⟩ := firstUnder_eq_some hfound
      exact absurd hname (hfresh e he hlive)
  rw [hnone] at h
  obtain ⟨row, hrow, h⟩ := bind_eq_ok.mp h
  have hkey : row.name = name := by
    have hboth := (newRow_name hrow).1
    rw [hname] at hboth
    exact (Except.ok.inj hboth).symm
  have hadd : getOrAdd ConfiguredEntry.isLive (fun e => e.name) market.rows row =
      (row, market.rows ++ [row]) := by
    rw [getOrAdd, hkey, hnone]
  obtain ⟨hcap, hmarket⟩ := Prod.mk.inj (Except.ok.inj h)
  obtain rfl : row = cap := (congrArg Prod.fst hadd).symm.trans hcap
  exact ⟨hrow, (congrArg CapabilityMarket.rows hmarket).symm.trans (congrArg Prod.snd hadd)⟩

/-- In a market that has none of the names, a row is made for each. -/
theorem newRow_of_upsertAll {origin : Origin} {cs : List LlmCandidate} {market : CapabilityMarket}
    {r : List ConfiguredEntry × CapabilityMarket}
    (h : upsertAll number isFinite origin market cs = .ok r)
    (hfresh : ∀ c ∈ cs, ∀ e ∈ market.rows, e.isLive = true → textColumn c.name ≠ .ok e.name)
    (hdistinct : cs.Pairwise fun c d => textColumn d.name ≠ textColumn c.name) :
    ∀ c ∈ cs, ∃ cap, newRow number isFinite origin c = .ok cap := by
  induction cs generalizing market r with
  | nil => exact List.forall_mem_nil _
  | cons c cs ih =>
    rw [List.forall_mem_cons] at hfresh
    rw [List.pairwise_cons] at hdistinct
    rw [upsertAll, bind_eq_ok] at h
    obtain ⟨⟨cap, market'⟩, hcap, h⟩ := h
    obtain ⟨⟨caps, market''⟩, hcaps, -⟩ := bind_eq_ok.mp h
    obtain ⟨hrow, hrows⟩ := newRow_of_upsert hcap hfresh.1
    refine List.forall_mem_cons.mpr ⟨⟨cap, hrow⟩, ih hcaps ?_ hdistinct.2⟩
    intro d hd e he hlive
    rw [hrows, List.mem_append, List.mem_singleton] at he
    rcases he with he | rfl
    · exact hfresh.2 d hd e he hlive
    · rw [← (newRow_name hrow).1]
      exact hdistinct.1 d hd

theorem mapM_total {α β ε : Type} {f : α → Except ε β} {l : List α}
    (h : ∀ a ∈ l, ∃ b, f a = .ok b) : ∃ bs, l.mapM f = .ok bs := by
  induction l with
  | nil => exact ⟨[], rfl⟩
  | cons a l ih =>
    rw [List.forall_mem_cons] at h
    obtain ⟨b, hb⟩ := h.1
    obtain ⟨bs, hbs⟩ := ih h.2
    refine ⟨b :: bs, ?_⟩
    rw [List.mapM_cons, hb]
    dsimp only [bind, Except.bind]
    rw [hbs]
    rfl

theorem persist_total {origin : Origin} {market : CapabilityMarket} {result : LlmResult}
    (h : ∀ c ∈ result.capabilityCandidates, ∃ cap, newRow number isFinite origin c = .ok cap)
    (hgene : result.geneSuggestion = .null ∨
      ∃ t, result.geneSuggestion = .str t ∧ t.isStorable = true) :
    ∃ out, persist number isFinite origin market result = .ok out := by
  obtain ⟨names, hnames⟩ := mapM_total (f := fun c => textColumn c.name)
    fun c hc => let ⟨_, hcap⟩ := h c hc; ⟨_, (newRow_name hcap).1⟩
  obtain ⟨⟨caps, market'⟩, hcaps⟩ := upsertAll_total h market
  unfold persist
  rw [hnames]
  dsimp only [bind, Except.bind]
  rw [hcaps]
  rcases hgene with hgene | ⟨t, hgene, hstorable⟩
  · rw [hgene]
    exact ⟨_, rfl⟩
  · rw [hgene, jsonbTakes, hstorable]
    exact ⟨_, rfl⟩

theorem of_persist {origin : Origin} {market : CapabilityMarket} {result : LlmResult}
    {out : LlmDistillOut × CapabilityMarket}
    (h : persist number isFinite origin market result = .ok out) :
    (∃ r, upsertAll number isFinite origin market result.capabilityCandidates = .ok r) ∧
      (result.geneSuggestion = .null ∨ ∃ t, result.geneSuggestion = .str t) := by
  unfold persist at h
  obtain ⟨names, -, h⟩ := bind_eq_ok.mp h
  obtain ⟨r, hr, h⟩ := bind_eq_ok.mp h
  refine ⟨⟨r, hr⟩, ?_⟩
  dsimp only at h
  rw [guard_eq_ok] at h
  obtain ⟨gene, hgene, -⟩ := bind_eq_ok.mp h.2
  cases hv : result.geneSuggestion with
  | null => exact .inl rfl
  | str t => exact .inr ⟨t, rfl⟩
  | bool b | num t | arr vs | obj kvs =>
    rw [hv] at hgene
    cases hgene

theorem eq_of_nameKey {w : PyValue} {t : PyStr} (h : nameKey number w = .inl t) (ht : t ≠ []) :
    w = .str t := by
  cases w with
  | str s => rw [Sum.inl.inj h]
  | num s => cases h
  | bool b => cases b <;> cases h
  | null | arr vs | obj kvs => exact absurd (Sum.inl.inj h).symm ht

end Rows

variable {ν : Type} [DecidableEq ν] {number : PyStr → ν} {isFinite : ν → Bool}

/-! The lists of a manifest. -/

def items : PyValue → List PyValue
  | .arr vs => vs.take 10
  | _ => []

theorem firstTen_of_list {v : PyValue} (h : truthy number v = true → ∃ vs, v = .arr vs) :
    firstTen number v = .ok (items v) := by
  unfold firstTen orElse
  by_cases hv : truthy number v = true
  · obtain ⟨vs, rfl⟩ := h hv
    rw [if_pos hv]
    rfl
  · rw [if_neg hv]
    cases v with
    | arr vs =>
      rw [truthy, Bool.not_eq_true', Bool.not_eq_false, List.isEmpty_iff] at hv
      subst hv
      rfl
    | null | bool b | num t | str s | obj kvs => rfl

variable (number) in
/-- Nothing, or a list; those of its first ten that count are texts with `Q`. -/
structure Lists (Q : Str → Prop) (v : PyValue) : Prop where
  isList : truthy number v = true → ∃ vs, v = .arr vs
  names : ∀ w ∈ items v, truthy number w = true → ∃ s, w = .str (ofStr s) ∧ Q s

/-- Of a text, the first character would be a name. -/
theorem lists_of_firstTen {Q : Str → Prop} (hQ : ∀ s, Q s → s.length ≠ 1) {v : PyValue}
    {vs : List PyValue} (h : firstTen number v = .ok vs)
    (hvs : ∀ w ∈ vs, truthy number w = true → ∃ s, w = .str (ofStr s) ∧ Q s) :
    Lists number Q v ∧ vs = items v := by
  have hlist : truthy number v = true → ∃ vs, v = .arr vs := by
    intro hv
    unfold firstTen orElse at h
    rw [if_pos hv] at h
    cases v with
    | arr vs => exact ⟨vs, rfl⟩
    | str s =>
      obtain rfl := Except.ok.inj h
      cases s with
      | nil => cases hv
      | cons c s =>
        obtain ⟨t, ht, hq⟩ := hvs (.str [c]) List.mem_cons_self rfl
        have hlen := congrArg List.length (Json.str.inj ht)
        rw [PyStr.length_ofStr] at hlen
        exact absurd hlen.symm (hQ t hq)
    | obj kvs => cases h
    | null => cases h
    | bool b => cases h
    | num t => cases h
  rw [firstTen_of_list hlist] at h
  obtain rfl := Except.ok.inj h
  exact ⟨⟨hlist, hvs⟩, rfl⟩

/-! The candidates of one list. -/

section Candidates

variable {make : PyValue → LlmCandidate} {candidates candidates' : List LlmCandidate}
  {names : List PyValue}

theorem addCandidates_total (make : PyValue → LlmCandidate) (candidates : List LlmCandidate)
    (h : ∀ w ∈ names, truthy number w = true → isHashable w = true) :
    ∃ candidates', addCandidates number make candidates names = .ok candidates' := by
  induction names generalizing candidates with
  | nil => exact ⟨candidates, rfl⟩
  | cons w names ih =>
    rw [List.forall_mem_cons] at h
    rw [addCandidates]
    split
    · rename_i hw
      rw [if_pos (h.1 hw)]
      split
      · exact ih _ h.2
      · exact ih _ h.2
    · exact ih _ h.2

/-- What a list adds: each of its names that counts has a candidate, the names of the new ones
are among them, and no two candidates share a name. -/
theorem addCandidates_spec (hmake : ∀ w, (make w).name = w)
    (h : addCandidates number make candidates names = .ok candidates') :
    ∃ new : List PyValue, candidates' = candidates ++ new.map make ∧
      (∀ w ∈ new, w ∈ names ∧ truthy number w = true ∧
        ∀ c ∈ candidates, nameKey number c.name ≠ nameKey number w) ∧
      (∀ w ∈ names, truthy number w = true →
        ∃ v ∈ candidates.map LlmCandidate.name ++ new, nameKey number v = nameKey number w) ∧
      (new.map (nameKey number)).Nodup := by
  induction names generalizing candidates with
  | nil =>
    obtain rfl := Except.ok.inj h
    exact ⟨[], (List.append_nil _).symm, by simp, by simp, List.nodup_nil⟩
  | cons w names ih =>
    rw [addCandidates] at h
    split at h
    · rename_i hw
      split at h
      · split at h
        · -- The name is there already.
          rename_i hseen
          obtain ⟨new, rfl, hnew, hcover, hnodup⟩ := ih h
          refine ⟨new, rfl, fun v hv => ?_, fun v hv hv' => ?_, hnodup⟩
          · exact ⟨List.mem_cons_of_mem w (hnew v hv).1, (hnew v hv).2⟩
          · rcases List.mem_cons.mp hv with rfl | hv
            · obtain ⟨c, hc, hkey⟩ := List.any_eq_true.mp hseen
              exact ⟨c.name, List.mem_append_left _ (List.mem_map_of_mem hc),
                of_decide_eq_true hkey⟩
            · exact hcover v hv hv'
        · rename_i hfresh
          rw [List.any_eq_true] at hfresh
          obtain ⟨new, rfl, hnew, hcover, hnodup⟩ := ih h
          refine ⟨w :: new, by simp, fun v hv => ?_, fun v hv hv' => ?_, ?_⟩
          · rcases List.mem_cons.mp hv with rfl | hv
            · exact ⟨List.mem_cons_self, hw, fun c hc heq => hfresh ⟨c, hc, decide_eq_true heq⟩⟩
            · obtain ⟨hmem, htruthy, hkeys⟩ := hnew v hv
              exact ⟨List.mem_cons_of_mem w hmem, htruthy,
                fun c hc => hkeys c (List.mem_append_left _ hc)⟩
          · rcases List.mem_cons.mp hv with rfl | hv
            · exact ⟨v, List.mem_append_right _ List.mem_cons_self, rfl⟩
            · obtain ⟨u, hu, hkey⟩ := hcover v hv hv'
              rw [List.map_append, List.map_singleton, hmake, List.append_assoc] at hu
              exact ⟨u, hu, hkey⟩
          · rw [List.map_cons, List.nodup_cons]
            refine ⟨fun hmem => ?_, hnodup⟩
            obtain ⟨v, hv, hkey⟩ := List.mem_map.mp hmem
            refine (hnew v hv).2.2 (make w) (List.mem_append_right _ List.mem_cons_self) ?_
            rw [hmake, hkey]
      · cases h
    · rename_i hw
      obtain ⟨new, rfl, hnew, hcover, hnodup⟩ := ih h
      refine ⟨new, rfl, fun v hv => ?_, fun v hv hv' => ?_, hnodup⟩
      · exact ⟨List.mem_cons_of_mem w (hnew v hv).1, (hnew v hv).2⟩
      · rcases List.mem_cons.mp hv with rfl | hv
        · exact absurd hv' hw
        · exact hcover v hv hv'

end Candidates

/-! The candidates of a manifest. -/

theorem map_name_make {make : PyValue → LlmCandidate} (hmake : ∀ w, (make w).name = w)
    (l : List PyValue) : (l.map make).map LlmCandidate.name = l := by
  rw [List.map_map]
  exact (List.map_congr_left fun w _ => hmake w).trans (List.map_id l)

variable (number) in
/-- The prompt that skills carry. -/
def promptOf (kvs : List (PyStr × PyValue)) : PyValue :=
  orElse number (member kvs "prompt") (.str [])

variable (number) in
/-- What the three lists were read as, and the names of them that have become candidates. -/
structure Walk (kvs : List (PyStr × PyValue)) (cs : List LlmCandidate) where
  commands : List PyValue
  skills : List PyValue
  tools : List PyValue
  readCommands : firstTen number (member kvs "commands") = .ok commands
  readSkills : firstTen number (member kvs "skills") = .ok skills
  readTools : firstTen number (member kvs "tools") = .ok tools
  newCommands : List PyValue
  newSkills : List PyValue
  newTools : List PyValue
  eq : cs = newCommands.map commandCandidate ++
    newSkills.map (skillCandidate number (promptOf number kvs)) ++ newTools.map toolCandidate
  ofCommands : ∀ w ∈ newCommands, w ∈ commands ∧ truthy number w = true
  ofSkills : ∀ w ∈ newSkills, w ∈ skills ∧ truthy number w = true ∧
    ∀ v ∈ newCommands, nameKey number v ≠ nameKey number w
  ofTools : ∀ w ∈ newTools, w ∈ tools ∧ truthy number w = true
  coverCommands : ∀ w ∈ commands, truthy number w = true →
    ∃ v ∈ newCommands, nameKey number v = nameKey number w
  coverSkills : ∀ w ∈ skills, truthy number w = true →
    ∃ v ∈ newCommands ++ newSkills, nameKey number v = nameKey number w
  coverTools : ∀ w ∈ tools, truthy number w = true →
    ∃ v ∈ newCommands ++ newSkills ++ newTools, nameKey number v = nameKey number w
  nodup : ((newCommands ++ newSkills ++ newTools).map (nameKey number)).Nodup

theorem Walk.names {kvs : List (PyStr × PyValue)} {cs : List LlmCandidate}
    (W : Walk number kvs cs) :
    cs.map LlmCandidate.name = W.newCommands ++ W.newSkills ++ W.newTools := by
  refine (congrArg (List.map LlmCandidate.name) W.eq).trans ?_
  rw [List.map_append, List.map_append, map_name_make fun _ => rfl, map_name_make fun _ => rfl,
    map_name_make fun _ => rfl]

theorem exists_walk {kvs : List (PyStr × PyValue)} {cs : List LlmCandidate}
    (h : manifestToCandidates number (.obj kvs) = .ok cs) : Nonempty (Walk number kvs cs) := by
  unfold manifestToCandidates at h
  simp only [pyGet, bind_eq_ok, Except.ok.injEq, exists_eq_left'] at h
  obtain ⟨commands, hcommands, cs₁, h₁, skills, hskills, cs₂, h₂, tools, htools, h₃⟩ := h
  obtain ⟨nc, rfl, hnc, hcoverc, hnodupc⟩ := addCandidates_spec (fun _ => rfl) h₁
  obtain ⟨ns, rfl, hns, hcovers, hnodups⟩ := addCandidates_spec (fun _ => rfl) h₂
  obtain ⟨nt, rfl, hnt, hcovert, hnodupt⟩ := addCandidates_spec (fun _ => rfl) h₃
  have hc : ([] ++ nc.map commandCandidate).map LlmCandidate.name = nc :=
    map_name_make (fun _ => rfl) nc
  have hs : ([] ++ nc.map commandCandidate ++ ns.map (skillCandidate number
      (orElse number (member kvs "prompt") (.str [])))).map LlmCandidate.name = nc ++ ns := by
    rw [List.map_append, hc, map_name_make fun _ => rfl]
  have hfresh : ∀ (candidates : List LlmCandidate) (names : List PyValue) (w : PyValue),
      candidates.map LlmCandidate.name = names →
      (∀ c ∈ candidates, nameKey number c.name ≠ nameKey number w) →
      ∀ v ∈ names, nameKey number v ≠ nameKey number w := by
    rintro candidates names w rfl h v hv
    obtain ⟨c, hc, rfl⟩ := List.mem_map.mp hv
    exact h c hc
  refine ⟨⟨commands, skills, tools, hcommands, hskills, htools, nc, ns, nt, rfl, ?_, ?_, ?_, ?_,
    ?_, ?_, ?_⟩⟩
  · exact fun w hw => ⟨(hnc w hw).1, (hnc w hw).2.1⟩
  · exact fun w hw => ⟨(hns w hw).1, (hns w hw).2.1, hfresh _ _ w hc (hns w hw).2.2⟩
  · exact fun w hw => ⟨(hnt w hw).1, (hnt w hw).2.1⟩
  · exact hcoverc
  · rwa [hc] at hcovers
  · rwa [hs] at hcovert
  · rw [List.map_append, List.map_append]
    refine (hnodupc.append hnodups ?_).append hnodupt ?_
    · intro k hk hk'
      obtain ⟨v, hv, rfl⟩ := List.mem_map.mp hk
      obtain ⟨w, hw, hkey⟩ := List.mem_map.mp hk'
      exact hfresh _ _ w hc (hns w hw).2.2 v hv hkey.symm
    · rw [← List.map_append]
      intro k hk hk'
      obtain ⟨v, hv, rfl⟩ := List.mem_map.mp hk
      obtain ⟨w, hw, hkey⟩ := List.mem_map.mp hk'
      exact hfresh _ _ w hs (hnt w hw).2.2 v hv hkey.symm

variable (number) in
/-- The names have `Q`, the prompt is a text where a skill carries it, and the first skill can be
suggested as a gene. -/
structure ManifestFits (Q : Str → Prop) (kvs : List (PyStr × PyValue)) : Prop where
  commands : Lists number Q (member kvs "commands")
  skills : Lists number Q (member kvs "skills")
  tools : Lists number Q (member kvs "tools")
  prompt : (∃ w ∈ items (member kvs "skills"), truthy number w = true ∧
      w ∉ items (member kvs "commands")) → truthy number (member kvs "prompt") = true →
    ∃ t, member kvs "prompt" = .str t ∧ t.isStorable = true
  gene : ∀ v vs, member kvs "skills" = .arr (v :: vs) → truthy number v = false →
    v = .null ∨ v = .str []

/-- What fits the column of a name. -/
def Column (s : Str) : Prop := (∀ c ∈ s, c.toNat ≠ 0) ∧ s.length ≤ NAME_LENGTH

theorem isStorable_of_ne_nul {s : Str} (h : ∀ c ∈ s, c.toNat ≠ 0) :
    (ofStr s).isStorable = true := by
  rw [PyStr.isStorable_ofStr, List.all_eq_true]
  exact fun c hc => decide_eq_true (h c hc)

theorem textColumn_ofStr {s : Str} (h : ∀ c ∈ s, c.toNat ≠ 0) :
    textColumn (.str (ofStr s)) = .ok s :=
  textColumn_eq_ok.mpr ⟨_, rfl, isStorable_of_ne_nul h, PyStr.toStr_ofStr s⟩

section Fits

variable {Q : Str → Prop} {kvs : List (PyStr × PyValue)} {cs : List LlmCandidate}

theorem isHashable_of_lists {v : PyValue} (h : Lists number Q v) :
    ∀ w ∈ items v, truthy number w = true → isHashable w = true := by
  intro w hw htruthy
  obtain ⟨s, rfl, -⟩ := h.names w hw htruthy
  rfl

theorem manifestToCandidates_total (h : ManifestFits number Q kvs) :
    ∃ cs, manifestToCandidates number (.obj kvs) = .ok cs := by
  obtain ⟨cs₁, h₁⟩ := addCandidates_total commandCandidate [] (isHashable_of_lists h.commands)
  obtain ⟨cs₂, h₂⟩ := addCandidates_total (skillCandidate number (promptOf number kvs)) cs₁
    (isHashable_of_lists h.skills)
  obtain ⟨cs₃, h₃⟩ := addCandidates_total toolCandidate cs₂ (isHashable_of_lists h.tools)
  refine ⟨cs₃, ?_⟩
  unfold manifestToCandidates
  simp only [pyGet, bind_eq_ok, Except.ok.injEq, exists_eq_left']
  exact ⟨_, firstTen_of_list h.commands.isList, _, h₁, _, firstTen_of_list h.skills.isList, _, h₂,
    _, firstTen_of_list h.tools.isList, h₃⟩

theorem Walk.name_of_fits (W : Walk number kvs cs) (h : ManifestFits number Q kvs)
    {c : LlmCandidate} (hc : c ∈ cs) : ∃ s, c.name = .str (ofStr s) ∧ Q s := by
  have hread : ∀ {v : PyValue} {vs : List PyValue}, Lists number Q v → firstTen number v = .ok vs →
      ∀ w ∈ vs, truthy number w = true → ∃ s, w = .str (ofStr s) ∧ Q s := by
    intro v vs hv hvs
    rw [firstTen_of_list hv.isList] at hvs
    obtain rfl := Except.ok.inj hvs
    exact hv.names
  have hname : c.name ∈ W.newCommands ++ W.newSkills ++ W.newTools :=
    W.names ▸ List.mem_map_of_mem hc
  rw [List.mem_append, List.mem_append] at hname
  rcases hname with (hw | hw) | hw
  · exact hread h.commands W.readCommands _ (W.ofCommands _ hw).1 (W.ofCommands _ hw).2
  · exact hread h.skills W.readSkills _ (W.ofSkills _ hw).1 (W.ofSkills _ hw).2.1
  · exact hread h.tools W.readTools _ (W.ofTools _ hw).1 (W.ofTools _ hw).2

theorem promptOf_of_truthy (h : truthy number (member kvs "prompt") = true) :
    promptOf number kvs = member kvs "prompt" := if_pos h

theorem truthy_promptOf : truthy number (promptOf number kvs) = truthy number (member kvs "prompt") := by
  unfold promptOf orElse
  split
  · rfl
  · rename_i h
    exact (Bool.eq_false_of_not_eq_true h).symm

/-- A row can be made for every candidate of a manifest that fits. -/
theorem Walk.newRow_isOk (W : Walk number kvs cs) (h : ManifestFits number Q kvs)
    (hQ : ∀ s, Q s → Column s) (origin : Origin) {c : LlmCandidate} (hc : c ∈ cs) :
    ∃ cap, newRow number isFinite origin c = .ok cap := by
  obtain ⟨s, hname, hs⟩ := W.name_of_fits h hc
  have hcolumn : ∃ t, c.name = .str t ∧ t.isStorable = true ∧ t.toStr.length ≤ NAME_LENGTH := by
    refine ⟨ofStr s, hname, isStorable_of_ne_nul (hQ s hs).1, ?_⟩
    rw [PyStr.toStr_ofStr]
    exact (hQ s hs).2
  rw [Llm.newRow_isOk]
  refine ⟨hcolumn, ?_⟩
  have hmem := hc
  rw [W.eq, List.mem_append, List.mem_append] at hmem
  rcases hmem with (hc' | hc') | hc'
  · obtain ⟨w, -, rfl⟩ := List.mem_map.mp hc'
    exact ⟨fun _ => nofun, fun _ => nofun⟩
  · obtain ⟨w, hw, rfl⟩ := List.mem_map.mp hc'
    obtain ⟨hskill, htruthy, hfresh⟩ := W.ofSkills w hw
    -- The skill is no command, so the prompt is a text if it counts.
    have hskills := W.readSkills
    rw [firstTen_of_list h.skills.isList] at hskills
    rw [← Except.ok.inj hskills] at hskill
    have hcommands := W.readCommands
    rw [firstTen_of_list h.commands.isList] at hcommands
    have hnot : w ∉ items (member kvs "commands") := by
      intro hmem
      rw [Except.ok.inj hcommands] at hmem
      obtain ⟨v, hv, hkey⟩ := W.coverCommands w hmem htruthy
      exact hfresh v hv hkey
    have hprompt := h.prompt ⟨w, hskill, htruthy, hnot⟩
    unfold skillCandidate
    rw [truthy_promptOf]
    cases hcount : truthy number (member kvs "prompt") with
    | false => exact ⟨fun _ => nofun, fun _ => nofun⟩
    | true =>
      obtain ⟨t, ht, hstorable⟩ := hprompt hcount
      rw [promptOf_of_truthy hcount, ht]
      refine ⟨fun v hv => ?_, fun v hv => ?_⟩
      · obtain rfl := Option.some.inj hv
        exact ⟨t, rfl, hstorable⟩
      · obtain rfl := Option.some.inj hv
        rw [jsonbTakes, jsonbTakesMembers, jsonbTakesMembers, jsonbTakes, hstorable]
        decide
  · obtain ⟨w, -, rfl⟩ := List.mem_map.mp hc'
    exact ⟨fun _ => nofun, fun _ => nofun⟩

/-- What the gene is suggested from. -/
theorem firstOf_of_fits (h : ManifestFits number Q kvs) (hQ : ∀ s, Q s → Column s) :
    ∃ v, firstOf number (orElse number (member kvs "skills") (.arr [])) = .ok v ∧
      (v = .null ∨ ∃ t, v = .str t ∧ t.isStorable = true) := by
  unfold orElse
  by_cases hv : truthy number (member kvs "skills") = true
  · obtain ⟨vs, hvs⟩ := h.skills.isList hv
    rw [if_pos hv, hvs]
    rw [hvs] at hv
    cases vs with
    | nil => cases hv
    | cons v vs =>
      refine ⟨v, if_pos hv, ?_⟩
      cases hcount : truthy number v with
      | false => exact (h.gene v vs hvs hcount).imp_right fun hnil => ⟨[], hnil, rfl⟩
      | true =>
        have hmem : v ∈ items (member kvs "skills") := by
          rw [hvs]
          exact List.mem_cons_self
        obtain ⟨s, rfl, hs⟩ := h.skills.names v hmem hcount
        exact .inr ⟨_, rfl, isStorable_of_ne_nul (hQ s hs).1⟩
  · rw [if_neg hv]
    exact ⟨.null, rfl, .inl rfl⟩

end Fits

/-! Back from what is accepted to the manifest. -/

/-- A name of the market that is a command or a slug of the heuristic engine. -/
def Kebab (s : Str) : Prop := isKebabCase s = true ∧ s.length ≤ NAME_LENGTH

/-- A candidate as it is meant to be; its required knowledge is a list of texts by its type. -/
structure GoodCandidate (c : LlmCandidate) : Prop where
  name : ∃ s, c.name = .str (ofStr s) ∧ isKebabCase s = true
  type : c.type ∈ Market.MIRROR_TYPES

theorem isKebabCase_cases {s : Str} (h : isKebabCase s = true) :
    ∃ c rest, (s = c :: rest ∨ s = c :: rest ++ ['\n']) ∧ rest ≠ [] ∧
      ∀ d ∈ c :: rest, d.toNat ≠ 0 := by
  have hlower : ∀ d : Char, pythonText.isLower d = true → d.toNat ≠ 0 := by
    intro d hd
    have hlo : 97 ≤ d.toNat := of_decide_eq_true (Bool.and_eq_true_iff.mp hd).1
    omega
  have hslug : ∀ d : Char, (isSlugChar d || d = '-') = true → d.toNat ≠ 0 := by
    intro d hd
    rw [Bool.or_eq_true, isSlugChar, Bool.or_eq_true] at hd
    rcases hd with (hd | hd) | hd
    · exact hlower d hd
    · have hlo : 48 ≤ d.toNat := of_decide_eq_true (Bool.and_eq_true_iff.mp hd).1
      omega
    · obtain rfl := of_decide_eq_true hd
      decide
  unfold isKebabCase at h
  generalize heq : (if s.getLast? = some '\n' then s.dropLast else s) = t at h
  cases t with
  | nil => cases h
  | cons c rest =>
    simp only [Bool.and_eq_true, Bool.not_eq_true', List.isEmpty_eq_false_iff] at h
    refine ⟨c, rest, ?_, h.1.2, List.forall_mem_cons.mpr ⟨hlower c h.1.1, fun d hd =>
      hslug d (List.all_eq_true.mp h.2 d hd)⟩⟩
    split at heq
    · rename_i hlast
      obtain ⟨t, rfl⟩ := List.getLast?_eq_some_iff.mp hlast
      rw [List.dropLast_concat] at heq
      exact .inr (by rw [heq])
    · exact .inl heq

theorem Kebab.length_ne_one {s : Str} (h : Kebab s) : s.length ≠ 1 := by
  obtain ⟨c, rest, hs, hne, -⟩ := isKebabCase_cases h.1
  have hpos := List.length_pos_of_ne_nil hne
  rcases hs with rfl | rfl
  · rw [List.length_cons]
    omega
  · rw [List.length_append, List.length_cons]
    omega

theorem Kebab.ofStr_ne_nil {s : Str} (h : Kebab s) : ofStr s ≠ [] := by
  obtain ⟨c, rest, rfl | rfl, -⟩ := isKebabCase_cases h.1
  · exact List.cons_ne_nil _ _
  · exact List.cons_ne_nil _ _

theorem ne_nul_of_isKebabCase {s : Str} (h : isKebabCase s = true) : ∀ c ∈ s, c.toNat ≠ 0 := by
  obtain ⟨c, rest, hs, -, hall⟩ := isKebabCase_cases h
  intro d hd
  rcases hs with rfl | rfl
  · exact hall d hd
  · rcases List.mem_append.mp hd with hd | hd
    · exact hall d hd
    · obtain rfl := List.mem_singleton.mp hd
      decide

theorem Kebab.column {s : Str} (h : Kebab s) : Column s := ⟨ne_nul_of_isKebabCase h.1, h.2⟩

section Back

variable {kvs : List (PyStr × PyValue)} {cs : List LlmCandidate}

/-- Names that no two candidates share are different names of the market. -/
theorem Walk.pairwise (W : Walk number kvs cs) (hgood : ∀ c ∈ cs, GoodCandidate c) :
    cs.Pairwise fun c d => textColumn d.name ≠ textColumn c.name := by
  have hnodup := W.nodup
  rw [← W.names, List.map_map, List.nodup_iff_pairwise_ne, List.pairwise_map] at hnodup
  refine hnodup.imp_of_mem fun {c d} hc hd hne heq => hne ?_
  obtain ⟨s, hs, hkebab⟩ := (hgood c hc).name
  obtain ⟨t, ht, hkebab'⟩ := (hgood d hd).name
  rw [hs, ht, textColumn_ofStr (ne_nul_of_isKebabCase hkebab),
    textColumn_ofStr (ne_nul_of_isKebabCase hkebab')] at heq
  rw [Function.comp_apply, Function.comp_apply, hs, ht, Except.ok.inj heq]

theorem Walk.mem_names (W : Walk number kvs cs) {v : PyValue}
    (hv : v ∈ W.newCommands ++ W.newSkills ++ W.newTools) : ∃ c ∈ cs, c.name = v := by
  rw [← W.names] at hv
  exact List.mem_map.mp hv

/-- Good candidates that rows are made for come from a manifest that fits. -/
theorem Walk.fits (W : Walk number kvs cs) (hgood : ∀ c ∈ cs, GoodCandidate c) {origin : Origin}
    (hrows : ∀ c ∈ cs, ∃ cap, newRow number isFinite origin c = .ok cap)
    (hgene : ∃ v, firstOf number (orElse number (member kvs "skills") (.arr [])) = .ok v ∧
      (v = .null ∨ ∃ t, v = .str t)) : ManifestFits number Kebab kvs := by
  have hkebab : ∀ v ∈ W.newCommands ++ W.newSkills ++ W.newTools,
      ∃ s, v = .str (ofStr s) ∧ Kebab s := by
    intro v hv
    obtain ⟨c, hc, rfl⟩ := W.mem_names hv
    obtain ⟨s, hs, hk⟩ := (hgood c hc).name
    obtain ⟨⟨t, ht, -, hlen⟩, -⟩ := Llm.newRow_isOk.mp (hrows c hc)
    obtain rfl := Json.str.inj (hs.symm.trans ht)
    rw [PyStr.toStr_ofStr] at hlen
    exact ⟨s, hs, hk, hlen⟩
  -- A name that counts is the name of a candidate.
  have hcover : ∀ {names : List PyValue},
      (∀ v ∈ names, v ∈ W.newCommands ++ W.newSkills ++ W.newTools) → ∀ w : PyValue,
      (∃ v ∈ names, nameKey number v = nameKey number w) → w ∈ names := by
    rintro names hsub w ⟨v, hv, hkey⟩
    obtain ⟨s, rfl, hs⟩ := hkebab v (hsub v hv)
    rwa [eq_of_nameKey hkey.symm hs.ofStr_ne_nil]
  have hcommands : ∀ w ∈ W.commands, truthy number w = true → w ∈ W.newCommands :=
    fun w hw hcount => hcover (fun v hv => List.mem_append_left _ (List.mem_append_left _ hv)) w
      (W.coverCommands w hw hcount)
  have hskills : ∀ w ∈ W.skills, truthy number w = true → w ∈ W.newCommands ++ W.newSkills :=
    fun w hw hcount => hcover (fun v hv => List.mem_append_left _ hv) w
      (W.coverSkills w hw hcount)
  have htools : ∀ w ∈ W.tools, truthy number w = true →
      w ∈ W.newCommands ++ W.newSkills ++ W.newTools :=
    fun w hw hcount => hcover (fun v hv => hv) w (W.coverTools w hw hcount)
  have hne : ∀ s, Kebab s → s.length ≠ 1 := fun s hs => hs.length_ne_one
  obtain ⟨hlistc, hreadc⟩ := lists_of_firstTen hne W.readCommands fun w hw hcount =>
    hkebab w (List.mem_append_left _ (List.mem_append_left _ (hcommands w hw hcount)))
  obtain ⟨hlists, hreads⟩ := lists_of_firstTen hne W.readSkills fun w hw hcount =>
    hkebab w (List.mem_append_left _ (hskills w hw hcount))
  obtain ⟨hlistt, -⟩ := lists_of_firstTen hne W.readTools fun w hw hcount =>
    hkebab w (htools w hw hcount)
  refine ⟨hlistc, hlists, hlistt, ?_, ?_⟩
  · rintro ⟨w, hw, hcount, hnot⟩ hprompt
    have hnew : w ∈ W.newSkills := by
      refine (List.mem_append.mp (hskills w (hreads ▸ hw) hcount)).resolve_left fun hmem => ?_
      exact hnot (hreadc ▸ (W.ofCommands w hmem).1)
    have hmem : skillCandidate number (promptOf number kvs) w ∈ cs := by
      rw [W.eq]
      exact List.mem_append_left _ (List.mem_append_right _ (List.mem_map_of_mem hnew))
    obtain ⟨-, hdescription, -⟩ := Llm.newRow_isOk.mp (hrows _ hmem)
    refine hdescription _ ?_
    unfold skillCandidate
    rw [truthy_promptOf, if_pos hprompt, promptOf_of_truthy hprompt]
  · intro v vs hvs hfalse
    obtain ⟨u, hu, hshape⟩ := hgene
    rw [hvs] at hu
    obtain rfl : v = u := Except.ok.inj hu
    refine hshape.imp_right ?_
    rintro ⟨t, rfl⟩
    rw [truthy, Bool.not_eq_false', List.isEmpty_iff] at hfalse
    rw [hfalse]

end Back

/-! The manifest of the heuristic engine. -/

/-- A row of `memories`: the key fits its column, and no text holds a NUL. -/
structure StoredMemory extends Memory where
  keyFits : ∀ k, key = some k → Column k
  contentFits : ∀ t, content = some t → ∀ c ∈ t, c.toNat ≠ 0

structure Gathered.Fits (g : Gathered) : Prop where
  commands : ∀ s ∈ g.commands, Column s
  skills : ∀ s ∈ g.skills, Column s
  longest : ∀ c ∈ g.longest, c.toNat ≠ 0

theorem column_nil : Column [] := ⟨List.forall_mem_nil _, Nat.zero_le _⟩

theorem column_extractKeyPrefix {key : Str} (h : Column key) : Column (extractKeyPrefix key) :=
  have hpre := List.takeWhile_prefix (· ≠ '-') (l := key)
  ⟨fun c hc => h.1 c (hpre.subset hc), Nat.le_trans hpre.length_le h.2⟩

theorem gather_fits {g : Gathered} (hg : g.Fits) (memories : List StoredMemory) :
    (gather g (memories.map StoredMemory.toMemory)).Fits := by
  induction memories generalizing g with
  | nil => exact hg
  | cons m memories ih =>
    have hkey : Column (m.key.getD []) := by
      cases hk : m.key with
      | none => exact column_nil
      | some k => exact m.keyFits k hk
    have hcontent : ∀ c ∈ m.content.getD [], c.toNat ≠ 0 := by
      cases hc : m.content with
      | none => exact List.forall_mem_nil _
      | some t => exact m.contentFits t hc
    have hcommands : ∀ isNew : Bool,
        ∀ s ∈ if isNew then g.commands ++ [m.key.getD []] else g.commands, Column s := by
      intro isNew s hs
      split at hs
      · rcases List.mem_append.mp hs with hs | hs
        · exact hg.commands s hs
        · obtain rfl := List.mem_singleton.mp hs
          exact hkey
      · exact hg.commands s hs
    rw [List.map_cons, gather]
    generalize (if m.kind.isEmpty then "experience".toList else m.kind) = kind
    generalize ((kind = "lesson".toList || kind = "decision".toList) &&
      isKebabCase (m.key.getD []) && !g.commands.contains (m.key.getD [])) = isNew
    replace hcommands := hcommands isNew
    generalize (if isNew then g.commands ++ [m.key.getD []] else g.commands) = commands
      at hcommands ⊢
    split
    · exact ⟨hcommands, hg.skills, hg.longest⟩
    · refine ih ⟨hcommands, fun s hs => ?_, fun c hc => ?_⟩
      · split at hs
        · exact hg.skills s hs
        · rcases List.mem_append.mp hs with hs | hs
          · exact hg.skills s hs
          · obtain rfl := List.mem_singleton.mp hs
            exact column_extractKeyPrefix hkey
      · dsimp only at hc
        split at hc
        · exact hcontent c hc
        · exact hg.longest c hc

theorem lists_texts {ss : List Str} (h : ∀ s ∈ ss, Column s) : Lists number Column (texts ss) := by
  refine ⟨fun _ => ⟨_, rfl⟩, fun w hw _ => ?_⟩
  obtain ⟨s, hs, rfl⟩ := List.mem_map.mp (List.mem_of_mem_take hw)
  exact ⟨s, rfl, h s hs⟩

/-- The members of the manifest of the heuristic engine. -/
theorem manifestOf_fits {commands skills : List Str} {prompt : Str}
    (hcommands : ∀ s ∈ commands, Column s) (hskills : ∀ s ∈ skills, Column s)
    (hprompt : ∀ c ∈ prompt, c.toNat ≠ 0) :
    ∃ kvs, manifestOf commands skills prompt = .obj kvs ∧ ManifestFits number Column kvs := by
  have hempty : ∀ s ∈ ([] : List Str), Column s := List.forall_mem_nil _
  refine ⟨_, rfl, lists_texts hcommands, lists_texts hskills, lists_texts hempty, ?_, ?_⟩
  · exact fun _ _ => ⟨_, rfl, isStorable_of_ne_nul hprompt⟩
  · intro v vs hvs hfalse
    have hmem : v ∈ skills.map fun s => (.str (ofStr s) : PyValue) := by
      rw [Json.arr.inj (hvs : texts skills = _)]
      exact List.mem_cons_self
    obtain ⟨s, -, rfl⟩ := List.mem_map.mp hmem
    rw [truthy, Bool.not_eq_false', List.isEmpty_iff] at hfalse
    exact .inr (by rw [hfalse])

theorem heuristicManifest_fits (memories : List StoredMemory) :
    ∃ kvs, heuristicManifest (memories.map StoredMemory.toMemory) = .obj kvs ∧
      ManifestFits number Column kvs := by
  have hfits := gather_fits (g := ⟨[], [], []⟩)
    ⟨List.forall_mem_nil _, List.forall_mem_nil _, List.forall_mem_nil _⟩ memories
  refine manifestOf_fits hfits.commands (fun s hs => hfits.skills s (mem_sortBy.mp hs)) ?_
  intro c hc
  split at hc
  · unfold truncateContent at hc
    split at hc
    · exact hfits.longest c hc
    · have hall : "...".toList.all (fun c => c.toNat != 0) = true := by decide
      have hdots : ∀ c ∈ "...".toList, c.toNat ≠ 0 :=
        fun c hc => bne_iff_ne.mp (List.all_eq_true.mp hall c hc)
      exact (List.mem_append.mp hc).elim (fun hc => hfits.longest c (List.mem_of_mem_take hc))
        (hdots c)
  · cases hc

/-! Every reply. -/

variable (number isFinite) in
/-- Whatever the memories and the market are, the reply is distilled and persisted, and it is
given up for the heuristic engine or makes nothing but good candidates. -/
def Robust (depth : Nat) (reply : PyStr) : Prop :=
  ∀ (memories : List StoredMemory) (entityId : Id) (request : DistillRequest) (origin : Origin)
    (market : CapabilityMarket), memories ≠ [] →
    ∃ result, distillByLlm number depth (memories.map StoredMemory.toMemory) entityId request
        reply = .ok result ∧
      (∃ out, persist number isFinite origin market result = .ok out) ∧
      (parseResponse depth reply = .error .valueError ∨
        ∀ c ∈ result.capabilityCandidates, GoodCandidate c)

theorem resultFromLlmManifest_eq_ok {entries : List Memory} (hne : entries ≠ []) {entityId : Id}
    {request : DistillRequest} {manifest : PyValue} {result : LlmResult} :
    resultFromLlmManifest number entries entityId request manifest = .ok result ↔
      ∃ kvs cs v, manifest = .obj kvs ∧ manifestToCandidates number (.obj kvs) = .ok cs ∧
        firstOf number (orElse number (member kvs "skills") (.arr [])) = .ok v ∧
        result = ⟨cs, v, aggregateMemoryCounts entries, entityId, request.sourcePresetSlug⟩ := by
  unfold resultFromLlmManifest
  rw [if_neg (by rwa [List.isEmpty_iff]), mapError_eq_ok]
  cases manifest with
  | obj kvs =>
    simp only [pyGet, bind_eq_ok, Except.ok.injEq, exists_eq_left']
    constructor
    · rintro ⟨cs, hcs, v, hv, h⟩
      exact ⟨kvs, cs, v, rfl, hcs, hv, (Except.ok.inj h).symm⟩
    · rintro ⟨kvs', cs, v, hkvs, hcs, hv, rfl⟩
      obtain rfl := Json.obj.inj hkvs
      exact ⟨cs, hcs, v, hv, rfl⟩
  | null | bool b | num t | str s | arr vs =>
    refine iff_of_false ?_ ?_
    · rintro h
      cases h
    · rintro ⟨kvs, cs, v, hkvs, -⟩
      cases hkvs

/-- A manifest that fits is walked and persisted. -/
theorem result_of_fits {Q : Str → Prop} {kvs : List (PyStr × PyValue)}
    (h : ManifestFits number Q kvs) (hQ : ∀ s, Q s → Column s) {entries : List Memory}
    (hne : entries ≠ []) (entityId : Id) (request : DistillRequest) (origin : Origin)
    (market : CapabilityMarket) :
    ∃ result, resultFromLlmManifest number entries entityId request (.obj kvs) = .ok result ∧
      (∃ out, persist number isFinite origin market result = .ok out) ∧
      ∀ c ∈ result.capabilityCandidates, (∃ s, c.name = .str (ofStr s) ∧ Q s) ∧
        c.type ∈ Market.MIRROR_TYPES := by
  obtain ⟨cs, hcs⟩ := manifestToCandidates_total h
  obtain ⟨W⟩ := exists_walk hcs
  obtain ⟨v, hv, hshape⟩ := firstOf_of_fits h hQ
  refine ⟨_, (resultFromLlmManifest_eq_ok hne).mpr ⟨kvs, cs, v, rfl, hcs, hv, rfl⟩,
    persist_total (fun c hc => W.newRow_isOk h hQ origin hc) hshape, fun c hc => ?_⟩
  refine ⟨W.name_of_fits h hc, ?_⟩
  have hmem : c ∈ cs := hc
  rw [W.eq, List.mem_append, List.mem_append] at hmem
  have htypes : ∀ t ∈ ["command".toList, "skill".toList, "tool".toList],
      t ∈ Market.MIRROR_TYPES := by decide
  refine htypes _ ?_
  rcases hmem with (hmem | hmem) | hmem <;> obtain ⟨w, -, rfl⟩ := List.mem_map.mp hmem
  · exact List.mem_cons_self
  · exact List.mem_cons_of_mem _ List.mem_cons_self
  · exact List.mem_cons_of_mem _ (List.mem_cons_of_mem _ List.mem_cons_self)

def emptyMarket : CapabilityMarket := ⟨[], List.nodup_nil⟩

def aMemory : StoredMemory where
  entityId := "e"
  kind := "lesson".toList
  key := none
  content := none
  createdAt := 0
  deleted := false
  keyFits := fun _ => nofun
  contentFits := fun _ => nofun

/-- The replies that are no JSON, and the manifests that fit, are survived, and no others. -/
theorem robust_iff {ν : Type} [DecidableEq ν] (number : PyStr → ν) (isFinite : ν → Bool)
    (depth : Nat) (reply : PyStr) :
    Robust number isFinite depth reply ↔ parseResponse depth reply = .error .valueError ∨
      ∃ kvs, parseResponse depth reply = .ok (.obj kvs) ∧ ManifestFits number Kebab kvs := by
  constructor
  · intro h
    obtain ⟨result, hresult, ⟨out, hout⟩, hfell | hgood⟩ :=
      h [aMemory] "e" ⟨none, none⟩ ⟨none, []⟩ emptyMarket (List.cons_ne_nil _ _)
    · exact .inl hfell
    · unfold distillByLlm at hresult
      obtain ⟨manifest, hmanifest, hresult⟩ := bind_eq_ok.mp hresult
      rw [mapError_eq_ok] at hmanifest
      obtain ⟨kvs, cs, v, rfl, hcs, hv, rfl⟩ :=
        (resultFromLlmManifest_eq_ok (List.cons_ne_nil _ _)).mp hresult
      obtain ⟨W⟩ := exists_walk hcs
      obtain ⟨⟨r, hr⟩, hgene⟩ := of_persist hout
      have hrows := newRow_of_upsertAll hr (fun c _ e he => absurd he List.not_mem_nil)
        (W.pairwise hgood)
      have hfits := W.fits hgood hrows ⟨v, hv, hgene⟩
      cases hparse : parseResponse depth reply with
      | ok m =>
        unfold distillManifest at hmanifest
        rw [hparse] at hmanifest
        obtain rfl : m = .obj kvs := Except.ok.inj hmanifest
        exact .inr ⟨kvs, rfl, hfits⟩
      | error e =>
        cases e with
        | valueError => exact .inl rfl
        | recursionError =>
          unfold distillManifest at hmanifest
          rw [hparse] at hmanifest
          cases hmanifest
  · intro h memories entityId request origin market hne
    have hne' : memories.map StoredMemory.toMemory ≠ [] := by simpa using hne
    have hmodel : ¬ (memories.map StoredMemory.toMemory).isEmpty = true := by
      rwa [List.isEmpty_iff]
    unfold distillByLlm distillManifest
    rw [if_neg hmodel]
    rcases h with h | ⟨kvs, h, hfits⟩
    · obtain ⟨kvs, hkvs, hfits⟩ := @heuristicManifest_fits _ _ number memories
      obtain ⟨result, hresult, hout, -⟩ := @result_of_fits _ _ number isFinite _ _ hfits
        (fun _ hs => hs) _ hne' entityId request origin market
      rw [h, hkvs]
      exact ⟨result, hresult, hout, .inl rfl⟩
    · obtain ⟨result, hresult, hout, hgood⟩ := @result_of_fits _ _ number isFinite _ _ hfits
        (fun _ hs => hs.column) _ hne' entityId request origin market
      rw [h]
      refine ⟨result, hresult, hout, .inr fun c hc => ?_⟩
      obtain ⟨⟨s, hs, hkebab⟩, htype⟩ := hgood c hc
      exact ⟨⟨s, hs, hkebab.1⟩, htype⟩

/-- A reply that is JSON, but no object, has no members to get. -/
theorem list_not_robust : ¬ Robust (id : PyStr → PyStr) (fun _ => true) 1000 (py "[]") := by
  intro h
  obtain ⟨result, hresult, -⟩ :=
    h [aMemory] "e" ⟨none, none⟩ ⟨none, []⟩ emptyMarket (List.cons_ne_nil _ _)
  have hraised : distillByLlm (id : PyStr → PyStr) 1000 [aMemory.toMemory] "e" ⟨none, none⟩
      (py "[]") = .error (.python .attributeError) := rfl
  cases hresult.symm.trans hraised

end Eyot.Learning.Llm
