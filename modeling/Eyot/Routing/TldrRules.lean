import Eyot.Routing.Gate
import Eyot.Slash.Lines

/-! The summaries that message routing hands to the inject queue. -/

namespace Eyot.Routing

open Slash (Directive)
open Scan Traced

/-- What the inject queue asks of the summary of a payload. -/
structure TldrRules (payload : Payload) (tldr : Option Str) : Prop where
  length : ∀ t, tldr = some t → t.length ≤ tldrMaxChars
  presence : proseThresholdChars < computeProseLength payload →
    ∃ t, tldr = some t ∧ pythonText.strip t ≠ []

def IsTldrError (f : Failure) : Prop :=
  ∃ e, f = .eyot e ∧ e.errorCode ∈ ["internal.tldr_too_long", "internal.tldr_required"]

theorem validateTldr_eq_ok {tldr : Option Str} {proseLength : Nat} :
    validateTldr tldr proseLength = .ok () ↔ (∀ t, tldr = some t → t.length ≤ tldrMaxChars) ∧
      (proseThresholdChars < proseLength → ∃ t, tldr = some t ∧ pythonText.strip t ≠ []) := by
  unfold validateTldr
  cases tldr with
  | none => simp
  | some t =>
    by_cases hlong : t.length > tldrMaxChars
    · have hnot : ¬ t.length ≤ tldrMaxChars := Nat.not_le.mpr hlong
      simp [Option.filter, hlong, hnot]
    · have hle : t.length ≤ tldrMaxChars := Nat.not_lt.mp hlong
      simp [Option.filter, hlong, hle]

theorem tldrRules_iff {payload : Payload} {tldr : Option Str} :
    TldrRules payload tldr ↔ validateTldr tldr 0 = .ok () ∧
      validateTldr tldr (computeProseLength payload) = .ok () := by
  rw [validateTldr_eq_ok, validateTldr_eq_ok]
  constructor
  · rintro ⟨hlength, hpresence⟩
    exact ⟨⟨hlength, fun h => absurd h (Nat.not_lt_zero _)⟩, hlength, hpresence⟩
  · rintro ⟨-, hlength, hpresence⟩
    exact ⟨hlength, hpresence⟩

/-! What a call that keeps the rules can still end in. -/

theorem raises_enqueueInject {env : Surroundings} {instanceId : Id} {kind : InjectKind}
    {deliveryMode : DeliveryMode} {payload : Payload} {tldr : Option Str}
    (h : TldrRules payload tldr) (p : Failure → Prop) :
    Raises p (enqueueInject env instanceId kind deliveryMode payload tldr) := by
  obtain ⟨hshort, hvalid⟩ := tldrRules_iff.mp h
  unfold enqueueInject
  rw [hshort, hvalid, ofExcept_ok_bind, ofExcept_ok_bind]
  refine (raises_tell _).bind fun _ _ => (raises_tell _).bind fun _ _ => ?_
  cases kind with
  | collabInject => exact raises_pure _
  | cerebellumRoute => exact raises_pure _
  | geneInject => exact (raises_tell _).bind fun _ _ => raises_pure _
  | capabilityInject => exact (raises_tell _).bind fun _ _ => raises_pure _

theorem raises_appendComposerMessage {db : Db} {workspaceId : Id} {role : String} {content : Str}
    {targetEntity : Option Str} {instanceId turnId : Option Id} {status : String}
    {authorUserId : Option Id} {p : Failure → Prop} :
    Raises p (appendComposerMessage db workspaceId role content targetEntity instanceId turnId
      status authorUserId) := by
  unfold appendComposerMessage
  split
  · exact raises_pure _
  · exact (raises_tell _).bind fun _ _ => raises_pure _

theorem raises_scheduleUserTurn {env : Surroundings} {db : Db} {workspaceId instanceId : Id}
    {targetEntity text : Str} {cmd : Option Str} {fromMembershipId : Id} {p : Failure → Prop} :
    Raises p (scheduleUserTurn env db workspaceId instanceId targetEntity text cmd
      fromMembershipId) := by
  unfold scheduleUserTurn
  refine raises_appendComposerMessage.bind fun _ _ => ?_
  refine raises_appendComposerMessage.bind fun _ _ => ?_
  refine (raises_tell _).bind fun _ _ => (raises_tell _).bind fun _ _ => ?_
  split
  · refine (raises_tell _).bind fun _ _ => ?_
    split
    · exact (raises_tell _).bind fun _ _ => raises_pure _
    · exact (raises_tell _).bind fun _ _ => (raises_tell _).bind fun _ _ => raises_pure _
  · exact (raises_tell _).bind fun _ _ => raises_pure _

theorem raises_scalarOneOrNone {α : Type} (l : List α) :
    Raises (· = Failure.multipleResultsFound) (.ofExcept (scalarOneOrNone l) : Routed _) := by
  intro e he
  change scalarOneOrNone l = .error e at he
  unfold scalarOneOrNone at he
  split at he
  · cases he
  · cases he
  · exact (Except.error.inj he).symm

/-! The two calls of the router. -/

def Delivery.tldr (d : Delivery) : Str := d.text.take 200

def Delivery.cerebellumPayload (d : Delivery) : Payload :=
  [("text", .text d.text), ("target_entity", .text d.targetEntity),
    ("from_membership_id", .id d.fromMembershipId)]

def Delivery.collabPayload (d : Delivery) (passageId : Id) : Payload :=
  [("target_entity", .text d.targetEntity), ("cmd", .text d.directive.cmd),
    ("args", .texts d.directive.args), ("text", .text d.text), ("passage_id", .id passageId)]

theorem raises_routeToCerebellum {env : Surroundings} {db : Db} {d : Delivery} {instanceId : Id}
    {toMembershipId : Option Id} (h : TldrRules d.cerebellumPayload (some d.tldr))
    (p : Failure → Prop) : Raises p (routeToCerebellum env db d instanceId toMembershipId) := by
  unfold routeToCerebellum
  refine (raises_tell _).bind fun _ _ => ?_
  refine raises_appendComposerMessage.bind fun _ _ => ?_
  refine raises_appendComposerMessage.bind fun _ _ => ?_
  exact (raises_enqueueInject h p).bind fun _ _ => raises_pure _

theorem raises_deliver {env : Surroundings} {db : Db} {d : Delivery} {instanceId seatId : Id}
    {passage : Passage} (h : TldrRules (d.collabPayload passage.id) (some d.tldr)) :
    Raises (· = .multipleResultsFound) (deliver env db d instanceId seatId passage) := by
  unfold deliver
  refine (raises_tell _).bind fun _ _ => ?_
  refine Raises.bind ?_ fun _ _ => ?_
  · -- The query for the loop state.
    intro e he
    change deliveryModeForInstance db instanceId = .error e at he
    unfold deliveryModeForInstance at he
    cases hstate : scalarOneOrNone (db.loopStates.rows.filter fun s =>
        s.instanceId = instanceId && s.deletedAt.isNone) with
    | ok state =>
      rw [hstate] at he
      cases he
    | error e' =>
      rw [hstate] at he
      obtain rfl : e' = e := Except.error.inj he
      exact raises_scalarOneOrNone _ e' hstate
  · refine (raises_enqueueInject h _).bind fun _ _ => ?_
    exact raises_scheduleUserTurn.bind fun _ _ => raises_pure _

/-- Both calls for a delivery keep the rules. -/
def Delivery.Summarised (d : Delivery) : Prop :=
  TldrRules d.cerebellumPayload (some d.tldr) ∧
    ∀ passageId, TldrRules (d.collabPayload passageId) (some d.tldr)

theorem raises_routeToInstance {env : Surroundings} {db : Db} {d : Delivery} (h : d.Summarised)
    (instance_ : Instance) :
    Raises (· = .multipleResultsFound) (routeToInstance env db d instance_) := by
  unfold routeToInstance
  refine (raises_scalarOneOrNone _).bind fun toMembership _ => ?_
  cases toMembership with
  | none =>
    dsimp only
    split
    · exact raises_routeToCerebellum h.1 _
    · exact (raises_tell _).bind fun _ _ => raises_pure _
  | some seat =>
    dsimp only
    split
    · split
      · exact raises_routeToCerebellum h.1 _
      · exact (raises_tell _).bind fun _ _ => raises_pure _
    · exact raises_deliver (h.2 _)

theorem raises_routeMessage {env : Surroundings} {db : Db} {fromMembershipId workspaceId : Id}
    {directive : Directive Char} {generalText : Option Str}
    (h : ∀ d : Delivery, d.directive = directive → d.generalText = generalText → d.Summarised) :
    Raises (· = .multipleResultsFound)
      (routeMessage env db fromMembershipId workspaceId directive generalText) := by
  unfold routeMessage
  split
  · exact raises_pure _
  · refine (raises_scalarOneOrNone _).bind fun entity _ => ?_
    split
    · exact raises_pure _
    · dsimp only
      split
      · exact raises_pure _
      · exact Raises.collect fun i _ => raises_routeToInstance (h _ rfl rfl) i

/-! When a text is long and its beginning is blank. -/

theorem summarised_iff (d : Delivery) :
    d.Summarised ↔ ¬(proseThresholdChars < d.text.length ∧ pythonText.strip d.tldr = []) := by
  have hshort : ∀ t, some d.tldr = some t → t.length ≤ tldrMaxChars := by
    intro t ht
    obtain rfl := Option.some.inj ht
    exact List.length_take_le _ _
  have hrules : ∀ payload, computeProseLength payload = d.text.length →
      (TldrRules payload (some d.tldr) ↔
        ¬(proseThresholdChars < d.text.length ∧ pythonText.strip d.tldr = [])) := by
    intro payload hlen
    constructor
    · rintro h ⟨hlong, hblank⟩
      obtain ⟨t, ht, hne⟩ := h.presence (hlen ▸ hlong)
      obtain rfl := Option.some.inj ht
      exact hne hblank
    · intro h
      exact ⟨hshort, fun hlong => ⟨_, rfl, fun hblank => h ⟨hlen ▸ hlong, hblank⟩⟩⟩
  unfold Delivery.Summarised
  rw [hrules d.cerebellumPayload (Nat.add_zero _)]
  exact and_iff_left_of_imp fun h passageId => (hrules _ (Nat.add_zero _)).mpr h

theorem Delivery.text_cases (d : Delivery) :
    d.text = [] ∨ Trimmed pythonText.isSpace d.text ∨
      (pythonText.strip (d.generalText.getD []) = [] ∧
        pythonText.strip (pythonText.join " " d.directive.args) = [] ∧
        d.directive.cmd ≠ [] ∧ d.text = d.directive.cmd) := by
  have hstrip : ∀ l : Str, pythonText.strip l = [] ∨
      Trimmed pythonText.isSpace (pythonText.strip l) := fun l =>
    (eq_or_ne (pythonText.strip l) []).imp_right trimmed_strip
  unfold Delivery.text turnTextForDirective
  dsimp only
  split
  · rename_i hcmd
    split
    · rename_i hgeneral
      exact .inr (.inl (trimmed_strip hgeneral))
    · rename_i hgeneral
      split
      · rename_i hargs
        exact .inr (.inl (trimmed_strip hargs))
      · rename_i hargs
        exact .inr (.inr ⟨not_not.mp hgeneral, not_not.mp hargs, hcmd, rfl⟩)
  · split
    · rename_i hargs
      exact .inr (.inl (trimmed_strip hargs))
    · exact (hstrip _).imp_right .inl

theorem strip_take_ne_nil {l : Str} (h : Trimmed pythonText.isSpace l) {n : Nat} (hn : n ≠ 0) :
    pythonText.strip (l.take n) ≠ [] := by
  obtain ⟨c, l, rfl⟩ := List.exists_cons_of_ne_nil h.ne_nil
  obtain ⟨n, rfl⟩ := Nat.exists_eq_succ_of_ne_zero hn
  intro hnil
  have hc := strip_eq_nil.mp hnil c List.mem_cons_self
  rw [h.head c rfl] at hc
  cases hc

/-- Nothing but the command is there to be sent, and what the summary keeps of it is blank. -/
structure BlankSummary (directive : Directive Char) (generalText : Option Str) : Prop where
  general : pythonText.strip (generalText.getD []) = []
  args : pythonText.strip (pythonText.join " " directive.args) = []
  long : proseThresholdChars < directive.cmd.length
  blank : ∀ c ∈ directive.cmd.take 200, pythonText.isSpace c = true

theorem Delivery.summarised_iff_blankSummary (d : Delivery) :
    d.Summarised ↔ ¬ BlankSummary d.directive d.generalText := by
  rw [summarised_iff, not_iff_not]
  constructor
  · rintro ⟨hlong, hblank⟩
    obtain htext | htext | ⟨hgeneral, hargs, -, htext⟩ := d.text_cases
    · rw [htext] at hlong
      exact absurd hlong (Nat.not_lt_zero _)
    · exact absurd hblank (strip_take_ne_nil htext (by decide))
    · rw [Delivery.tldr, htext] at hblank
      exact ⟨hgeneral, hargs, htext ▸ hlong, strip_eq_nil.mp hblank⟩
  · rintro ⟨hgeneral, hargs, hlong, hblank⟩
    have hcmd : d.directive.cmd ≠ [] := by
      intro hnil
      rw [hnil] at hlong
      exact absurd hlong (Nat.not_lt_zero _)
    have htext : d.text = d.directive.cmd := by
      unfold Delivery.text turnTextForDirective
      dsimp only
      rw [if_pos hcmd, if_neg (not_not.mpr hgeneral), if_neg (not_not.mpr hargs)]
    rw [Delivery.tldr, htext]
    exact ⟨hlong, strip_eq_nil.mpr hblank⟩

/-- The calls for a directive keep the rules, and its delivery fails with no error of theirs. -/
structure KeepsTldrRules (directive : Directive Char) (generalText : Option Str) : Prop where
  calls : ∀ d : Delivery, d.directive = directive → d.generalText = generalText → d.Summarised
  delivery : ∀ env db fromMembershipId workspaceId, Raises (fun f => ¬IsTldrError f)
    (routeMessage env db fromMembershipId workspaceId directive generalText)

theorem keepsTldrRules_iff (directive : Directive Char) (generalText : Option Str) :
    KeepsTldrRules directive generalText ↔ ¬ BlankSummary directive generalText := by
  constructor
  · intro h
    exact (Delivery.summarised_iff_blankSummary ⟨"", "", directive, [], generalText, false,
      none⟩).mp (h.calls _ rfl rfl)
  · intro h
    have hcalls : ∀ d : Delivery, d.directive = directive → d.generalText = generalText →
        d.Summarised := by
      rintro d rfl rfl
      exact d.summarised_iff_blankSummary.mpr h
    refine ⟨hcalls, fun env db fromMembershipId workspaceId f hf => ?_⟩
    obtain rfl := raises_routeMessage hcalls f hf
    rintro ⟨e, he, -⟩
    cases he

/-- The command of a parsed directive is empty or begins with its slash. -/
theorem not_blankSummary_of_isCmd {directive : Directive Char} {generalText : Option Str}
    (h : Slash.IsCmd pythonText directive.cmd) : ¬ BlankSummary directive generalText := by
  rintro ⟨-, -, hlong, hblank⟩
  obtain hcmd | ⟨name, hcmd⟩ := h
  · rw [hcmd] at hlong
    exact absurd hlong (Nat.not_lt_zero _)
  · rw [hcmd] at hblank
    exact absurd (hblank '/' List.mem_cons_self) (by decide)

/-- The rules are kept exactly where the summary is not the blank beginning of a long command,
and so for every directive of a parsed turn. -/
theorem tldrRules_kept :
    (∀ directive generalText,
      KeepsTldrRules directive generalText ↔ ¬ BlankSummary directive generalText) ∧
    ∀ rawText, ∀ directive ∈ (Slash.Backend.parseTurn pythonText rawText).directives,
      ∀ generalText, KeepsTldrRules directive generalText := by
  refine ⟨keepsTldrRules_iff, fun rawText directive hmem generalText => ?_⟩
  have hcmd := Slash.isCmd_of_parseTurn hmem
  exact (keepsTldrRules_iff _ _).mpr (not_blankSummary_of_isCmd hcmd)

/-- A command that only a directive built by hand can have. -/
def indentedDirective : Directive Char :=
  ⟨some ['a'], List.replicate 200 ' ' ++ List.replicate 41 'x', [], none, []⟩

/-- The delivery of it fails. -/
theorem indented_command_fails : ∃ f, IsTldrError f ∧
    (routeMessage unlinkedSurroundings unlinkedDb "m" "w" indentedDirective none).result =
      .error f := by
  refine ⟨.eyot ⟨"internal.tldr_required", "errors.internal.tldr_required",
    "tldr is required when prose exceeds 240 characters", 400,
    [("prose_length", 241), ("threshold", 240)]⟩, ⟨_, rfl, by decide⟩, ?_⟩
  decide +kernel

end Eyot.Routing
