import Eyot.Routing.DirectiveRouter
import Eyot.Routing.Gate
import Eyot.Slash.Backend

/-! Which of the words of a turn reach the instances it is delivered to. -/

namespace Eyot.Routing

open Slash (Directive Turn)
open Traced

def Value.allTexts : Value → List Str
  | .text s => [s]
  | .texts ss => ss
  | _ => []

/-- What a recipient is sent: the payload of its collaboration inject, the text of its turn. -/
def Effect.texts : Effect → List Str
  | .inject row => if row.kind = .collabInject then row.payload.flatMap fun kv => kv.2.allTexts else []
  | .turn state => [state.text]
  | .chatRequest frame => [frame.text]
  | _ => []

def sentTexts (directive : Directive Char) (generalText : Option Str) : List Str :=
  directive.targetEntity.toList ++
    directive.cmd :: (directive.args ++ [turnTextForDirective directive generalText])

theorem texts_of_not_isDelivery {w : Effect} (h : w.isDelivery = false) : w.texts = [] := by
  cases w with
  | inject row =>
    have hkind : row.kind ≠ .collabInject := of_decide_eq_false h
    simp [Effect.texts, hkind]
  | event e => rfl
  | composerMessage row => rfl
  | turn state => cases h
  | viaTunnel turnId instanceId value => rfl
  | chatRequest frame => cases h
  | streamTask turnId instanceId => rfl

section Deliver

variable (env : Surroundings) (db : Db) (fromMembershipId workspaceId : Id)
  (directive : Directive Char) (target : Str) (generalText : Option Str)

theorem texts_collabInject (queueId instanceId passageId : Id) (deliveryMode : DeliveryMode)
    (expiresAt : Time) (htarget : directive.targetEntity = some target) :
    (Effect.inject ⟨queueId, instanceId, .collabInject, deliveryMode,
      [("target_entity", .text target), ("cmd", .text directive.cmd),
        ("args", .texts directive.args), ("text", .text (turnTextForDirective directive generalText)),
        ("passage_id", .id passageId)], "pending", expiresAt⟩).texts =
      sentTexts directive generalText := by
  simp [Effect.texts, Value.allTexts, sentTexts, htarget]

/-- A delivery sends the texts of its directive. -/
theorem logs_deliver (instanceId seatId : Id) (passage : Passage)
    (htarget : directive.targetEntity = some target) :
    Logs (fun w => w.texts = sentTexts directive generalText)
      (deliver env db (deliveryFor db fromMembershipId workspaceId directive target generalText)
        instanceId seatId passage) := by
  unfold deliver enqueueInject
  refine .bind_right fun _ => .bind_right fun deliveryMode => .bind_left ?_ _
  refine .bind_right fun _ => .bind_right fun _ => .bind_left (logs_tell ?_) _
  exact texts_collabInject directive target generalText _ _ _ _ _ htarget

/-- A delivery sends nothing else. -/
theorem emits_texts_deliver (instanceId seatId : Id) (passage : Passage)
    (htarget : directive.targetEntity = some target) :
    Emits (fun w => ∀ s ∈ w.texts, s ∈ sentTexts directive generalText)
      (deliver env db (deliveryFor db fromMembershipId workspaceId directive target generalText)
        instanceId seatId passage) := by
  have hsilent : ∀ w : Effect, w.texts = [] →
      Emits (fun w => ∀ s ∈ w.texts, s ∈ sentTexts directive generalText)
        (Traced.tell w : Routed Unit) := by
    intro w hw
    exact emits_tell (by simp [hw])
  have htext : ∀ w : Effect, w.texts = [turnTextForDirective directive generalText] →
      Emits (fun w => ∀ s ∈ w.texts, s ∈ sentTexts directive generalText)
        (Traced.tell w : Routed Unit) := by
    intro w hw
    exact emits_tell (by simp [hw, sentTexts])
  have hrow : ∀ role content author turnId status,
      Emits (fun w => ∀ s ∈ w.texts, s ∈ sentTexts directive generalText)
        (appendComposerMessage db workspaceId role content (some target) (some instanceId) turnId
          status author) := by
    intro role content author turnId status
    unfold appendComposerMessage
    split
    · exact emits_pure none
    · exact (hsilent _ rfl).bind fun _ _ => emits_pure _
  unfold deliver
  refine (hsilent _ rfl).bind fun _ _ => (emits_ofExcept _).bind fun deliveryMode _ => ?_
  refine .bind ?_ fun _ _ => .bind ?_ fun _ _ => emits_pure _
  · unfold enqueueInject
    refine (emits_ofExcept _).bind fun _ _ => (emits_ofExcept _).bind fun _ _ => ?_
    refine (emits_tell ?_).bind fun _ _ => (hsilent _ rfl).bind fun _ _ => ?_
    · intro s hs
      rwa [← texts_collabInject directive target generalText _ _ _ _ _ htarget]
    · exact (emits_pure ()).bind fun _ _ => emits_pure _
  · unfold scheduleUserTurn
    refine .bind (hrow _ _ _ _ _) fun _ _ => .bind (hrow _ _ _ _ _) fun _ _ => ?_
    refine (htext _ rfl).bind fun _ _ => (hsilent _ rfl).bind fun _ _ => ?_
    split
    · refine (hsilent _ rfl).bind fun _ _ => ?_
      split
      · exact (htext _ rfl).bind fun _ _ => emits_pure _
      · exact (hsilent _ rfl).bind fun _ _ => (hsilent _ rfl).bind fun _ _ => emits_pure _
    · exact (hsilent _ rfl).bind fun _ _ => emits_pure _

theorem emits_texts_routeToInstance (instance_ : Instance)
    (htarget : directive.targetEntity = some target) :
    Emits (fun w => ∀ s ∈ w.texts, s ∈ sentTexts directive generalText)
      (routeToInstance env db
        (deliveryFor db fromMembershipId workspaceId directive target generalText) instance_) := by
  by_cases hlinked : Linked db workspaceId fromMembershipId instance_
  · rcases routeToInstance_linked env db
      (deliveryFor db fromMembershipId workspaceId directive target generalText) instance_ hlinked
      with ⟨e, h⟩ | ⟨seatId, passage, h⟩
    · rw [h]
      exact emits_throw e
    · rw [h]
      exact emits_texts_deliver env db _ _ _ _ _ _ _ _ htarget
  · obtain ⟨blocked, -, habout, hupto, -⟩ := routeToInstance_blocked env db
      (deliveryFor db fromMembershipId workspaceId directive target generalText) instance_ hlinked
    refine hupto.emits fun w hw => ?_
    rw [texts_of_not_isDelivery (mem_blockedLog habout w hw).2]
    simp

theorem routeToInstance_sends {instance_ : Instance} {r : MessageDeliveryResult}
    (htarget : directive.targetEntity = some target)
    (hr : (routeToInstance env db
      (deliveryFor db fromMembershipId workspaceId directive target generalText)
        instance_).result = .ok r) (hdelivered : r.delivered = true) :
    ∃ w ∈ (routeToInstance env db
        (deliveryFor db fromMembershipId workspaceId directive target generalText) instance_).log,
      w.texts = sentTexts directive generalText := by
  have hlinked := ((routeToInstance_gated env db _ instance_).2 r hr hdelivered).2
  rcases routeToInstance_linked env db _ instance_ hlinked with ⟨e, h⟩ | ⟨seatId, passage, h⟩
  · rw [h] at hr
    cases hr
  · rw [h] at hr ⊢
    exact logs_deliver env db _ _ _ _ _ _ _ _ htarget r hr

theorem emits_texts_routeMessage :
    Emits (fun w => ∀ s ∈ w.texts,
        directive.targetEntity.isSome = true ∧ s ∈ sentTexts directive generalText)
      (routeMessage env db fromMembershipId workspaceId directive generalText) := by
  rcases routeMessage_cases env db fromMembershipId workspaceId directive generalText with
    ⟨hlog, -, -⟩ | ⟨target, entity, htarget, -, hroute⟩
  · intro w hw
    rw [hlog] at hw
    cases hw
  · rw [hroute]
    refine Emits.collect fun i _ w hw s hs => ⟨by simp [htarget], ?_⟩
    exact emits_texts_routeToInstance env db _ _ _ _ _ i htarget w hw s hs

theorem routeMessage_sends {rs : List MessageDeliveryResult}
    (hrs : (routeMessage env db fromMembershipId workspaceId directive generalText).result = .ok rs)
    {r : MessageDeliveryResult} (hr : r ∈ rs) (hdelivered : r.delivered = true) :
    ∃ w ∈ (routeMessage env db fromMembershipId workspaceId directive generalText).log,
      w.texts = sentTexts directive generalText := by
  rcases routeMessage_cases env db fromMembershipId workspaceId directive generalText with
    ⟨-, hreturns, -⟩ | ⟨target, entity, htarget, -, hroute⟩
  · rw [hreturns rs hrs r hr] at hdelivered
    cases hdelivered
  · rw [hroute] at hrs ⊢
    obtain ⟨i, -, hres, hlog⟩ := mem_of_collect hrs hr
    obtain ⟨w, hw, hw'⟩ := routeToInstance_sends env db _ _ _ _ _ htarget hres hdelivered
    exact ⟨w, hlog w hw, hw'⟩

end Deliver

/-! Through the directives of a turn. -/

def Effect.isSilent (w : Effect) : Prop := w.texts = []

section Events

variable {p : Effect → Prop} (hp : ∀ e, p (.event e))

include hp

theorem emits_emit (e : Event) : Emits p (emit e) := emits_tell (hp e)

theorem emits_triggerIfDelivered (targetEntity : Option Entity) (workspaceId : Id)
    (r : MessageDeliveryResult) : Emits p (triggerIfDelivered targetEntity workspaceId r) := by
  unfold triggerIfDelivered
  split
  · split
    · exact emits_emit hp _
    · exact emits_pure ()
  · exact emits_pure ()

theorem emits_routeControlDirective (db : Db) (workspaceId : Id) (directive : Directive Char) :
    Emits p (routeControlDirective db workspaceId directive) := by
  have hset : ∀ instanceId newStatus eventType,
      Emits p (setLoopStatus db instanceId newStatus eventType) := fun _ _ _ =>
    (emits_ofExcept _).bind fun _ _ => (emits_emit hp _).bind fun _ _ => emits_pure _
  unfold routeControlDirective
  split
  · exact emits_pure _
  split
  · exact emits_pure _
  split
  · exact emits_pure _
  refine Emits.bind ?_ fun _ _ => emits_pure _
  unfold handleControl
  split
  · exact (hset _ _ _).bind fun _ _ => (emits_emit hp _).bind fun _ _ => emits_pure _
  split
  · exact hset _ _ _
  split
  · exact hset _ _ _
  · exact emits_pure _

theorem emits_routeLearningDirective (distill : Distiller) (db : Db) (directive : Directive Char)
    (fromUserId : Id) : Emits p (routeLearningDirective distill db directive fromUserId) := by
  unfold routeLearningDirective
  split
  · exact emits_pure _
  split
  · exact emits_pure _
  refine (emits_ofExcept _).bind fun created _ => ?_
  split
  · exact emits_pure _
  · exact (emits_emit hp _).bind fun _ _ => emits_pure _

end Events

theorem isSilent_event (e : Event) : (Effect.event e).isSilent := rfl

/-- Neither a control nor a learning command. -/
def isMessage (directive : Directive Char) : Bool :=
  !isControlCommand directive.cmd && !isLearningCommand directive.cmd

/-- A directive whose texts are sent where its target is delivered to. -/
def isAddressed (directive : Directive Char) : Bool :=
  isMessage directive && directive.targetEntity.isSome

section RouteDirective

variable (env : Nat → Surroundings) (distill : Distiller) (workspaceId fromUserId senderId : Id)
  (generalText : Option Str) (state : Nat × Db) (directive : Directive Char)

theorem emits_texts_routeDirective :
    Emits (fun w => ∀ s ∈ w.texts,
        isAddressed directive = true ∧ s ∈ sentTexts directive generalText)
      (routeDirective env distill workspaceId fromUserId senderId generalText state directive) := by
  have hsilent : ∀ w : Effect, w.isSilent → ∀ s ∈ w.texts,
      isAddressed directive = true ∧ s ∈ sentTexts directive generalText := by
    intro w hw s hs
    rw [show w.texts = [] from hw] at hs
    cases hs
  unfold routeDirective
  dsimp only
  split
  · exact ((emits_routeControlDirective isSilent_event _ _ _).mono hsilent).bind fun _ _ => emits_pure _
  rename_i hcontrol
  split
  · exact ((emits_routeLearningDirective isSilent_event _ _ _ _).mono hsilent).bind fun _ _ => emits_pure _
  rename_i hlearning
  refine Emits.bind ?_ fun _ _ => emits_pure _
  unfold routeToTarget
  dsimp only
  split
  · exact emits_pure _
  refine Emits.bind ?_ fun rs _ => Emits.bind ?_ fun _ _ => emits_pure _
  rotate_left
  · exact Emits.collect fun r _ => (emits_triggerIfDelivered isSilent_event _ _ r).mono hsilent
  refine (emits_texts_routeMessage _ _ _ _ _ _).mono fun w hw s hs => ⟨?_, (hw s hs).2⟩
  simp [isAddressed, isMessage, hcontrol, hlearning, (hw s hs).1]

theorem routeDirective_sends {r : DirectiveResult} {state' : Nat × Db}
    (hr : (routeDirective env distill workspaceId fromUserId senderId generalText state
      directive).result = .ok (r, state')) (hmessage : isMessage directive = true)
    {x : MessageDeliveryResult} (hx : x ∈ r.results) (hdelivered : x.delivered = true) :
    ∃ w ∈ (routeDirective env distill workspaceId fromUserId senderId generalText state
        directive).log, w.texts = sentTexts directive generalText := by
  simp only [isMessage, Bool.and_eq_true, Bool.not_eq_true'] at hmessage
  unfold routeDirective at hr ⊢
  simp only [hmessage.1, hmessage.2, Bool.false_eq_true, if_false] at hr ⊢
  obtain ⟨r', hr', hr⟩ := bind_eq_ok hr
  obtain ⟨rfl, -⟩ := Prod.mk.inj (Except.ok.inj hr)
  simp only [mem_log_bind hr']
  unfold routeToTarget at hr' ⊢
  dsimp only at hr' ⊢
  split at hr'
  · obtain rfl := Except.ok.inj hr'
    cases hx
  rename_i hinstance
  rw [if_neg hinstance]
  obtain ⟨rs, hrs, hr'⟩ := bind_eq_ok hr'
  obtain ⟨_, -, hr'⟩ := bind_eq_ok hr'
  obtain rfl := Except.ok.inj hr'
  obtain ⟨w, hw, hw'⟩ := routeMessage_sends (env state.1) state.2 _ _ _ _ hrs hx hdelivered
  exact ⟨w, .inl ((mem_log_bind hrs).mpr (.inl hw)), hw'⟩

end RouteDirective

/-- A recipient of the logged messages reads `s`. -/
def Occurs (log : List Effect) (s : Str) : Prop := ∃ w ∈ log, ∃ u ∈ w.texts, s <:+: u

/-- The results for the directives of a turn, where every target was delivered to. -/
def AllDelivered (turn : Turn Char) (results : List DirectiveResult) : Prop :=
  List.Forall₂ (fun d r => isAddressed d = true → ∃ x ∈ r.results, x.delivered = true)
    turn.directives results

theorem occurs_iff {env : Nat → Surroundings} {distill : Distiller} {db : Db} {rawText : Str}
    {workspaceId fromUserId : Id} {results : List DirectiveResult}
    (hresults : (routeTurn env distill db rawText workspaceId fromUserId).result = .ok results)
    (hdelivered : AllDelivered (Slash.Backend.parseTurn pythonText rawText) results) (s : Str) :
    Occurs (routeTurn env distill db rawText workspaceId fromUserId).log s ↔
      ∃ d ∈ (Slash.Backend.parseTurn pythonText rawText).directives, isAddressed d = true ∧
        ∃ u ∈ sentTexts d (Slash.Backend.parseTurn pythonText rawText).generalText, s <:+: u := by
  unfold routeTurn at hresults ⊢
  dsimp only at hresults ⊢
  cases hsender : findSender db workspaceId fromUserId with
  | none =>
    rw [hsender] at hresults
    obtain rfl := Except.ok.inj hresults
    have hnil := List.forall₂_nil_right_iff.mp hdelivered
    simp [hnil, Occurs, pure]
  | some sender =>
    rw [hsender] at hresults
    dsimp only at hresults ⊢
    constructor
    · rintro ⟨w, hw, u, hu, hsu⟩
      have hall : Emits (fun w => ∀ u ∈ w.texts,
          ∃ d ∈ (Slash.Backend.parseTurn pythonText rawText).directives, isAddressed d = true ∧
            u ∈ sentTexts d (Slash.Backend.parseTurn pythonText rawText).generalText)
          (mapAccum (routeDirective env distill workspaceId fromUserId sender.id
            (Slash.Backend.parseTurn pythonText rawText).generalText) (0, db)
              (Slash.Backend.parseTurn pythonText rawText).directives) := by
        refine Emits.mapAccum fun d hd state => ?_
        refine (emits_texts_routeDirective _ _ _ _ _ _ _ _).mono fun w hw u hu => ?_
        exact ⟨d, hd, hw u hu⟩
      obtain ⟨d, hd, haddressed, hsent⟩ := hall w hw u hu
      exact ⟨d, hd, haddressed, u, hsent, hsu⟩
    · rintro ⟨d, hd, haddressed, u, hu, hsu⟩
      obtain ⟨r, ⟨state, state', hr, hlog⟩, hx⟩ :=
        exists_of_forall₂ (forall₂_of_mapAccum hresults) hdelivered hd
      obtain ⟨x, hx, hxdelivered⟩ := hx haddressed
      have hmessage : isMessage d = true := by
        unfold isAddressed at haddressed
        exact (Bool.and_eq_true_iff.mp haddressed).1
      obtain ⟨w, hw, htexts⟩ := routeDirective_sends env distill workspaceId fromUserId sender.id
        _ state d hr hmessage hx hxdelivered
      exact ⟨w, hlog w hw, u, by rw [htexts]; exact hu, hsu⟩

/-- A command, and a mention without words, sends the general text. -/
theorem turnText_eq_generalText {d : Directive Char} {g : Str} (hg : Scan.Trimmed pythonText.isSpace g)
    (h : d.cmd ≠ [] ∨ d.args = []) : turnTextForDirective d (some g) = g := by
  have hstrip : pythonText.strip g = g := hg.strip
  unfold turnTextForDirective
  simp only [Option.getD_some, hstrip]
  by_cases hcmd : d.cmd = []
  · rcases h with h | hargs
    · exact absurd hcmd h
    · rw [if_neg (not_not.mpr hcmd), hargs]
      exact if_neg (not_not.mpr rfl)
  · rw [if_pos hcmd, if_pos hg.ne_nil]

/-- Where every target is delivered to, the words of a directive with a target are sent, and so
is the general text if a command or a mention without words is. -/
theorem routeTurn_conserves (env : Nat → Surroundings) (distill : Distiller) (db : Db)
    (rawText : Str) (workspaceId fromUserId : Id) (results : List DirectiveResult)
    (hresults : (routeTurn env distill db rawText workspaceId fromUserId).result = .ok results)
    (hdelivered : AllDelivered (Slash.Backend.parseTurn pythonText rawText) results) :
    (∀ d ∈ (Slash.Backend.parseTurn pythonText rawText).directives, isMessage d = true →
      d.targetEntity.isSome = true → ∀ a ∈ d.args,
        Occurs (routeTurn env distill db rawText workspaceId fromUserId).log a) ∧
    (∀ g, (Slash.Backend.parseTurn pythonText rawText).generalText = some g →
      (∃ d ∈ (Slash.Backend.parseTurn pythonText rawText).directives, isMessage d = true ∧
        d.targetEntity.isSome = true ∧ (d.cmd ≠ [] ∨ d.args = [])) →
        Occurs (routeTurn env distill db rawText workspaceId fromUserId).log g) := by
  have haddressed : ∀ d : Directive Char, isMessage d = true → d.targetEntity.isSome = true →
      isAddressed d = true := fun d hm ht => Bool.and_eq_true_iff.mpr ⟨hm, ht⟩
  constructor
  · intro d hd hmessage htarget a ha
    rw [occurs_iff hresults hdelivered]
    refine ⟨d, hd, haddressed d hmessage htarget, a, ?_, List.infix_rfl⟩
    simp [sentTexts, ha]
  · rintro g hg ⟨d, hd, hmessage, htarget, htakes⟩
    rw [occurs_iff hresults hdelivered]
    refine ⟨d, hd, haddressed d hmessage htarget, g, ?_, List.infix_rfl⟩
    have htrimmed := (Slash.parseTurn_wellFormed (A := pythonText) rawText).generalText g hg
    rw [hg, sentTexts, turnText_eq_generalText htrimmed htakes]
    simp

/-! A user whose seat is linked with an instance. -/

theorem linkedIds_nodup : ["m", "s"].Nodup := by decide

def linkedPassages : List Passage := [⟨"p", "w", "m", "s", true, "duplex", none, none⟩]

theorem linkedPassages_unique : Passage.UniqueActiveEdge linkedPassages := List.nodup_singleton _

def linkedDb : Db where
  workspaces := .single ⟨"w", "n", none⟩
  entities := .single ⟨"e", "n", ['a'], none⟩
  instances := .single ⟨"i", "e", "w", .running, none⟩
  memberships := ⟨[⟨"m", "w", some "u", none, none⟩, ⟨"s", "w", none, some "i", none⟩],
    linkedIds_nodup⟩
  passages := .single ⟨"p", "w", "m", "s", true, "duplex", none, none⟩
  loopStates := .empty
  uniqueActiveEdge := linkedPassages_unique

def routeLinked (rawText : String) : Routed (List DirectiveResult) :=
  routeTurn (fun _ => unlinkedSurroundings) (fun _ => .ok []) linkedDb rawText.toList "w" "u"

def deliveredResult (raw cmd : String) : DirectiveResult :=
  ⟨raw.toList, some ['a'], cmd.toList, [⟨['a'], true, none, some "i", some "i"⟩], [], "heuristic"⟩

theorem note_is_sent : Occurs (routeLinked "@a /x b\nnote").log ['b'] ∧
    Occurs (routeLinked "@a /x b\nnote").log "note".toList := by
  have h := routeTurn_conserves (fun _ => unlinkedSurroundings) (fun _ => .ok []) linkedDb
    "@a /x b\nnote".toList "w" "u" [deliveredResult "@a /x b" "/x"] (by decide +kernel)
    (by unfold AllDelivered; decide +kernel)
  refine ⟨h.1 ⟨some ['a'], "/x".toList, [['b']], none, "@a /x b".toList⟩ ?_ ?_ ?_ ['b'] ?_,
    h.2 "note".toList ?_ ?_⟩ <;> decide +kernel

/-- The words of a command without a target reach nobody, and where all that is delivered is
a mention with words, neither does the general text. -/
theorem bare_command_is_lost :
    (∃ results, (routeLinked "@a hi\n/x y\nnote").result = .ok results ∧
      AllDelivered (Slash.Backend.parseTurn pythonText "@a hi\n/x y\nnote".toList) results) ∧
    (∃ d ∈ (Slash.Backend.parseTurn pythonText "@a hi\n/x y\nnote".toList).directives,
      isMessage d = true ∧ ['y'] ∈ d.args) ∧
    ¬Occurs (routeLinked "@a hi\n/x y\nnote").log ['y'] ∧
    (Slash.Backend.parseTurn pythonText "@a hi\n/x y\nnote".toList).generalText =
      some "note".toList ∧
    ¬Occurs (routeLinked "@a hi\n/x y\nnote").log "note".toList := by
  have hresults : (routeLinked "@a hi\n/x y\nnote").result = .ok [deliveredResult "@a hi" "",
      ⟨"/x y".toList, none, "/x".toList, [], [], "heuristic"⟩] := by decide +kernel
  refine ⟨⟨_, hresults, by unfold AllDelivered; decide +kernel⟩, by decide +kernel, ?_,
    by decide +kernel, ?_⟩
  · unfold Occurs
    decide +kernel
  · unfold Occurs
    decide +kernel

end Eyot.Routing
