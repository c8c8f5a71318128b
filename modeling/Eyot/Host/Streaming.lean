import Eyot.Host.ChatBridge

/-! The text of a turn on its way out of the host: in chunks as `pi` reports it, and whole in
the done frame. -/

namespace Eyot.Host

/-- What the bridge sends for the events of `pi`, one after the other. -/
def ChatBridge.sends : ChatBridge → List Value → List Frame
  | _, [] => []
  | bridge, evt :: evts => (bridge.onPiEvent evt).1 ++ (bridge.onPiEvent evt).2.sends evts

def frames : ActiveTurn → List Report → List Frame
  | _, [] => []
  | turn, report :: reports =>
    (react turn report).1 ++ (react turn report).2.elim [] fun turn => frames turn reports

theorem sends_idle {bridge : ChatBridge} (h : bridge.active = none) (evts : List Value) :
    bridge.sends evts = [] := by
  induction evts with
  | nil => rfl
  | cons evt evts ih =>
    have hstep : bridge.onPiEvent evt = ([], bridge) := by
      rw [ChatBridge.onPiEvent, h]
    rw [ChatBridge.sends, hstep]
    exact ih

theorem sends_active (bridge : ChatBridge) {turn : ActiveTurn} (h : bridge.active = some turn)
    (evts : List Value) : bridge.sends evts = frames turn (evts.map readEvent) := by
  induction evts generalizing bridge turn with
  | nil => rfl
  | cons evt evts ih =>
    have hstep : bridge.onPiEvent evt = ((react turn (readEvent evt)).1,
        { bridge with active := (react turn (readEvent evt)).2 }) := by
      rw [ChatBridge.onPiEvent, h]
    rw [ChatBridge.sends, hstep, List.map_cons, frames]
    cases hr : (react turn (readEvent evt)).2 with
    | none => exact congrArg _ (sends_idle rfl evts)
    | some turn' => exact congrArg _ (ih _ rfl)

/-- The reports up to the end of the run, and the text that comes with it; a run that fails
has none. -/
def beforeEnd : List Report → Option (List Report × Units)
  | [] => none
  | .failed _ :: _ => none
  | .agentEnd full :: _ => some ([], full)
  | report :: reports => (beforeEnd reports).map fun r => (report :: r.1, r.2)

/-- The text of the assistant as `pi` has told it so far. -/
def Report.tell (said : Units) : Report → Units
  | .textDelta delta => said ++ delta
  | .fullText full | .agentEnd full => if full = [] then said else full
  | .failed _ | .activity .. | .silent => said

/-- The text of the assistant when the run ends. -/
def reported (reports : List Report) : Units :=
  (beforeEnd reports).elim [] fun r => Report.tell (r.1.foldl Report.tell []) (.agentEnd r.2)

def Frame.token? : Frame → Option Units
  | .chunk _ token _ => some token
  | _ => none

def tokensOf (fs : List Frame) : List Units := fs.filterMap Frame.token?

/-- What is streamed: the tokens; whether the last full text that was longer than all before it
began with that; and whether the last full text that was not longer was the same. -/
structure Track where
  tokens : List Units
  joined : Bool
  agrees : Bool

namespace Track

def streamed (k : Track) : Units := k.tokens.flatten

def start : Track := ⟨[], true, true⟩

def step (k : Track) : Report → Track
  | .textDelta delta => { k with tokens := k.tokens ++ [delta] }
  | .fullText full =>
    if full.length > k.streamed.length then
      ⟨k.tokens ++ [full.drop k.streamed.length], k.streamed.isPrefixOf full, true⟩
    else if full = [] then k
    else { k with agrees := full = k.streamed }
  | _ => k

/-- The text at the end of the run is only streamed where nothing else was. -/
def finish (k : Track) (full : Units) : Track :=
  if full = [] then k
  else if k.tokens = [] then ⟨[full], true, true⟩
  else { k with agrees := full = k.streamed }

def ofRun (reports : List Report) (full : Units) : Track := (reports.foldl step start).finish full

end Track

/-- How the active turn and what `pi` has said stand to what is streamed. -/
structure Follows (turn : ActiveTurn) (said : Units) (k : Track) : Prop where
  length : turn.replyText.length = k.streamed.length
  saw : turn.sawText = true ↔ k.tokens ≠ []
  nonempty : ∀ token ∈ k.tokens, token ≠ []
  joined : k.joined = true ↔ turn.replyText = k.streamed
  agrees : k.joined = true → (k.agrees = true ↔ turn.replyText = said)

def Report.isTerminal : Report → Bool
  | .failed _ | .agentEnd _ => true
  | _ => false

/-- No delta is empty. -/
def Report.isProper : Report → Bool
  | .textDelta delta => delta ≠ []
  | _ => true

theorem Track.streamed_append (tokens : List Units) (token : Units) (joined agrees : Bool) :
    (⟨tokens ++ [token], joined, agrees⟩ : Track).streamed = tokens.flatten ++ token := by
  rw [Track.streamed, List.flatten_append, List.flatten_singleton]

theorem eq_append_drop_iff {s full : Units} :
    full = s ++ full.drop s.length ↔ s.isPrefixOf full = true := by
  rw [List.isPrefixOf_iff_prefix, List.prefix_iff_eq_append, eq_comm]

theorem follows_start (r : ChatRequest) : Follows r.turn [] .start where
  length := rfl
  saw := by simp [ChatRequest.turn, Track.start]
  nonempty := List.forall_mem_nil _
  joined := iff_of_true rfl rfl
  agrees _ := iff_of_true rfl rfl

theorem Follows.textDelta {turn : ActiveTurn} {said : Units} {k : Track} (h : Follows turn said k)
    {delta : Units} (hd : delta ≠ []) :
    Follows { turn with sawText := true, replyText := turn.replyText ++ delta } (said ++ delta)
      { k with tokens := k.tokens ++ [delta] } where
  length := by
    rw [Track.streamed_append, List.length_append, List.length_append, h.length, Track.streamed]
  saw := by simp
  nonempty := by
    rw [List.forall_mem_append, List.forall_mem_singleton]
    exact ⟨h.nonempty, hd⟩
  joined := by
    rw [Track.streamed_append, List.append_left_inj]
    exact h.joined
  agrees hj := by
    rw [List.append_left_inj]
    exact h.agrees hj

theorem Follows.longer {turn : ActiveTurn} {said : Units} {k : Track} (h : Follows turn said k)
    {full : Units} (hlen : full.length > k.streamed.length) :
    Follows { turn with sawText := true, replyText := full } full
      ⟨k.tokens ++ [full.drop k.streamed.length], k.streamed.isPrefixOf full, true⟩ where
  length := by
    rw [Track.streamed_append, ← Track.streamed, List.length_append, List.length_drop]
    exact (Nat.add_sub_cancel' (Nat.le_of_lt hlen)).symm
  saw := by simp
  nonempty := by
    rw [List.forall_mem_append, List.forall_mem_singleton]
    refine ⟨h.nonempty, ?_⟩
    rw [← List.length_pos_iff, List.length_drop]
    exact Nat.sub_pos_of_lt hlen
  joined := by
    rw [Track.streamed_append]
    exact eq_append_drop_iff.symm
  agrees _ := iff_of_true rfl rfl

/-- A full text that the bridge does not take over. -/
theorem Follows.notTaken {turn : ActiveTurn} {said : Units} {k : Track} (h : Follows turn said k)
    (full : Units) : Follows turn full { k with agrees := full = k.streamed } where
  length := h.length
  saw := h.saw
  nonempty := h.nonempty
  joined := h.joined
  agrees hj := by
    rw [h.joined.mp hj, decide_eq_true_eq]
    exact eq_comm

/-- What the bridge makes of a report that does not end the run. -/
structure Reacts (turn : ActiveTurn) (said : Units) (k : Track) (report : Report) (fs : List Frame)
    (turn' : ActiveTurn) : Prop where
  react : react turn report = (fs, some turn')
  follows : Follows turn' (report.tell said) (k.step report)
  tokens : (k.step report).tokens = k.tokens ++ tokensOf fs
  frames : ∀ f ∈ fs, f.turnId = turn.turnId ∧ f.isTerminal = false
  turnId : turn'.turnId = turn.turnId
  targetEntity : turn'.targetEntity = turn.targetEntity

theorem Follows.reacts {turn : ActiveTurn} {said : Units} {k : Track} (h : Follows turn said k)
    {report : Report} (hgoes : report.isTerminal = false) (hproper : report.isProper = true) :
    ∃ fs turn', Reacts turn said k report fs turn' := by
  have hsilent : ∀ report : Report, Host.react turn report = ([], some turn) →
      Follows turn (report.tell said) (k.step report) → (k.step report).tokens = k.tokens →
      ∃ fs turn', Reacts turn said k report fs turn' := by
    intro report hreact hfollows htokens
    exact ⟨[], turn, hreact, hfollows, htokens.trans (List.append_nil _).symm,
      List.forall_mem_nil _, rfl, rfl⟩
  cases report with
  | failed message => cases hgoes
  | agentEnd full => cases hgoes
  | silent => exact hsilent .silent rfl h rfl
  | textDelta delta =>
    exact ⟨_, _, rfl, h.textDelta (of_decide_eq_true hproper), rfl,
      List.forall_mem_singleton.mpr ⟨rfl, rfl⟩, rfl, rfl⟩
  | activity kind status toolName delta =>
    exact ⟨[.activity turn.turnId kind status toolName delta turn.targetEntity], turn, rfl, h,
      (List.append_nil _).symm, List.forall_mem_singleton.mpr ⟨rfl, rfl⟩, rfl, rfl⟩
  | fullText full =>
    by_cases hlen : full.length > k.streamed.length
    · have hne : full ≠ [] := List.ne_nil_of_length_pos (Nat.zero_lt_of_lt hlen)
      refine ⟨[turn.chunk (full.drop k.streamed.length)],
        { turn with sawText := true, replyText := full }, ?_, ?_, ?_,
        List.forall_mem_singleton.mpr ⟨rfl, rfl⟩, rfl, rfl⟩
      · rw [Host.react, if_pos (by rwa [h.length]), h.length]
      · rw [Report.tell, if_neg hne, Track.step, if_pos hlen]
        exact h.longer hlen
      · rw [Track.step, if_pos hlen]
        rfl
    · have hreact : Host.react turn (.fullText full) = ([], some turn) := by
        rw [Host.react, if_neg (by rwa [h.length])]
      by_cases hne : full = []
      · apply hsilent _ hreact
        · rw [Report.tell, if_pos hne, Track.step, if_neg hlen, if_pos hne]
          exact h
        · rw [Track.step, if_neg hlen, if_pos hne]
      · apply hsilent _ hreact
        · rw [Report.tell, if_neg hne, Track.step, if_neg hlen, if_neg hne]
          exact h.notTaken full
        · rw [Track.step, if_neg hlen, if_neg hne]

/-- How the text of the done frame stands to what is streamed, and to what `pi` has said. -/
structure Finishes (text said : Units) (k : Track) : Prop where
  length : text.length = k.streamed.length
  nonempty : ∀ token ∈ k.tokens, token ≠ []
  joined : k.joined = true ↔ text = k.streamed
  agrees : k.joined = true → (k.agrees = true ↔ text = said)

theorem Follows.finishes {turn : ActiveTurn} {said : Units} {k : Track} (h : Follows turn said k) :
    Finishes turn.replyText said k := ⟨h.length, h.nonempty, h.joined, h.agrees⟩

/-- The end of a run: what has not been streamed is, and the done frame has the text. -/
theorem Follows.agentEnd {turn : ActiveTurn} {said : Units} {k : Track} (h : Follows turn said k)
    (full : Units) : ∃ fs text,
      react turn (.agentEnd full) = (fs ++ [.done turn.turnId turn.targetEntity text], none) ∧
      (∀ f ∈ fs, f.turnId = turn.turnId ∧ f.isTerminal = false) ∧
      (k.finish full).tokens = k.tokens ++ tokensOf fs ∧
      Finishes text (Report.tell said (.agentEnd full)) (k.finish full) := by
  by_cases hne : full = []
  · refine ⟨[], turn.replyText, ?_, List.forall_mem_nil _, ?_, ?_⟩
    · rw [react, if_neg (by simp [hne])]
      rfl
    · rw [Track.finish, if_pos hne]
      exact (List.append_nil _).symm
    · rw [Track.finish, if_pos hne, Report.tell, if_pos hne]
      exact h.finishes
  · by_cases htokens : k.tokens = []
    · have hsaw : turn.sawText = false := by
        rw [← Bool.not_eq_true, h.saw]
        exact not_not_intro htokens
      refine ⟨[turn.chunk full], full, ?_, List.forall_mem_singleton.mpr ⟨rfl, rfl⟩, ?_, ?_⟩
      · rw [react, if_pos (by simp [hsaw, hne])]
        rfl
      · rw [Track.finish, if_neg hne, if_pos htokens, htokens]
        rfl
      · rw [Track.finish, if_neg hne, if_pos htokens, Report.tell, if_neg hne]
        have hstreamed : (⟨[full], true, true⟩ : Track).streamed = full :=
          List.flatten_singleton
        exact ⟨by rw [hstreamed], List.forall_mem_singleton.mpr hne,
          iff_of_true rfl hstreamed.symm, fun _ => iff_of_true rfl rfl⟩
    · have hsaw : turn.sawText = true := h.saw.mpr htokens
      refine ⟨[], turn.replyText, ?_, List.forall_mem_nil _, ?_, ?_⟩
      · rw [react, if_neg (by simp [hsaw])]
        rfl
      · rw [Track.finish, if_neg hne, if_neg htokens]
        exact (List.append_nil _).symm
      · rw [Track.finish, if_neg hne, if_neg htokens, Report.tell, if_neg hne]
        exact (h.notTaken full).finishes

theorem tokensOf_append (fs gs : List Frame) : tokensOf (fs ++ gs) = tokensOf fs ++ tokensOf gs :=
  List.filterMap_append

theorem beforeEnd_cons {report : Report} (h : report.isTerminal = false) (reports : List Report) :
    beforeEnd (report :: reports) = (beforeEnd reports).map fun r => (report :: r.1, r.2) := by
  cases report with
  | failed message => cases h
  | agentEnd full => cases h
  | _ => rfl

/-- A run that ends sends its tokens and activities, and then the done frame. -/
theorem frames_of_beforeEnd {turn : ActiveTurn} {said : Units} {k : Track}
    (h : Follows turn said k) {reports before : List Report} {full : Units}
    (hproper : ∀ report ∈ reports, report.isProper = true)
    (hend : beforeEnd reports = some (before, full)) : ∃ fs text,
      frames turn reports = fs ++ [.done turn.turnId turn.targetEntity text] ∧
      (∀ f ∈ fs, f.turnId = turn.turnId ∧ f.isTerminal = false) ∧
      ((before.foldl Track.step k).finish full).tokens = k.tokens ++ tokensOf fs ∧
      Finishes text (Report.tell (before.foldl Report.tell said) (.agentEnd full))
        ((before.foldl Track.step k).finish full) := by
  induction reports generalizing turn said k before with
  | nil => cases hend
  | cons report reports ih =>
    rw [List.forall_mem_cons] at hproper
    cases hterminal : report.isTerminal with
    | false =>
      obtain ⟨fs, turn', hr⟩ := h.reacts hterminal hproper.1
      rw [beforeEnd_cons hterminal, Option.map_eq_some_iff] at hend
      obtain ⟨⟨before', full'⟩, hend', heq⟩ := hend
      obtain ⟨rfl, rfl⟩ := Prod.mk.inj heq
      obtain ⟨gs, text, hframes, hgs, htokens, hfin⟩ := ih hr.follows hproper.2 hend'
      refine ⟨fs ++ gs, text, ?_, ?_, ?_, hfin⟩
      · rw [frames, hr.react, Option.elim_some, hframes, hr.turnId, hr.targetEntity,
          List.append_assoc]
      · rw [List.forall_mem_append]
        rw [hr.turnId] at hgs
        exact ⟨hr.frames, hgs⟩
      · rw [List.foldl_cons, htokens, hr.tokens, tokensOf_append, List.append_assoc]
    | true =>
      cases report with
      | agentEnd full' =>
        obtain ⟨rfl, rfl⟩ := Prod.mk.inj (Option.some.inj hend)
        obtain ⟨fs, text, hreact, hfs, htokens, hfin⟩ := h.agentEnd full'
        refine ⟨fs, text, ?_, hfs, htokens, hfin⟩
        rw [frames, hreact]
        exact List.append_nil _
      | failed message => cases hend
      | _ => cases hterminal

/-- A run that does not end sends no done frame. -/
theorem not_done_of_beforeEnd {turn : ActiveTurn} {said : Units} {k : Track}
    (h : Follows turn said k) {reports : List Report}
    (hproper : ∀ report ∈ reports, report.isProper = true) (hend : beforeEnd reports = none)
    (turnId : Units) (targetEntity : Option Units) (text : Units) :
    Frame.done turnId targetEntity text ∉ frames turn reports := by
  induction reports generalizing turn said k with
  | nil => exact List.not_mem_nil
  | cons report reports ih =>
    rw [List.forall_mem_cons] at hproper
    cases hterminal : report.isTerminal with
    | false =>
      obtain ⟨fs, turn', hr⟩ := h.reacts hterminal hproper.1
      rw [beforeEnd_cons hterminal, Option.map_eq_none_iff] at hend
      rw [frames, hr.react, Option.elim_some, List.mem_append, not_or]
      refine ⟨fun hmem => ?_, ih hr.follows hproper.2 hend⟩
      cases (hr.frames _ hmem).2
    | true =>
      cases report with
      | failed message =>
        intro hmem
        cases List.mem_singleton.mp hmem
      | agentEnd full => cases hend
      | _ => cases hterminal

/-- The frames for a request, if its run ends. -/
theorem frames_of_request (r : ChatRequest) {reports before : List Report} {full : Units}
    (hproper : ∀ report ∈ reports, report.isProper = true)
    (hend : beforeEnd reports = some (before, full)) : ∃ fs text,
      frames r.turn reports = fs ++ [.done r.turnId r.targetEntity text] ∧
      (∀ f ∈ fs, f.turnId = r.turnId ∧ f.isTerminal = false) ∧
      (Track.ofRun before full).tokens = tokensOf fs ∧
      Finishes text (reported reports) (Track.ofRun before full) := by
  have hreported : reported reports =
      Report.tell (before.foldl Report.tell []) (.agentEnd full) := by
    rw [reported, hend]
    rfl
  rw [hreported]
  exact frames_of_beforeEnd (follows_start r) hproper hend

/-! An event of `pi` reports no empty delta. -/

theorem isProper_ite {c : Prop} [Decidable c] {a b : Report} (ha : c → a.isProper = true)
    (hb : b.isProper = true) : (if c then a else b).isProper = true := by
  by_cases hc : c
  · rw [if_pos hc]
    exact ha hc
  · rwa [if_neg hc]

theorem readResponse_isProper (evt : Value) : (readResponse evt).isProper = true := by
  apply isProper_ite fun _ => rfl
  split <;> rfl

theorem readMessageUpdate_isProper (evt : Value) : (readMessageUpdate evt).isProper = true := by
  refine isProper_ite (fun h => ?_) ?_
  · obtain ⟨delta, hdelta, hne⟩ := (Option.any_eq_true _ _).mp (Bool.and_eq_true_iff.mp h).2
    rw [hdelta]
    exact hne
  · iterate 6 refine isProper_ite (fun _ => rfl) ?_
    rfl

theorem readToolExecution_isProper (evt : Value) (status : ActivityStatus)
    (delta : Option Units) : (readToolExecution evt status delta).isProper = true := by
  unfold readToolExecution
  split <;> rfl

theorem readError_isProper (evt : Value) : (readError evt).isProper = true := by
  unfold readError
  split <;> rfl

theorem readEvent_isProper (evt : Value) : (readEvent evt).isProper = true := by
  refine isProper_ite (fun _ => readResponse_isProper evt) ?_
  refine isProper_ite (fun _ => readMessageUpdate_isProper evt) ?_
  refine isProper_ite (fun _ => rfl) ?_
  iterate 3 refine isProper_ite (fun _ => readToolExecution_isProper evt _ _) ?_
  refine isProper_ite (fun _ => rfl) ?_
  exact isProper_ite (fun _ => readError_isProper evt) rfl

theorem forall_map_readEvent (evts : List Value) :
    ∀ report ∈ evts.map readEvent, report.isProper = true :=
  List.forall_mem_map.mpr fun evt _ => readEvent_isProper evt

end Eyot.Host
