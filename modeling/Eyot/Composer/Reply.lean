import Eyot.Composer.Wire

/-! The reply of a turn, from `pi` over the host and its tunnel to the composer. -/

namespace Eyot.Composer

open PyStr (decode encode PairsWhole)
open Host (ChatBridge ChatRequest PiRpc Track Report beforeEnd readEvent reported tokensOf)

section Repr

variable (repr : Value → PyStr)

/-- A frame of the turn's host, by way of the hub. -/
def Turn.ingest (t : Turn) (f : Host.Frame) : Turn :=
  (route (.tunnel t.instanceId (wire f)) t).elim t (t.act repr)

/-- What is left of the terminal frame: its text is read, and then written. -/
def Turn.settle (t : Turn) : Turn :=
  (t.act repr (.task (.readBody 0))).act repr (.task (.write 0 false))

/-- A turn that is scheduled, and its request committed. -/
def Turn.answering (turnId requestId instanceId workspaceId : Id) (targetEntity text : PyStr) :
    Turn :=
  (Turn.scheduled turnId requestId instanceId workspaceId targetEntity text true).act repr .commit

/-- The turn after all of its frames that come through. -/
def Turn.answered (t : Turn) (lost : Nat → Bool) (fs : List Host.Frame) : Turn :=
  ((transmit lost fs).foldl (Turn.ingest repr) t).settle repr

end Repr

/-- A text is the reply that is kept, that the done frame has, and that is in the transcript. -/
structure Keeps (t : Turn) (s : PyStr) : Prop where
  replyText : t.replyText = s
  done : ∃ f, t.history.getLast? = some f ∧ f.type = .done ∧ f.text = some (.str s)
  row : t.row = .committed s .completed

/-- The frames the host sends for a request, while `pi` works on it. -/
def responses (pi : PiRpc) (r : ChatRequest) (evts : List Host.Value) : List Host.Frame :=
  ChatBridge.sends ⟨pi, some r.turn⟩ evts

/-- The text in the done frame of the host, if it is for the turn, is what the composer keeps, and
what `pi` has reported. -/
def Intact (repr : Value → PyStr) (t : Turn) (pi : PiRpc) (r : ChatRequest)
    (evts : List Host.Value) (lost : Nat → Bool) : Prop :=
  ∀ targetEntity text, .done r.turnId targetEntity text ∈ responses pi r evts →
    (wire (.done r.turnId targetEntity text)).frameFor? t.turnId ≠ none →
    Keeps (t.answered repr lost (responses pi r evts)) (decode text) ∧
      text = reported (evts.map readEvent)

/-- Every chunk comes through; the text at the end is what was streamed; no chunk ends inside a
surrogate pair, and the transcript can hold the text. -/
structure Whole (k : Track) (lost : Nat → Bool) : Prop where
  received : ∀ j < k.tokens.length, lost j = false
  joined : k.joined = true
  agrees : k.agrees = true
  pairs : PairsWhole k.tokens
  storable : (decode k.streamed).isStorable = true

/-- The frames before the last one add their tokens to the reply, and change nothing else. -/
structure Streamed (t t' : Turn) (s : PyStr) : Prop where
  turnId : t'.turnId = t.turnId
  replyText : t'.replyText = t.replyText ++ s
  endings : t'.endings = t.endings
  row : t'.row = t.row

theorem ingest_eq (repr : Value → PyStr) {t : Turn} {f : Host.Frame} (h : Names f.turnId t.turnId) :
    t.ingest repr f = t.receive repr ((wire f).hostFrame (frameType f)) := by
  rw [Turn.ingest, route, frameFor?_wire, if_pos h]
  rfl

theorem streamed_ingest (repr : Value → PyStr) {t : Turn} {f : Host.Frame}
    (h : Names f.turnId t.turnId) (hgoes : f.isTerminal = false) :
    Streamed t (t.ingest repr f) ((tokensOf [f]).map decode).flatten := by
  rw [ingest_eq repr h]
  cases f with
  | chunk turnId token targetEntity =>
    refine ⟨rfl, ?_, rfl, rfl⟩
    exact congrArg (t.replyText ++ ·) (List.append_nil _).symm
  | activity => exact ⟨rfl, (List.append_nil _).symm, rfl, rfl⟩
  | done => cases hgoes
  | error => cases hgoes

theorem Streamed.trans {t t' t'' : Turn} {s s' : PyStr} (h : Streamed t t' s)
    (h' : Streamed t' t'' s') : Streamed t t'' (s ++ s') where
  turnId := h'.turnId.trans h.turnId
  replyText := by rw [h'.replyText, h.replyText, List.append_assoc]
  endings := h'.endings.trans h.endings
  row := h'.row.trans h.row

theorem streamed_ingestAll (repr : Value → PyStr) {t : Turn} {fs : List Host.Frame}
    (h : ∀ f ∈ fs, Names f.turnId t.turnId ∧ f.isTerminal = false) :
    Streamed t (fs.foldl (Turn.ingest repr) t) ((tokensOf fs).map decode).flatten := by
  induction fs generalizing t with
  | nil => exact ⟨rfl, (List.append_nil _).symm, rfl, rfl⟩
  | cons f fs ih =>
    rw [List.forall_mem_cons] at h
    have hf := streamed_ingest repr h.1.1 h.1.2
    have hsplit : tokensOf (f :: fs) = tokensOf [f] ++ tokensOf fs :=
      Host.tokensOf_append [f] fs
    rw [hsplit, List.map_append, List.flatten_append]
    exact hf.trans (ih (by rw [hf.turnId]; exact h.2))

/-- What a done frame without a text makes of a turn, once it is written. -/
theorem settle_done (repr : Value → PyStr) {t : Turn} {h : HostFrame} (hdone : h.type = .done)
    (htext : h.text = none) (hendings : t.endings = []) (hrow : t.row = .committed [] .responding) :
    ((t.receive repr h).settle repr).replyText = t.replyText ∧
      (∃ f, ((t.receive repr h).settle repr).history.getLast? = some f ∧ f.type = .done ∧
        f.text = some (.str t.replyText)) ∧
      ((t.receive repr h).settle repr).row = if t.replyText.isStorable then
        .committed t.replyText .completed else .committed [] .responding := by
  have hreceive : t.receive repr h = t.receiveDone h := by rw [Turn.receive, hdone]
  have hreply : t.doneText h.text = t.replyText := by rw [htext]; rfl
  have hbody : ((t.receiveDone h).readBody 0).endings =
      [⟨.completed, none, some t.replyText⟩] := by
    have hreceived : (t.receiveDone h).endings = t.endings ++ [⟨.completed, none, none⟩] := rfl
    have hfinal : Turn.finalBody none (t.receiveDone h).replyText = t.replyText :=
      (Turn.finalBody_none _).trans hreply
    rw [← hfinal, Turn.readBody, hreceived, hendings]
    rfl
  have hsettle : (t.receive repr h).settle repr = ((t.receiveDone h).readBody 0).write 0 false := by
    rw [hreceive]
    rfl
  have hrow' : ((t.receiveDone h).readBody 0).row = .committed [] .responding := hrow
  rw [hsettle, Turn.write_zero hbody]
  refine ⟨hreply, ?_, ?_⟩
  · refine ⟨_, List.getLast?_concat, hdone, ?_⟩
    change some ((whenTrue h.text).getD (.str (t.doneText h.text))) = _
    rw [hreply, htext]
    rfl
  · by_cases hstorable : t.replyText.isStorable = true
    · rw [Turn.writing?_zero_eq_some hbody false hrow' ⟨rfl, hstorable⟩, if_pos hstorable]
      rfl
    · rw [Turn.writing?_zero_eq_none hbody false hrow' (fun hb => hstorable hb.2),
        if_neg hstorable]
      exact hrow'

/-- The done frame has no text that the hub hands on: what is kept is what was streamed. -/
theorem keeps_iff (repr : Value → PyStr) {t : Turn} {turnId : Units}
    (hname : Names turnId t.turnId) (hendings : t.endings = [])
    (hrow : t.row = .committed [] .responding) (targetEntity : Option Units) (text : Units)
    (s : PyStr) : Keeps ((t.ingest repr (.done turnId targetEntity text)).settle repr) s ↔
      t.replyText = s ∧ s.isStorable = true := by
  rw [ingest_eq repr (f := .done turnId targetEntity text) hname]
  obtain ⟨hreply, hhistory, hrow'⟩ := settle_done repr
    (h := (wire (.done turnId targetEntity text)).hostFrame .done) rfl
    (TunnelMessage.hostFrame_text _ _) hendings hrow
  constructor
  · intro h
    have hs : t.replyText = s := hreply.symm.trans h.replyText
    refine ⟨hs, ?_⟩
    by_contra hstorable
    have hc := hrow'.symm.trans h.row
    rw [hs, if_neg hstorable] at hc
    cases hc
  · rintro ⟨rfl, hstorable⟩
    rw [if_pos hstorable] at hrow'
    exact ⟨hreply, hhistory, hrow'⟩

theorem keeps_answered_iff (repr : Value → PyStr) {t : Turn} {turnId : Units}
    (hname : Names turnId t.turnId) (hreply : t.replyText = []) (hendings : t.endings = [])
    (hrow : t.row = .committed [] .responding) {fs : List Host.Frame}
    (hfs : ∀ f ∈ fs, f.turnId = turnId ∧ f.isTerminal = false) (targetEntity : Option Units)
    (text : Units) (lost : Nat → Bool) (s : PyStr) :
    Keeps (t.answered repr lost (fs ++ [.done turnId targetEntity text])) s ↔
      ((Lossy.kept lost (tokensOf fs)).map decode).flatten = s ∧ s.isStorable = true := by
  have hnames : ∀ f ∈ transmit lost fs, Names f.turnId t.turnId ∧ f.isTerminal = false := by
    intro f hf
    obtain ⟨hid, hgoes⟩ := hfs f ((transmit_sublist lost fs).subset hf)
    rw [hid]
    exact ⟨hname, hgoes⟩
  have hstream := streamed_ingestAll repr hnames
  have htext := hstream.replyText
  rw [hreply, List.nil_append, tokensOf_transmit] at htext
  rw [Turn.answered, transmit_append_terminal lost fs rfl, List.foldl_append, List.foldl_cons,
    List.foldl_nil, keeps_iff repr (by rwa [hstream.turnId]) (hstream.endings.trans hendings)
      (hstream.row.trans hrow), htext]

/-- The pieces that come through make the text of the done frame, and this is what `pi` has said. -/
theorem whole_iff {text said : Units} {k : Track} {lost : Nat → Bool}
    (h : Host.Finishes text said k) :
    (((Lossy.kept lost k.tokens).map decode).flatten = decode text ∧
        (decode text).isStorable = true) ∧ text = said ↔ Whole k lost := by
  constructor
  · rintro ⟨⟨hkept, hstorable⟩, hsaid⟩
    have hflatten : (Lossy.kept lost k.tokens).flatten = text := by
      rw [← PyStr.encode_decode_flatten, hkept, PyStr.encode_decode]
    have hall : Lossy.kept lost k.tokens = k.tokens := by
      apply Lossy.eq_of_length_flatten (Lossy.kept_sublist lost k.tokens) h.nonempty
      rw [hflatten]
      exact h.length
    rw [hall] at hflatten hkept
    have hjoined : k.joined = true := h.joined.mpr hflatten.symm
    refine ⟨Lossy.kept_eq_iff.mp hall, hjoined, (h.agrees hjoined).mpr hsaid, ?_, ?_⟩
    · rw [← hflatten] at hkept
      exact (PyStr.decode_flatten_iff h.nonempty).mp hkept
    · rwa [Track.streamed, hflatten]
  · intro hw
    have htext : text = k.streamed := h.joined.mp hw.joined
    refine ⟨⟨?_, by rw [htext]; exact hw.storable⟩, (h.agrees hw.joined).mp hw.agrees⟩
    rw [Lossy.kept_eq_iff.mpr hw.received, htext]
    exact (PyStr.decode_flatten_iff h.nonempty).mpr hw.pairs

theorem mem_responses {fs : List Host.Frame} {turnId text text' : Units}
    {targetEntity targetEntity' : Option Units} (h : ∀ f ∈ fs, f.isTerminal = false) :
    Host.Frame.done turnId targetEntity' text' ∈ fs ++ [.done turnId targetEntity text] ↔
      targetEntity' = targetEntity ∧ text' = text := by
  rw [List.mem_append, List.mem_singleton, Host.Frame.done.injEq]
  constructor
  · rintro (hmem | ⟨-, heq⟩)
    · cases h _ hmem
    · exact heq
  · intro heq
    exact .inr ⟨rfl, heq⟩

/-- The done frame of the host has the text that the composer keeps, and that `pi` has reported,
exactly if every chunk comes through, the text at the end of the run is what was streamed, no
chunk ends inside a surrogate pair, and the transcript can hold the text. -/
theorem reply_intact_iff (repr : Value → PyStr) (turnId requestId instanceId workspaceId : Id)
    (targetEntity text : PyStr) (pi : PiRpc) (r : ChatRequest) (evts : List Host.Value)
    (lost : Nat → Bool) :
    Intact repr (.answering repr turnId requestId instanceId workspaceId targetEntity text) pi r
        evts lost ↔
      ∀ before full, beforeEnd (evts.map readEvent) = some (before, full) →
        Names r.turnId turnId → Whole (Track.ofRun before full) lost := by
  set t := Turn.answering repr turnId requestId instanceId workspaceId targetEntity text
  have hsends : responses pi r evts = Host.frames r.turn (evts.map readEvent) :=
    Host.sends_active _ rfl evts
  rw [Intact, hsends]
  have hproper := Host.forall_map_readEvent evts
  cases hend : beforeEnd (evts.map readEvent) with
  | none =>
    refine iff_of_true ?_ ?_
    · intro targetEntity' text' hmem
      exact absurd hmem (Host.not_done_of_beforeEnd (Host.follows_start r) hproper hend _ _ _)
    · intro before full h
      cases h
  | some be =>
    obtain ⟨before, full⟩ := be
    obtain ⟨fs, whole, hframes, hfs, htokens, hfin⟩ := Host.frames_of_request r hproper hend
    have hiff : Names r.turnId turnId →
        (Keeps (t.answered repr lost (fs ++ [.done r.turnId r.targetEntity whole])) (decode whole) ∧
          whole = reported (evts.map readEvent) ↔ Whole (Track.ofRun before full) lost) := by
      intro hname
      rw [keeps_answered_iff repr hname rfl rfl rfl hfs, ← htokens, whole_iff hfin]
    rw [hframes]
    constructor
    · intro h before' full' hbe hname
      cases hbe
      exact (hiff hname).mp (h _ _ ((mem_responses fun f hf => (hfs f hf).2).mpr ⟨rfl, rfl⟩)
        (names_iff.mpr hname))
    · intro h targetEntity' text' hmem hfor
      obtain ⟨rfl, rfl⟩ := (mem_responses fun f hf => (hfs f hf).2).mp hmem
      have hname : Names r.turnId turnId := names_iff.mp hfor
      exact (hiff hname).mpr (h before full rfl hname)

/-- A run of `pi` that says one thing. -/
def greeting : List Host.Value :=
  [.obj [(units "type", .str (units "message_update")),
      (units "assistantMessageEvent",
        .obj [(units "type", .str (units "text_delta")), (units "delta", .str (units "hi"))])],
    .obj [(units "type", .str (units "agent_end"))]]

/-- The chunk is lost; the done frame has the text, but the composer keeps none. -/
theorem lostChunk_loses_reply : ¬ Intact (fun _ => [])
    (.answering (fun _ => []) "t" "r" "i" "w" (py "fox") (py "hello"))
    ⟨some 0, true, 1, [⟨0, units "t", units "hello"⟩]⟩ ⟨units "t", units "hello", none⟩ greeting
    fun _ => true := by
  intro h
  have hsent : ∀ pi, responses pi ⟨units "t", units "hello", none⟩ greeting =
      [.chunk (units "t") (units "hi") none, .done (units "t") none (units "hi")] :=
    fun _ => rfl
  rw [Intact, hsent] at h
  have hkeeps := (h none (units "hi") (by simp) (names_iff.mpr (by decide))).1.replyText
  exact absurd hkeeps (by decide)

end Eyot.Composer
