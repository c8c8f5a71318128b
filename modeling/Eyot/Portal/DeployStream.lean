import Eyot.Deploy.EventBus
import Eyot.Portal.ComposerStream

/-! The progress of a deploy from the event bus to the portal: the endpoint writes events of one
record down as server-sent events, and the client reads them back. -/

namespace Eyot.Deploy

open JsonDumps (dumps)

def SSEEvent.format (e : SSEEvent) : Str :=
  let id := match e.id with
    | some id => if id = [] then [] else ["id: ".toList ++ id]
    | none => []
  ['\n'].intercalate (id ++ ["event: ".toList ++ e.event, "data: ".toList ++ dumps (.obj e.data),
    []]) ++ ['\n']

def DEPLOY_PROGRESS : Str := "deploy_progress".toList

def SSEEvent.recordId? (e : SSEEvent) : Option PyStr :=
  ((Json.obj e.data).get? (py "record_id")).bind Json.asStr?

/-- How a wait for the queue ends, and whether the client is gone when that is asked for. -/
inductive Wait where
  | timeout (disconnected : Bool)
  | event (e : SSEEvent) (disconnected : Bool)

def Wait.event? : Wait → Option SSEEvent
  | .timeout _ => none
  | .event e _ => some e

inductive ProgressYield where
  | ping
  | progress (e : SSEEvent)

namespace ProgressYield

def event? : ProgressYield → Option SSEEvent
  | ping => none
  | progress e => some e

def text : ProgressYield → Str
  | ping => "event: ping\ndata: ".toList ++ dumps (.obj [(py "type", .str (py "ping"))]) ++
    "\n\n".toList
  | progress e => e.format

end ProgressYield

/-- `iter_deploy_sse`, over the waits of its loop. -/
def iterDeploySse (recordId : PyStr) : List Wait → List ProgressYield
  | [] => []
  | .timeout disconnected :: waits =>
    .ping :: if disconnected then [] else iterDeploySse recordId waits
  | .event e disconnected :: waits =>
    if e.recordId? ≠ some recordId then iterDeploySse recordId waits
    else .progress e :: if disconnected then [] else iterDeploySse recordId waits

end Eyot.Deploy

namespace Eyot.Portal

open Host (Value str?)
open Scan (Spelling)
open Run (exec Meets)
open JsonDumps (dumps inUnits ascii)
open Deploy

/-- A step has failed, or the last one is done. -/
def endsDeploy (frame : Value) : Bool :=
  str? (frame.member "status") = some (units "failed") ||
    ((frame.member "step").any fun step => match step with
      | .num t => t = units "9"
      | _ => false) &&
    str? (frame.member "status") = some (units "done")

section Reading

-- What the number of a numeral prints as.
variable (number : Units → Units)

def onDeployBlocks : List Units → List Value × Bool
  | [] => ([], false)
  | block :: blocks =>
    if blockData block = [] then onDeployBlocks blocks
    else
      match JsonParse.parse number (blockData block) with
      | none => onDeployBlocks blocks
      | some frame =>
        if endsDeploy frame then ([frame], true)
        else (frame :: (onDeployBlocks blocks).1, (onDeployBlocks blocks).2)

def readDeployChunks : TextDecoder → Units → List (List UInt8) → List Value × Bool
  | _, _, [] => ([], false)
  | d, buffer, chunk :: chunks =>
    let (text, d) := d.decode chunk
    let (parts, buffer) := splitBlocks (buffer ++ utf16.text text)
    match onDeployBlocks number parts with
    | (frames, true) => (frames, true)
    | (frames, false) =>
      (frames ++ (readDeployChunks d buffer chunks).1, (readDeployChunks d buffer chunks).2)

/-- The frames `onFrame` is called with, and whether the last of them ended the reading. -/
def streamDeployProgress (chunks : List (List UInt8)) : List Value × Bool :=
  readDeployChunks number .new [] chunks

theorem onDeployBlocks_append (as bs : List Units) : onDeployBlocks number (as ++ bs) =
    if (onDeployBlocks number as).2 then onDeployBlocks number as
    else ((onDeployBlocks number as).1 ++ (onDeployBlocks number bs).1,
      (onDeployBlocks number bs).2) := by
  induction as with
  | nil => rfl
  | cons block as ih =>
    rw [List.cons_append, onDeployBlocks, onDeployBlocks]
    split
    · exact ih
    · cases hparse : JsonParse.parse number (blockData block) with
      | none => exact ih
      | some frame =>
        dsimp only
        split
        · rfl
        · rw [ih]
          split
          · rfl
          · rfl

/-- The client calls back with the frames of the blocks of the whole text. -/
theorem readDeployChunks_eq (d : TextDecoder) {buffer : Units}
    (h : splitBlocks buffer = ([], buffer)) (chunks : List (List UInt8)) :
    readDeployChunks number d buffer chunks =
      onDeployBlocks number
        (splitBlocks (buffer ++ utf16.text (d.decode chunks.flatten).1)).1 := by
  induction chunks generalizing d buffer with
  | nil =>
    have hnil : (d.decode []).1 = [] := rfl
    rw [List.flatten_nil, hnil, Spelling.text_nil, List.append_nil, h]
    rfl
  | cons chunk chunks ih =>
    have hrest : ∀ l, splitBlocks (splitBlocks l).2 = ([], (splitBlocks l).2) :=
      fun l => blockFramer.cut_rest l
    rw [List.flatten_cons, d.decode_append, utf16.text_append, ← List.append_assoc,
      splitBlocks_append, onDeployBlocks_append, ← ih (d.decode chunk).2 (hrest _),
      readDeployChunks]
    cases hparts : onDeployBlocks number
        (splitBlocks (buffer ++ utf16.text (d.decode chunk).1)).1 with
    | mk frames ended =>
      cases ended with
      | true => simp only [hparts, if_true]
      | false => simp only [hparts, Bool.false_eq_true, if_false]

end Reading

/-! What the server writes. -/

def progressName : ProgressYield → Str
  | .ping => "ping".toList
  | .progress e => e.event

def progressMembers : ProgressYield → List (PyStr × Json PyStr)
  | .ping => [(py "type", .str (py "ping"))]
  | .progress e => e.data

/-- Named by a text in one line, without an id, and with JSON content. -/
structure Plain (e : SSEEvent) : Prop where
  id : e.id = none
  event : e.event.all JsonDumps.isPrintable = true
  data : JsonDumps.isJson (.obj e.data) = true

def PlainYield (y : ProgressYield) : Prop := ∀ e, y = .progress e → Plain e

variable {y : ProgressYield} {ys : List ProgressYield}

theorem printable_progressName (h : PlainYield y) :
    (progressName y).all JsonDumps.isPrintable = true := by
  cases y with
  | ping => rfl
  | progress e => exact (h e rfl).event

theorem isJson_progressMembers (h : PlainYield y) :
    JsonDumps.isJson (.obj (progressMembers y)) = true := by
  cases y with
  | ping => rfl
  | progress e => exact (h e rfl).data

def progressEventLine (y : ProgressYield) : Str := "event: ".toList ++ progressName y

def progressDataLine (y : ProgressYield) : Str := "data: ".toList ++ dumps (.obj (progressMembers y))

theorem ping_text : ProgressYield.ping.text =
    progressEventLine .ping ++ '\n' :: (progressDataLine .ping ++ ['\n', '\n']) := by
  decide +kernel

theorem format_text {e : SSEEvent} (hid : e.id = none) : e.format =
    ("event: ".toList ++ e.event) ++
      '\n' :: (("data: ".toList ++ dumps (.obj e.data)) ++ ['\n', '\n']) := by
  have hlines (a b : Str) : ['\n'].intercalate ([] ++ [a, b, []]) ++ ['\n'] =
      a ++ '\n' :: (b ++ ['\n', '\n']) := by
    simp [List.intercalate, List.intersperse]
  rw [SSEEvent.format, hid]
  exact hlines _ _

theorem progress_text (h : PlainYield y) :
    y.text = progressEventLine y ++ '\n' :: (progressDataLine y ++ ['\n', '\n']) := by
  cases y with
  | ping => exact ping_text
  | progress e => exact format_text (h e rfl).id

theorem printable_line {lead : Str} (hp : lead.all JsonDumps.isPrintable = true) {t : Str}
    (ht : t.all JsonDumps.isPrintable = true) : (lead ++ t).all JsonDumps.isPrintable = true := by
  rw [List.all_append, hp, ht]
  rfl

theorem printable_progressEventLine (h : PlainYield y) :
    (progressEventLine y).all JsonDumps.isPrintable = true :=
  printable_line (by decide +kernel) (printable_progressName h)

theorem printable_progressDataLine (h : PlainYield y) :
    (progressDataLine y).all JsonDumps.isPrintable = true :=
  printable_line (by decide +kernel) (JsonDumps.printable_dumps _ (isJson_progressMembers h))

theorem utf16_progress (h : PlainYield y) : utf16.text y.text =
    ascii (progressEventLine y) ++
      newline :: (ascii (progressDataLine y) ++ [newline, newline]) := by
  rw [progress_text h, utf16_ascii]
  · rw [JsonDumps.ascii_append, JsonDumps.ascii_cons, JsonDumps.ascii_append]
    rfl
  · intro c hc
    rw [List.mem_append, List.mem_cons, List.mem_append] at hc
    obtain hname | rfl | hdata | hend := hc
    · have := range_of_printable (printable_progressEventLine h) hname
      omega
    · decide
    · have := range_of_printable (printable_progressDataLine h) hdata
      omega
    · obtain rfl : c = '\n' := by simpa using hend
      decide

def progressBlock (y : ProgressYield) : Units :=
  ascii (progressEventLine y) ++ newline :: ascii (progressDataLine y)

theorem splitBlocks_progress (h : ∀ y ∈ ys, PlainYield y) :
    splitBlocks (utf16.text (ys.flatMap ProgressYield.text)) = (ys.map progressBlock, []) := by
  induction ys with
  | nil => rfl
  | cons y ys ih =>
    have hne : ascii (progressDataLine y) ≠ [] := List.cons_ne_nil _ _
    rw [List.forall_mem_cons] at h
    rw [List.flatMap_cons, utf16.text_append, utf16_progress h.1, List.append_assoc,
      List.cons_append, List.append_assoc, List.cons_append, List.cons_append, List.nil_append,
      splitBlocks_block (newline_not_mem (printable_progressEventLine h.1))
        (newline_not_mem (printable_progressDataLine h.1)) hne, ih h.2]
    rfl

theorem blockData_progress (h : PlainYield y) :
    blockData (progressBlock y) = ascii (dumps (.obj (progressMembers y))) := by
  have hname := not_is_newline (newline_not_mem (printable_progressEventLine h))
  have hdata := not_is_newline (newline_not_mem (printable_progressDataLine h))
  have hlines : portalText.lines (progressBlock y) =
      [ascii (progressEventLine y), ascii (progressDataLine y)] := by
    rw [Alphabet.lines, progressBlock, List.splitOnP_append_cons_of_forall_mem hname newline rfl,
      List.splitOnP_eq_singleton hdata]
  rw [blockData, hlines]
  change [] ++ ((ascii (dumps (.obj (progressMembers y)))) ++ []) = _
  rw [List.nil_append, List.append_nil]

section Reading

variable (number : Units → Units)

/-- What is yielded, as the client sees it. -/
def progressFrame (y : ProgressYield) : Value := inUnits number (.obj (progressMembers y))

/-- The frames up to the first that ends the deploy. -/
def upToEnd : List Value → List Value
  | [] => []
  | frame :: frames => if endsDeploy frame then [frame] else frame :: upToEnd frames

theorem onDeployBlocks_progress (h : ∀ y ∈ ys, PlainYield y) :
    onDeployBlocks number (ys.map progressBlock) =
      (upToEnd (ys.map (progressFrame number)), (ys.map (progressFrame number)).any endsDeploy) := by
  induction ys with
  | nil => rfl
  | cons y ys ih =>
    rw [List.forall_mem_cons] at h
    have hne : blockData (progressBlock y) ≠ [] := by
      rw [blockData_progress h.1]
      exact List.cons_ne_nil _ _
    have hparse : JsonParse.parse number (blockData (progressBlock y)) =
        some (progressFrame number y) := by
      rw [blockData_progress h.1]
      exact JsonDumps.parse_dumps number _ (isJson_progressMembers h.1)
    rw [List.map_cons, onDeployBlocks, if_neg hne, hparse]
    dsimp only
    rw [ih h.2, List.map_cons, upToEnd, List.any_cons]
    cases endsDeploy (progressFrame number y) with
    | true => rfl
    | false => rfl

end Reading

def progressStream (ys : List ProgressYield) : List UInt8 :=
  Utf8.encode (ys.flatMap ProgressYield.text)

theorem decode_progressStream (h : ∀ y ∈ ys, PlainYield y) :
    (TextDecoder.new.decode (progressStream ys)).1 = ys.flatMap ProgressYield.text := by
  have hfeed : Utf8.feed TextDecoder.new.decoder (progressStream ys) =
      (ys.flatMap ProgressYield.text, none) := Utf8.feed_encode _
  rw [TextDecoder.decode, hfeed]
  cases ys with
  | nil => rfl
  | cons y ys =>
    obtain ⟨text, htext⟩ : ∃ text, y.text = 'e' :: text :=
      ⟨_, progress_text (h y List.mem_cons_self)⟩
    rw [List.flatMap_cons, htext, List.cons_append]
    have hmark : ¬ ((!TextDecoder.new.begun && decide ('e' = '\uFEFF')) = true) := by decide
    dsimp only
    rw [if_neg hmark]

theorem streamDeployProgress_eq (number : Units → Units) (h : ∀ y ∈ ys, PlainYield y)
    {chunks : List (List UInt8)} (hchunks : chunks.flatten = progressStream ys) :
    streamDeployProgress number chunks =
      (upToEnd (ys.map (progressFrame number)),
        (ys.map (progressFrame number)).any endsDeploy) := by
  rw [streamDeployProgress, readDeployChunks_eq number .new rfl, hchunks,
    decode_progressStream h, List.nil_append, splitBlocks_progress h,
    onDeployBlocks_progress number h]

/-! From the bus to the client. -/

def isFor (recordId : PyStr) (e : SSEEvent) : Bool := e.recordId? = some recordId

/-- The endpoint yields the events of its record that it has read, up to where the client is
found to be gone. -/
theorem events_iterDeploySse (recordId : PyStr) (waits : List Wait) :
    (iterDeploySse recordId waits).filterMap ProgressYield.event? <+:
      (waits.filterMap Wait.event?).filter (isFor recordId) := by
  induction waits with
  | nil => exact List.prefix_refl []
  | cons wait waits ih =>
    cases wait with
    | timeout disconnected =>
      rw [iterDeploySse]
      cases disconnected with
      | true => exact List.nil_prefix
      | false => exact ih
    | event e disconnected =>
      rw [iterDeploySse, List.filterMap_cons]
      dsimp only [Wait.event?]
      by_cases he : e.recordId? = some recordId
      · have hfor : isFor recordId e = true := decide_eq_true he
        rw [if_neg (not_not.mpr he), List.filter_cons_of_pos hfor]
        cases disconnected with
        | true => exact List.cons_prefix_cons.mpr ⟨rfl, List.nil_prefix⟩
        | false => exact List.cons_prefix_cons.mpr ⟨rfl, ih⟩
      · rw [if_pos he, List.filter_cons_of_neg (by simpa [isFor] using he)]
        exact ih

theorem mem_iterDeploySse {recordId : PyStr} {waits : List Wait} {e : SSEEvent}
    (h : ProgressYield.progress e ∈ iterDeploySse recordId waits) :
    e ∈ waits.filterMap Wait.event? := by
  have hmem : e ∈ (iterDeploySse recordId waits).filterMap ProgressYield.event? :=
    List.mem_filterMap.mpr ⟨_, h, rfl⟩
  exact List.mem_of_mem_filter ((events_iterDeploySse recordId waits).subset hmem)

theorem mem_offered {q : Nat} {types : List Str} {is : List BusInput} {e : SSEEvent}
    (h : e ∈ Subscription.offered q types is) : .publish e ∈ is ∧ e.event ∈ types := by
  induction is with
  | nil => cases h
  | cons i is ih =>
    have hlater (h : e ∈ Subscription.offered q types is) :
        .publish e ∈ i :: is ∧ e.event ∈ types :=
      ⟨List.mem_cons_of_mem _ (ih h).1, (ih h).2⟩
    cases i with
    | publish e' =>
      rw [Subscription.offered] at h
      split at h
      · next htype =>
        obtain rfl | h := List.mem_cons.mp h
        · exact ⟨List.mem_cons_self, List.contains_iff_mem.mp htype⟩
        · exact hlater h
      · exact hlater h
    | createSubscription eventTypes => exact hlater h
    | cleanup q' =>
      rw [Subscription.offered] at h
      split at h
      · cases h
      · exact hlater h
    | get q' => exact hlater h

/-- What the portal is shown of a deploy: whatever else goes over the bus, however the reads of the
endpoint and the chunks of its response fall, the client calls back with a frame for each ping and
each event that the endpoint has yielded, up to the first that ends the deploy; the events are
among those published for the record while the endpoint was subscribed, in order, and if none of
the channel has found a hundred others waiting, they are the first of these. -/
theorem deploy_progress_shown (number : Units → Units) (before is : List BusInput)
    (recordId : PyStr) (waits : List Wait) (chunks : List (List UInt8))
    (hplain : ∀ e, .publish e ∈ is → e.event = DEPLOY_PROGRESS → Plain e)
    (hread : ∃ sub, (exec EventBus.step .initial
        (before ++ .createSubscription [DEPLOY_PROGRESS] :: is)).subscriptions[
          (exec EventBus.step .initial before).subscriptions.length]? = some sub ∧
      waits.filterMap Wait.event? = sub.taken)
    (hchunks : chunks.flatten = progressStream (iterDeploySse recordId waits)) :
    let q := (exec EventBus.step .initial before).subscriptions.length
    let ys := iterDeploySse recordId waits
    let published := (Subscription.offered q [DEPLOY_PROGRESS] is).filter (isFor recordId)
    streamDeployProgress number chunks =
        (upToEnd (ys.map (progressFrame number)),
          (ys.map (progressFrame number)).any endsDeploy) ∧
      (ys.filterMap ProgressYield.event?).Sublist published ∧
      (Meets (Subscription.react q) Subscription.Room (.fresh [DEPLOY_PROGRESS]) is →
        ys.filterMap ProgressYield.event? <+: published) := by
  intro q ys published
  obtain ⟨sub, hsub, htaken⟩ := hread
  have hbefore := EventBus.registered_exec EventBus.registered_initial before
  have hget := EventBus.getElem?_exec
    (EventBus.registered_step hbefore (.createSubscription [DEPLOY_PROGRESS]))
    (EventBus.getElem?_create _ [DEPLOY_PROGRESS]) is
  rw [Run.exec_append, exec] at hsub
  obtain rfl := Option.some.inj (hget.symm.trans hsub)
  obtain ⟨kept, hkept, hsublist, hiff⟩ :=
    Subscription.received_exec q (Subscription.open_fresh [DEPLOY_PROGRESS]) is
  have htypes : (Subscription.fresh [DEPLOY_PROGRESS]).registeredEventTypes =
      [DEPLOY_PROGRESS] := rfl
  rw [htypes] at hsublist hiff
  -- What has been read is the first part of what has come in.
  have hfirst : waits.filterMap Wait.event? <+: kept := by
    rw [htaken]
    exact ⟨_, hkept⟩
  have hyielded := (events_iterDeploySse recordId waits).trans (hfirst.filter (isFor recordId))
  refine ⟨?_, ?_, ?_⟩
  · refine streamDeployProgress_eq number ?_ hchunks
    rintro y hy e rfl
    have hoffered := hsublist.subset (hfirst.subset (mem_iterDeploySse hy))
    obtain ⟨hpublished, htype⟩ := mem_offered hoffered
    exact hplain e hpublished (List.mem_singleton.mp htype)
  · exact hyielded.sublist.trans (hsublist.filter _)
  · intro hroom
    rw [hiff.mpr hroom] at hyielded
    exact hyielded

/-- The end of a deploy. -/
def lastDone : SSEEvent where
  event := DEPLOY_PROGRESS
  data := [(py "record_id", .str (py "r")), (py "step", .num (py "9")),
    (py "status", .str (py "done"))]
  id := none

theorem plain_lastDone : Plain lastDone := ⟨rfl, by decide +kernel, by decide +kernel⟩

theorem deploy_progress_shown_last :
    let ys := iterDeploySse (py "r") [.event lastDone false]
    streamDeployProgress id [progressStream ys] =
      (upToEnd (ys.map (progressFrame id)), (ys.map (progressFrame id)).any endsDeploy) := by
  have hplain : ∀ e, .publish e ∈ [BusInput.publish lastDone, .get 0] →
      e.event = DEPLOY_PROGRESS → Plain e := by
    intro e he _
    obtain he | he := List.mem_cons.mp he
    · obtain rfl := BusInput.publish.inj he
      exact plain_lastDone
    · cases List.mem_singleton.mp he
  exact (deploy_progress_shown id [] [.publish lastDone, .get 0] (py "r") [.event lastDone false]
    [progressStream _] hplain ⟨_, rfl, rfl⟩ (List.append_nil _)).1

end Eyot.Portal
