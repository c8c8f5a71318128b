import Eyot.Composer.Turn
import Eyot.Data.JsonDumps
import Eyot.Library.Framing
import Eyot.Library.Utf8

/-! What `composer_stream` writes down for its client: frames as server-sent events. -/

namespace Eyot.Composer

open JsonDumps (dumps)

/-- Beside the frames of the turn, the status it finds and a ping for each silence. -/
inductive Yielded where
  | frame (f : Frame)
  | status (st : TurnStatus) (turnId : Id)
  | ping

def given (key : String) (v : Option Value) : List (PyStr × Value) :=
  v.toList.map fun v => (py key, v)

def Frame.members (f : Frame) : List (PyStr × Value) :=
  [(py "type", .str (py f.type.value)), (py "turn_id", .str (py f.turnId)),
    (py "instance_id", .str (py f.instanceId)), (py "target_entity", f.targetEntity)] ++
    given "token" f.token ++ given "message" f.message ++ given "kind" f.kind ++
    given "tool_name" f.toolName ++ given "delta" f.delta ++
    given "finish_reason" f.finishReason ++ given "status" f.status ++ given "text" f.text

namespace Yielded

def members : Yielded → List (PyStr × Value)
  | frame f => f.members
  | status st turnId =>
    [(py "type", .str (py "composer.turn.status")), (py "status", Turn.statusText st),
      (py "turn_id", .str (py turnId))]
  | ping => [(py "type", .str (py "ping"))]

def eventName : Yielded → Str
  | frame f => f.type.value.toList.map fun c => if c = '.' then '_' else c
  | status .. => "status".toList
  | ping => "ping".toList

def event (y : Yielded) : Str :=
  "event: ".toList ++ y.eventName ++ "\ndata: ".toList ++ dumps (.obj y.members) ++ "\n\n".toList

def isTerminal : Yielded → Bool
  | frame f => f.type.isTerminal
  | status .. | ping => false

/-- What came from the host, or from a model, is JSON content. -/
def isJson : Yielded → Bool
  | frame f => JsonDumps.isJson f.targetEntity &&
      [f.token, f.message, f.kind, f.toolName, f.delta, f.finishReason, f.status, f.text].all
        fun v => v.all JsonDumps.isJson
  | status .. | ping => true

end Yielded

/-- The bytes of a response. -/
def eventStream (ys : List Yielded) : List UInt8 := Utf8.encode (ys.flatMap Yielded.event)

theorem keys_given (key : String) (v : Option Value) :
    ((given key v).map fun kv => PyStr.encode kv.1).Sublist [PyStr.encode (py key)] := by
  cases v with
  | none => exact List.nil_sublist _
  | some v => exact List.Sublist.refl _

theorem isJsonMembers_append (kvs lws : List (PyStr × Value)) :
    JsonDumps.isJsonMembers (kvs ++ lws) =
      (JsonDumps.isJsonMembers kvs && JsonDumps.isJsonMembers lws) := by
  induction kvs with
  | nil => rfl
  | cons kv kvs ih => rw [List.cons_append, JsonDumps.isJsonMembers, ih, JsonDumps.isJsonMembers,
      Bool.and_assoc]

theorem isJsonMembers_given (key : String) (v : Option Value) :
    JsonDumps.isJsonMembers (given key v) = v.all JsonDumps.isJson := by
  cases v with
  | none => rfl
  | some v => exact Bool.and_true _

theorem Frame.keys_nodup (f : Frame) : (f.members.map fun kv => PyStr.encode kv.1).Nodup := by
  have hkeys : (["type", "turn_id", "instance_id", "target_entity", "token", "message", "kind",
      "tool_name", "delta", "finish_reason", "status", "text"].map
        fun key => PyStr.encode (py key)).Nodup := by decide +kernel
  refine hkeys.sublist ?_
  simp only [members, List.map_append]
  exact ((((((((List.Sublist.refl _).append (keys_given ..)).append (keys_given ..)).append
    (keys_given ..)).append (keys_given ..)).append (keys_given ..)).append (keys_given ..)).append
    (keys_given ..)).append (keys_given ..)

namespace Yielded

theorem isJson_members {y : Yielded} (h : y.isJson = true) :
    JsonDumps.isJson (.obj y.members) = true := by
  cases y with
  | frame f =>
    simp only [isJson, List.all_cons, List.all_nil, Bool.and_eq_true, Bool.and_true] at h
    rw [JsonDumps.isJson, Bool.and_eq_true, decide_eq_true_eq]
    refine ⟨f.keys_nodup, ?_⟩
    simp only [members, Frame.members, isJsonMembers_append, isJsonMembers_given,
      JsonDumps.isJsonMembers, JsonDumps.isJson, Bool.and_eq_true, true_and]
    tauto
  | status st turnId =>
    have hkeys : (["type", "status", "turn_id"].map fun key => PyStr.encode (py key)).Nodup := by
      decide +kernel
    rw [JsonDumps.isJson, Bool.and_eq_true, decide_eq_true_eq]
    exact ⟨hkeys, rfl⟩
  | ping => rfl

end Yielded

end Eyot.Composer

/-! The client of the event stream: it cuts the blocks off what has been decoded so far and calls
back with each frame, up to one that ends the turn. -/

namespace Eyot.Portal

open Host (Value str?)
open Scan (Spelling)
open Eyot.Composer (Yielded eventStream)
open JsonDumps (inUnits ascii)

/-- `TextDecoder`; the byte order mark at the start of a stream is no part of the text. -/
structure TextDecoder where
  decoder : Utf8.Decoder
  begun : Bool

namespace TextDecoder

def new : TextDecoder := ⟨none, false⟩

/-- `decode(value, { stream: true })` -/
def decode (d : TextDecoder) (bytes : List UInt8) : List Char × TextDecoder :=
  match Utf8.feed d.decoder bytes with
  | ([], decoder) => ([], ⟨decoder, d.begun⟩)
  | (c :: text, decoder) =>
    (if !d.begun && c = '\uFEFF' then text else c :: text, ⟨decoder, true⟩)

end TextDecoder

def newline : UInt16 := 10

/-- `buffer.split('\n\n')`, the last part apart. -/
def splitBlocks : Units → List Units × Units
  | [] => ([], [])
  | [u] => ([], [u])
  | u :: v :: l =>
    if u = newline ∧ v = newline then ([] :: (splitBlocks l).1, (splitBlocks l).2)
    else Framer.push u (splitBlocks (v :: l))

def blockData (block : Units) : Units :=
  ((portalText.lines block).map fun line =>
    if portalText.startsWith "data:" line then (line.drop 5).dropWhile portalText.isSpace
    else []).flatten

def isTerminal (frame : Value) : Bool :=
  str? (frame.member "type") = some (units "chat.response.done") ||
    str? (frame.member "type") = some (units "chat.response.error")

section Reading

-- What the number of a numeral prints as.
variable (number : Units → Units)

/-- The frames of the blocks; true if one of them makes the client return. -/
def onBlocks : List Units → List Value × Bool
  | [] => ([], false)
  | block :: blocks =>
    if blockData block = [] then onBlocks blocks
    else
      match JsonParse.parse number (blockData block) with
      | none => onBlocks blocks
      | some frame =>
        if isTerminal frame then ([frame], true)
        else (frame :: (onBlocks blocks).1, (onBlocks blocks).2)

/-- `streamComposerTurn`, from a state of its decoder and its buffer, over the chunks that the
reader will give. -/
def readChunks : TextDecoder → Units → List (List UInt8) → List Value × Bool
  | _, _, [] => ([], false)
  | d, buffer, chunk :: chunks =>
    let (text, d) := d.decode chunk
    let (parts, buffer) := splitBlocks (buffer ++ utf16.text text)
    match onBlocks number parts with
    | (frames, true) => (frames, true)
    | (frames, false) =>
      (frames ++ (readChunks d buffer chunks).1, (readChunks d buffer chunks).2)

/-- The frames `onFrame` is called with, and whether the last of them ended the reading. -/
def streamComposerTurn (chunks : List (List UInt8)) : List Value × Bool :=
  readChunks number .new [] chunks

end Reading

/-! Cutting blocks off. -/

theorem splitBlocks_cons {u v : UInt16} (h : ¬ (u = newline ∧ v = newline)) (l : Units) :
    splitBlocks (u :: v :: l) = Framer.push u (splitBlocks (v :: l)) := by
  rw [splitBlocks, if_neg h]

theorem splitBlocks_rest {l : Units} (h : (splitBlocks l).1 = []) : (splitBlocks l).2 = l := by
  induction l using splitBlocks.induct with
  | case1 => rfl
  | case2 u => rfl
  | case3 u v l hblank ih =>
    rw [splitBlocks, if_pos hblank] at h
    cases h
  | case4 u v l hblank ih =>
    rw [splitBlocks_cons hblank] at h ⊢
    cases hrest : splitBlocks (v :: l) with
    | mk blocks rest =>
      cases blocks with
      | nil =>
        have hl := ih (by rw [hrest])
        rw [hrest] at hl
        exact congrArg _ hl
      | cons block blocks =>
        rw [hrest] at h
        cases h

theorem splitBlocks_append (a b : Units) : splitBlocks (a ++ b) =
    ((splitBlocks a).1 ++ (splitBlocks ((splitBlocks a).2 ++ b)).1,
      (splitBlocks ((splitBlocks a).2 ++ b)).2) := by
  induction a using splitBlocks.induct with
  | case1 => rfl
  | case2 u => rfl
  | case3 u v l hblank ih =>
    rw [List.cons_append, List.cons_append, splitBlocks, if_pos hblank, ih, splitBlocks,
      if_pos hblank, List.cons_append]
  | case4 u v l hblank ih =>
    rw [List.cons_append] at ih
    rw [List.cons_append, List.cons_append, splitBlocks_cons hblank, ih, splitBlocks_cons hblank]
    cases hrest : splitBlocks (v :: l) with
    | mk blocks rest =>
      cases blocks with
      | nil =>
        -- Nothing was cut off, so what is left over still starts with `v`.
        have hl := splitBlocks_rest (congrArg Prod.fst hrest)
        rw [hrest] at hl
        subst hl
        change Framer.push u (splitBlocks (v :: (l ++ b))) = splitBlocks (u :: v :: (l ++ b))
        exact (splitBlocks_cons hblank _).symm
      | cons block blocks => rfl

def blockFramer : Framer UInt16 := ⟨splitBlocks, rfl, splitBlocks_append⟩

theorem splitBlocks_line {line : Units} (h : newline ∉ line) {l : Units} {block : Units}
    {blocks : List Units} {rest : Units} (hl : splitBlocks l = (block :: blocks, rest)) :
    splitBlocks (line ++ l) = ((line ++ block) :: blocks, rest) := by
  induction line with
  | nil => exact hl
  | cons u line ih =>
    rw [List.mem_cons, not_or] at h
    have hne : u ≠ newline := Ne.symm h.1
    have hrest := ih h.2
    rw [List.cons_append]
    cases hcons : line ++ l with
    | nil =>
      rw [hcons] at hrest
      cases hrest
    | cons v m => rw [splitBlocks_cons (fun hblank => hne hblank.1), ← hcons, hrest, Framer.push_cons,
        List.cons_append]

/-- Two lines and a blank one. -/
theorem splitBlocks_block {first second : Units} (hfirst : newline ∉ first)
    (hsecond : newline ∉ second) (hne : second ≠ []) (l : Units) :
    splitBlocks (first ++ newline :: (second ++ newline :: newline :: l)) =
      ((first ++ newline :: second) :: (splitBlocks l).1, (splitBlocks l).2) := by
  have hblank : splitBlocks (newline :: newline :: l) = ([] :: (splitBlocks l).1, (splitBlocks l).2) := by
    rw [splitBlocks, if_pos ⟨rfl, rfl⟩]
  have hlast := splitBlocks_line hsecond hblank
  rw [List.append_nil] at hlast
  apply splitBlocks_line hfirst
  cases second with
  | nil => exact absurd rfl hne
  | cons v second =>
    rw [List.mem_cons, not_or] at hsecond
    rw [List.cons_append] at hlast ⊢
    rw [splitBlocks_cons (fun hboth => hsecond.1 hboth.2.symm), hlast, Framer.push_cons]

/-! Decoding. -/

namespace TextDecoder

theorem decode_begun (decoder : Utf8.Decoder) (bs : List UInt8) : decode ⟨decoder, true⟩ bs =
    ((Utf8.feed decoder bs).1, ⟨(Utf8.feed decoder bs).2, true⟩) := by
  cases hb : Utf8.feed decoder bs with
  | mk text decoder' =>
    cases text with
    | nil => simp only [decode, hb]
    | cons c text =>
      simp only [decode, hb, Bool.not_true, Bool.false_and, Bool.false_eq_true, if_false]

theorem decode_append (d : TextDecoder) (as bs : List UInt8) : d.decode (as ++ bs) =
    ((d.decode as).1 ++ ((d.decode as).2.decode bs).1, ((d.decode as).2.decode bs).2) := by
  cases ha : Utf8.feed d.decoder as with
  | mk text decoder =>
    cases text with
    | nil =>
      have has : d.decode as = ([], ⟨decoder, d.begun⟩) := by rw [decode, ha]
      rw [has, decode, Utf8.feed_append, ha]
      rfl
    | cons c text =>
      have has : d.decode as =
          (if !d.begun && c = '\uFEFF' then text else c :: text, ⟨decoder, true⟩) := by
        rw [decode, ha]
      rw [has, decode_begun, decode, Utf8.feed_append, ha]
      dsimp only [List.cons_append]
      split
      · rfl
      · rfl

end TextDecoder

section Reading

variable (number : Units → Units)

theorem onBlocks_append (as bs : List Units) : onBlocks number (as ++ bs) =
    if (onBlocks number as).2 then onBlocks number as
    else ((onBlocks number as).1 ++ (onBlocks number bs).1, (onBlocks number bs).2) := by
  induction as with
  | nil => rfl
  | cons block as ih =>
    rw [List.cons_append, onBlocks, onBlocks]
    split
    · exact ih
    · cases hparse : JsonParse.parse number (blockData block) with
      | none => exact ih
      | some frame =>
        dsimp only
        split
        · rfl
        · rw [ih]
          split
          · rfl
          · rfl

/-- The client calls back with the frames of the blocks of the whole text. -/
theorem readChunks_eq (d : TextDecoder) {buffer : Units} (h : splitBlocks buffer = ([], buffer))
    (chunks : List (List UInt8)) : readChunks number d buffer chunks =
      onBlocks number (splitBlocks (buffer ++ utf16.text (d.decode chunks.flatten).1)).1 := by
  induction chunks generalizing d buffer with
  | nil =>
    have hnil : (d.decode []).1 = [] := rfl
    rw [List.flatten_nil, hnil, Spelling.text_nil, List.append_nil, h]
    rfl
  | cons chunk chunks ih =>
    have hrest : ∀ l, splitBlocks (splitBlocks l).2 = ([], (splitBlocks l).2) :=
      fun l => blockFramer.cut_rest l
    rw [List.flatten_cons, d.decode_append, utf16.text_append, ← List.append_assoc,
      splitBlocks_append, onBlocks_append, ← ih (d.decode chunk).2 (hrest _),
      readChunks]
    cases hparts : onBlocks number (splitBlocks (buffer ++ utf16.text (d.decode chunk).1)).1 with
    | mk frames ended =>
      cases ended with
      | true => simp only [hparts, if_true]
      | false => simp only [hparts, Bool.false_eq_true, if_false]

end Reading

/-! What the server writes. -/

def nameLine (y : Yielded) : Str := "event: ".toList ++ y.eventName

def dataLine (y : Yielded) : Str := "data: ".toList ++ JsonDumps.dumps (.obj y.members)

def block (y : Yielded) : Units := ascii (nameLine y) ++ newline :: ascii (dataLine y)

theorem utf16_ascii {t : Str} (h : ∀ c ∈ t, c.toNat < 128) : utf16.text t = ascii t := by
  induction t with
  | nil => rfl
  | cons c t ih =>
    rw [List.forall_mem_cons] at h
    rw [Spelling.text_cons, utf16_basic (by omega), ih h.2]
    rfl

theorem printable_eventName (y : Yielded) : y.eventName.all JsonDumps.isPrintable = true := by
  cases y with
  | frame f =>
    rw [Composer.Yielded.eventName]
    cases f.type <;> decide
  | status st turnId => rfl
  | ping => rfl

theorem printable_nameLine (y : Yielded) : (nameLine y).all JsonDumps.isPrintable = true := by
  have hevent : "event: ".toList.all JsonDumps.isPrintable = true := by decide +kernel
  change ("event: ".toList ++ y.eventName).all JsonDumps.isPrintable = true
  rw [List.all_append, printable_eventName y, hevent]
  rfl

theorem printable_dataLine {y : Yielded} (h : y.isJson = true) :
    (dataLine y).all JsonDumps.isPrintable = true := by
  have hdata : "data: ".toList.all JsonDumps.isPrintable = true := by decide +kernel
  rw [dataLine, List.all_append, JsonDumps.printable_dumps _ (Composer.Yielded.isJson_members h),
    hdata]
  rfl

theorem range_of_printable {t : Str} (h : t.all JsonDumps.isPrintable = true) {c : Char}
    (hc : c ∈ t) : 32 ≤ c.toNat ∧ c.toNat < 127 := by
  simpa [JsonDumps.isPrintable] using List.all_eq_true.mp h c hc

theorem newline_not_mem {t : Str} (h : t.all JsonDumps.isPrintable = true) :
    newline ∉ ascii t := by
  intro hmem
  obtain ⟨c, hc, hcode⟩ := List.mem_map.mp hmem
  have hrange := range_of_printable h hc
  have hnat : (JsonParse.unit c).toNat = c.toNat := toNat_toUInt16 (by omega)
  have hten : newline.toNat = 10 := rfl
  rw [hcode] at hnat
  omega

theorem event_eq (y : Yielded) :
    y.event = nameLine y ++ '\n' :: (dataLine y ++ ['\n', '\n']) := by
  have hdata : "\ndata: ".toList = '\n' :: "data: ".toList := by decide +kernel
  have hend : "\n\n".toList = ['\n', '\n'] := by decide +kernel
  change "event: ".toList ++ y.eventName ++ "\ndata: ".toList ++
    JsonDumps.dumps (.obj y.members) ++ "\n\n".toList = "event: ".toList ++ y.eventName ++
      '\n' :: ("data: ".toList ++ JsonDumps.dumps (.obj y.members) ++ ['\n', '\n'])
  simp only [hdata, hend, List.append_assoc, List.cons_append]

theorem text_event {y : Yielded} (h : y.isJson = true) : utf16.text y.event =
    ascii (nameLine y) ++ newline :: (ascii (dataLine y) ++ [newline, newline]) := by
  rw [event_eq, utf16_ascii]
  · rw [JsonDumps.ascii_append, JsonDumps.ascii_cons, JsonDumps.ascii_append]
    rfl
  · intro c hc
    rw [List.mem_append, List.mem_cons, List.mem_append] at hc
    obtain hname | rfl | hdata | hend := hc
    · have := range_of_printable (printable_nameLine y) hname
      omega
    · decide
    · have := range_of_printable (printable_dataLine h) hdata
      omega
    · obtain rfl : c = '\n' := by simpa using hend
      decide

theorem splitBlocks_events {ys : List Yielded} (h : ∀ y ∈ ys, y.isJson = true) :
    splitBlocks (utf16.text (ys.flatMap Yielded.event)) = (ys.map block, []) := by
  induction ys with
  | nil => rfl
  | cons y ys ih =>
    have hne : ascii (dataLine y) ≠ [] := List.cons_ne_nil _ _
    rw [List.forall_mem_cons] at h
    rw [List.flatMap_cons, utf16.text_append, text_event h.1, List.append_assoc, List.cons_append,
      List.append_assoc, List.cons_append, List.cons_append, List.nil_append,
      splitBlocks_block (newline_not_mem (printable_nameLine y))
        (newline_not_mem (printable_dataLine h.1)) hne, ih h.2]
    rfl

theorem not_is_newline {l : Units} (h : newline ∉ l) : ∀ u ∈ l, portalText.is '\n' u = false := by
  intro u hu
  rw [← Bool.not_eq_true]
  intro hnewline
  have hcode : u.toNat = newline.toNat := of_decide_eq_true hnewline
  rw [UInt16.toNat_inj.mp hcode] at hu
  exact h hu

theorem lines_block {y : Yielded} (h : y.isJson = true) :
    portalText.lines (block y) = [ascii (nameLine y), ascii (dataLine y)] := by
  have hname := not_is_newline (newline_not_mem (printable_nameLine y))
  have hdata := not_is_newline (newline_not_mem (printable_dataLine h))
  rw [Alphabet.lines, block, List.splitOnP_append_cons_of_forall_mem hname newline rfl,
    List.splitOnP_eq_singleton hdata]

theorem blockData_block {y : Yielded} (h : y.isJson = true) :
    blockData (block y) = ascii (JsonDumps.dumps (.obj y.members)) := by
  rw [blockData, lines_block h]
  change [] ++ ((ascii (JsonDumps.dumps (.obj y.members))) ++ []) = _
  rw [List.nil_append, List.append_nil]

/-- The frames up to the first that ends the turn. -/
def upToTerminal : List Yielded → List Yielded
  | [] => []
  | y :: ys => if y.isTerminal then [y] else y :: upToTerminal ys

section Reading

variable (number : Units → Units)

/-- A frame as the client sees it. -/
def frameOf (y : Yielded) : Value := inUnits number (.obj y.members)

theorem str?_type (v : PyStr) (kvs : List (PyStr × Json PyStr)) :
    str? ((inUnits number (.obj ((py "type", .str v) :: kvs))).member "type") =
      some (PyStr.encode v) := by
  have hkey : PyStr.encode (py "type") = units "type" := by decide +kernel
  simp only [inUnits, JsonDumps.inUnitsMembers, hkey, Json.member, Json.get?, List.find?_cons,
    decide_true, Option.map_some, str?, Option.bind_some, Json.asStr?]

theorem isTerminal_frameOf (y : Yielded) : isTerminal (frameOf number y) = y.isTerminal := by
  cases y with
  | frame f =>
    have htype : str? ((frameOf number (.frame f)).member "type") =
        some (PyStr.encode (py f.type.value)) := str?_type number _ _
    rw [isTerminal, htype, Yielded.isTerminal]
    cases f.type with
    | chunk => decide +kernel
    | done => decide +kernel
    | error => decide +kernel
    | activity => decide +kernel
  | status st turnId =>
    have htype : str? ((frameOf number (.status st turnId)).member "type") =
        some (PyStr.encode (py "composer.turn.status")) := str?_type number _ _
    rw [isTerminal, htype, Yielded.isTerminal]
    decide +kernel
  | ping =>
    have htype : str? ((frameOf number .ping).member "type") = some (PyStr.encode (py "ping")) :=
      str?_type number _ _
    rw [isTerminal, htype]
    decide +kernel

theorem onBlocks_events {ys : List Yielded} (h : ∀ y ∈ ys, y.isJson = true) :
    onBlocks number (ys.map block) =
      ((upToTerminal ys).map (frameOf number), ys.any Yielded.isTerminal) := by
  induction ys with
  | nil => rfl
  | cons y ys ih =>
    rw [List.forall_mem_cons] at h
    have hne : blockData (block y) ≠ [] := by
      rw [blockData_block h.1]
      exact List.cons_ne_nil _ _
    have hparse : JsonParse.parse number (blockData (block y)) = some (frameOf number y) := by
      rw [blockData_block h.1]
      exact JsonDumps.parse_dumps number _ (Composer.Yielded.isJson_members h.1)
    rw [List.map_cons, onBlocks, if_neg hne, hparse]
    dsimp only
    rw [isTerminal_frameOf, ih h.2, upToTerminal, List.any_cons]
    cases y.isTerminal with
    | true => rfl
    | false => rfl

end Reading

theorem decode_eventStream (ys : List Yielded) :
    (TextDecoder.new.decode (eventStream ys)).1 = ys.flatMap Yielded.event := by
  have hfeed : Utf8.feed TextDecoder.new.decoder (eventStream ys) =
      (ys.flatMap Yielded.event, none) := Utf8.feed_encode _
  rw [TextDecoder.decode, hfeed]
  cases ys with
  | nil => rfl
  | cons y ys =>
    obtain ⟨text, htext⟩ : ∃ text, y.event = 'e' :: text := ⟨_, rfl⟩
    rw [List.flatMap_cons, htext, List.cons_append]
    have hmark : ¬ ((!TextDecoder.new.begun && decide ('e' = '\uFEFF')) = true) := by decide
    dsimp only
    rw [if_neg hmark]

/-- Whatever the frames hold and however the bytes are cut, the client calls back with the frames
that were written, up to the first that ends the turn, and returns there. -/
theorem streamComposerTurn_eventStream (number : Units → Units) (ys : List Yielded)
    (h : ∀ y ∈ ys, y.isJson = true) (chunks : List (List UInt8))
    (hchunks : chunks.flatten = eventStream ys) : streamComposerTurn number chunks =
      ((upToTerminal ys).map (frameOf number), ys.any Yielded.isTerminal) := by
  rw [streamComposerTurn, readChunks_eq number .new rfl, hchunks, decode_eventStream,
    List.nil_append, splitBlocks_events h, onBlocks_events number h]

/-! A turn byte by byte, with a token that is no ASCII and has a blank line in it. -/

def brokenToken : Composer.Frame where
  type := .chunk
  turnId := "t"
  instanceId := "heron"
  targetEntity := .str (py "fox")
  token := some (.str (py "狐\n\n"))
  message := none
  status := none
  text := none
  kind := none
  toolName := none
  delta := none
  finishReason := none

def brokenTurn : List Yielded :=
  [.status .responding "t", .frame brokenToken, .ping, .frame { brokenToken with type := .done },
    .ping]

theorem brokenTurn_read : streamComposerTurn id ((eventStream brokenTurn).map fun b => [b]) =
    ((brokenTurn.take 4).map (frameOf id), true) :=
  streamComposerTurn_eventStream id brokenTurn (by decide +kernel) _
    (List.flatMap_def.symm.trans (List.flatMap_singleton' _))

end Eyot.Portal
