import Eyot.Data.JsonDumps
import Eyot.Data.Utf16
import Eyot.Host.ChatBridge
import Eyot.Library.Framing
import Eyot.Library.Run
import Eyot.Library.Utf8

/-! The events of `pi` off its standard output, which comes in chunks. The runner has one buffer
for the output of all its children. -/

namespace Eyot.Host

open JsonParse (skipSpace parse)

def newline : UInt16 := 10

def carriageReturn : UInt16 := 13

structure Runner where
  pi : PiRpc
  buffer : Units
  events : List Value

inductive Arrival where
  | start
  | data (chunk : List UInt8)
  | exit

def withoutReturn (line : Units) : Units :=
  if line.getLast? = some carriageReturn then line.dropLast else line

section Reading

-- What the number of a numeral prints as.
variable (number : Units → Units)

/-- A line that is blank, or bad, makes no event. -/
def readLine (line : Units) : Option Value :=
  if portalText.strip (withoutReturn line) = [] then none else parse number (withoutReturn line)

namespace Runner

def initial : Runner := ⟨⟨none, false, 0, []⟩, [], []⟩

/-- Each chunk is decoded by itself; `drain` takes whole lines off the buffer. -/
def onData (r : Runner) (chunk : List UInt8) : Runner :=
  let (lines, rest) := Framer.cutAfter (· = newline) (r.buffer ++ utf16.text (Utf8.decode chunk))
  { r with buffer := rest, events := r.events ++ lines.filterMap (readLine number) }

def step (r : Runner) : Arrival → Runner
  | .start => { r with pi := (r.pi.start none).1 }
  | .data chunk => r.onData number chunk
  | .exit => { r with pi := r.pi.onExit }

end Runner

end Reading

/-! What `pi` writes. -/

/-- The output of one child: its lines, what it writes of a line that it does not finish, and the
chunks all that comes in, some of them after the exit of the child. -/
structure Generation where
  lines : List Str
  last : List UInt8
  chunks : List (List UInt8)
  late : List (List UInt8)

namespace Generation

def text (g : Generation) : Str := g.lines.flatMap fun line => line ++ ['\n']

def arrivals (g : Generation) : List Arrival :=
  .start :: (g.chunks.map .data ++ .exit :: g.late.map .data)

/-- The event of a line, the end of which is a newline, with or without a carriage return. -/
def eventOf (number : Units → Units) (line : Str) : Option Value :=
  parse number (withoutReturn (utf16.text line))

def eventsOf (number : Units → Units) (g : Generation) : List Value :=
  g.lines.filterMap (eventOf number)

structure Valid (number : Units → Units) (g : Generation) : Prop where
  whole : (g.chunks ++ g.late).flatten = Utf8.encode g.text ++ g.last
  line : ∀ line ∈ g.lines, '\n' ∉ line ∧ (eventOf number line).isSome = true
  last : 10 ∉ g.last

/-- No boundary between two chunks goes through a character of a line. -/
def CutsBetween (g : Generation) : Prop :=
  ∀ before after, g.chunks ++ g.late = before ++ after →
    before.flatten.length ≤ (Utf8.encode g.text).length → ∃ t, before.flatten = Utf8.encode t

theorem cutsBetween_iff (g : Generation) : g.CutsBetween ↔
    ∀ before ∈ (g.chunks ++ g.late).inits,
      before.flatten.length ≤ (Utf8.encode g.text).length →
        Utf8.encode (Utf8.decode before.flatten) = before.flatten := by
  constructor
  · intro h before hbefore hlen
    obtain ⟨after, hafter⟩ := (List.mem_inits _ _).mp hbefore
    obtain ⟨t, ht⟩ := h before after hafter.symm hlen
    rw [ht, Utf8.decode_encode]
  · intro h before after hsplit hlen
    exact ⟨_, (h before ((List.mem_inits _ _).mpr ⟨after, hsplit.symm⟩) hlen).symm⟩

instance (g : Generation) : Decidable g.CutsBetween := decidable_of_iff' _ (cutsBetween_iff g)

def blankBytes : List UInt8 := [32, 9, 13]

/-- What is left of an unfinished line is white space at most. -/
def LeavesBlank (g : Generation) : Prop := ∀ b ∈ g.last, b ∈ blankBytes

instance (g : Generation) : Decidable g.LeavesBlank :=
  inferInstanceAs (Decidable (∀ b ∈ g.last, b ∈ blankBytes))

theorem valid_iff (number : Units → Units) (g : Generation) : g.Valid number ↔
    (g.chunks ++ g.late).flatten = Utf8.encode g.text ++ g.last ∧
      (∀ line ∈ g.lines, '\n' ∉ line ∧ (eventOf number line).isSome = true) ∧ 10 ∉ g.last :=
  ⟨fun h => ⟨h.whole, h.line, h.last⟩, fun h => ⟨h.1, h.2.1, h.2.2⟩⟩

instance (number : Units → Units) (g : Generation) : Decidable (g.Valid number) :=
  decidable_of_iff' _ (valid_iff number g)

end Generation

/-! A runner cuts the text of all chunks together. -/

section Framing

variable (number : Units → Units)

abbrev lineFramer : Framer UInt16 := .closedBy (· = newline)

/-- What a chunk puts behind the buffer. -/
def pieceOf : Arrival → Option Units
  | .start => none
  | .data chunk => some (utf16.text (Utf8.decode chunk))
  | .exit => none

theorem exec_frames (r : Runner) (as : List Arrival) :
    (Run.exec (Runner.step number) r as).events = r.events ++
        (lineFramer.frames r.buffer (as.filterMap pieceOf)).1.filterMap (readLine number) ∧
      (Run.exec (Runner.step number) r as).buffer =
        (lineFramer.frames r.buffer (as.filterMap pieceOf)).2 := by
  induction as generalizing r with
  | nil => exact ⟨(List.append_nil _).symm, rfl⟩
  | cons a as ih =>
    obtain ⟨hevents, hbuffer⟩ := ih (r.step number a)
    rw [Run.exec, hevents, hbuffer]
    cases a with
    | start => exact ⟨rfl, rfl⟩
    | exit => exact ⟨rfl, rfl⟩
    | data chunk =>
      have hpiece : (Arrival.data chunk :: as).filterMap pieceOf =
          utf16.text (Utf8.decode chunk) :: as.filterMap pieceOf := rfl
      rw [hpiece, Framer.frames, List.filterMap_append, ← List.append_assoc]
      exact ⟨rfl, rfl⟩

theorem pieces_arrivals (g : Generation) : g.arrivals.filterMap pieceOf =
    (g.chunks ++ g.late).map fun chunk => utf16.text (Utf8.decode chunk) := by
  have hdata : ∀ chunks : List (List UInt8), (chunks.map Arrival.data).filterMap pieceOf =
      chunks.map fun chunk => utf16.text (Utf8.decode chunk) := by
    intro chunks
    rw [List.filterMap_map]
    exact congrFun List.filterMap_eq_map chunks
  rw [Generation.arrivals, List.filterMap_cons_none rfl, List.filterMap_append,
    List.filterMap_cons_none rfl, hdata, hdata, List.map_append]

end Framing

/-! The text of the chunks, where they are cut between characters. -/

section Decoding

variable {p : Char → Prop}

/-- Behind the lines, the chunks are read one by one. -/
theorem decode_pieces {text : Str} {last : List UInt8} {chunks : List (List UInt8)}
    (hwhole : chunks.flatten = Utf8.encode text ++ last)
    (hcuts : ∀ before after, chunks = before ++ after →
      before.flatten.length ≤ (Utf8.encode text).length → ∃ t, before.flatten = Utf8.encode t)
    (hlast : ∀ bs : List UInt8, (∀ b ∈ bs, b ∈ last) → ∀ c ∈ Utf8.decode bs, p c) :
    ∃ tail : Str, chunks.flatMap Utf8.decode = text ++ tail ∧ ∀ c ∈ tail, p c := by
  induction chunks generalizing text with
  | nil =>
    have hnil := List.append_eq_nil_iff.mp hwhole.symm
    have hempty : Utf8.encode text ++ [] = Utf8.encode [] := by
      rw [hnil.1]
      rfl
    obtain ⟨u, htext, -⟩ := Utf8.exists_of_encode_append hempty
    refine ⟨[], ?_, nofun⟩
    rw [(List.append_eq_nil_iff.mp htext.symm).1]
    rfl
  | cons chunk chunks ih =>
    rw [List.flatten_cons] at hwhole
    rw [List.flatMap_cons]
    obtain ⟨bs, htext, hrest⟩ | ⟨bs, hchunk, hrest⟩ := List.append_eq_append_iff.mp hwhole
    · obtain ⟨s, hs⟩ := hcuts [chunk] chunks rfl (by simp [htext])
      rw [List.flatten_singleton] at hs
      subst hs
      obtain ⟨t, ht, hbs⟩ := Utf8.exists_of_encode_append htext.symm
      subst ht hbs
      rw [Utf8.encode_append, List.length_append] at hcuts
      -- A boundary behind the first chunk is one of the rest.
      have hcuts' : ∀ before after, chunks = before ++ after →
          before.flatten.length ≤ (Utf8.encode t).length →
            ∃ u, before.flatten = Utf8.encode u := by
        intro before after hsplit hlen
        obtain ⟨u, hu⟩ := hcuts (Utf8.encode s :: before) after (by rw [hsplit]; rfl)
          (by rw [List.flatten_cons, List.length_append]; omega)
        rw [List.flatten_cons] at hu
        obtain ⟨v, -, hv⟩ := Utf8.exists_of_encode_append hu
        exact ⟨v, hv⟩
      obtain ⟨tail, htail, hp⟩ := ih hrest hcuts'
      exact ⟨tail, by rw [Utf8.decode_encode, htail, List.append_assoc], hp⟩
    · refine ⟨Utf8.decode bs ++ chunks.flatMap Utf8.decode, ?_, ?_⟩
      · rw [hchunk, Utf8.decode_encode_append, List.append_assoc]
      · have hmem : ∀ piece ∈ bs :: chunks, ∀ b ∈ piece, b ∈ last := by
          intro piece hpiece b hb
          rw [hrest, ← List.flatten_cons]
          exact List.mem_flatten_of_mem hpiece hb
        intro c hc
        rw [← List.flatMap_cons, List.mem_flatMap] at hc
        obtain ⟨piece, hpiece, hc⟩ := hc
        exact hlast piece (hmem piece hpiece) c hc

end Decoding

/-! Lines of a text. -/

/-- White space to `JSON.parse` that does not end a line. -/
def Blank (buffer : Units) : Prop := ∀ u ∈ buffer, JsonParse.isSpace u = true

def Unended (buffer : Units) : Prop := ∀ u ∈ buffer, decide (u = newline) = false

theorem unended_text {line : Str} (h : '\n' ∉ line) : Unended (utf16.text line) := by
  intro u hu
  rw [decide_eq_false_iff_not]
  rintro rfl
  obtain ⟨c, hc, hu⟩ := List.mem_flatMap.mp hu
  rcases Nat.lt_or_ge c.toNat 0x10000 with hlt | hge
  · rw [utf16_basic hlt, List.mem_singleton] at hu
    have hnat := congrArg UInt16.toNat hu
    rw [toNat_toUInt16 hlt] at hnat
    exact h (toNat_inj (d := '\n') hnat.symm ▸ hc)
  · exact absurd (mem_utf16 hge hu).1 (by decide)

theorem withoutReturn_append (buffer : Units) {line : Units} (h : line ≠ []) :
    withoutReturn (buffer ++ line) = buffer ++ withoutReturn line := by
  rw [withoutReturn, withoutReturn, List.getLast?_append_of_ne_nil _ h]
  split
  · exact List.dropLast_append_of_ne_nil h
  · rfl

section Lines

variable (number : Units → Units)

theorem parse_append {buffer : Units} (h : Blank buffer) (line : Units) :
    parse number (buffer ++ line) = parse number line := by
  have hskip : skipSpace (buffer ++ line) = skipSpace line :=
    List.dropWhile_append_of_pos h
  rw [parse, hskip, parse]

theorem startsWith_head {w : String} {c : Char} {cs : Str} (hw : w.toList = c :: cs) {u : UInt16}
    (hu : u.toNat ≠ c.toNat) (rest : Units) : portalText.startsWith w (u :: rest) = false := by
  rw [Alphabet.startsWith, Alphabet.reads, decide_eq_false_iff_not, ← String.length_toList, hw,
    List.length_cons, List.take_succ_cons, List.map_cons, List.map_cons]
  intro h
  exact hu (List.cons.inj h).1

theorem readValue_blank {u : UInt16} (hu : portalText.isSpace u = true)
    (hnot : JsonParse.isSpace u = false) (n : Nat) (rest : Units) :
    JsonParse.readValue number n (u :: rest) = none := by
  have hrange : ¬ (33 ≤ u.toNat ∧ u.toNat ≤ 126) := by
    intro h
    rw [portalText.isSpace_visible h.1 h.2] at hu
    cases hu
  have hnumeral : JsonParse.isNumeralUnit u = false := by
    rw [← Bool.not_eq_true]
    intro h
    have h32 : u.toNat ≠ 32 := by
      intro heq
      rw [UInt16.toNat_inj (b := 32).mp heq] at hnot
      cases hnot
    have := JsonDumps.numeral_range h
    omega
  have hmem : u ∉ units " \t\n\r\"[\x7b" := by
    have hall : (units " \t\n\r\"[\x7b").all
        (fun v => JsonParse.isSpace v || !portalText.isSpace v) = true := by decide
    intro h
    have hv := List.all_eq_true.mp hall u h
    rw [hnot, hu] at hv
    cases hv
  cases n with
  | zero => rfl
  | succ n =>
    have hword : ∀ c : Char, 33 ≤ c.toNat → c.toNat ≤ 126 → u.toNat ≠ c.toNat := by omega
    rw [JsonDumps.readValue_scalar number hmem, JsonParse.readScalar,
      startsWith_head (w := "null") rfl (hword 'n' (by decide) (by decide)),
      startsWith_head (w := "true") rfl (hword 't' (by decide) (by decide)),
      startsWith_head (w := "false") rfl (hword 'f' (by decide) (by decide)),
      List.takeWhile_cons, hnumeral]
    rfl

/-- No value is white space, to JavaScript. -/
theorem strip_ne_nil {line : Units} (h : (parse number line).isSome = true) :
    portalText.strip line ≠ [] := by
  intro hstrip
  have hspace := Scan.strip_eq_nil.mp hstrip
  rw [parse] at h
  cases hskip : skipSpace line with
  | nil =>
    rw [hskip] at h
    cases h
  | cons u rest =>
    have hu : portalText.isSpace u = true :=
      hspace u ((List.dropWhile_suffix _).subset (hskip ▸ List.mem_cons_self))
    have hnot : JsonParse.isSpace u = false := by
      have hhead := List.head?_dropWhile_not JsonParse.isSpace line
      change (List.dropWhile JsonParse.isSpace line) = _ at hskip
      rw [hskip] at hhead
      exact hhead
    rw [hskip, readValue_blank number hu hnot] at h
    cases h

theorem readLine_append {buffer : Units} (hblank : Blank buffer) {line : Units}
    (h : (parse number (withoutReturn line)).isSome = true) :
    readLine number (buffer ++ line) = parse number (withoutReturn line) := by
  have hne : line ≠ [] := by
    rintro rfl
    cases h
  rw [← parse_append number hblank] at h
  rw [readLine, withoutReturn_append buffer hne, if_neg (strip_ne_nil number h),
    parse_append number hblank]

/-- Whole lines, the first of them behind white space, and an unfinished one. -/
theorem cut_lines {lines : List Str} (hlines : ∀ line ∈ lines, '\n' ∉ line ∧
      (Generation.eventOf number line).isSome = true)
    {buffer tail : Units} (hblank : Blank buffer) (hbuffer : Unended buffer)
    (htail : Unended tail) :
    ∃ frames rest, lineFramer.cut (buffer ++
        (utf16.text (lines.flatMap fun line => line ++ ['\n']) ++ tail)) = (frames, rest) ∧
      frames.filterMap (readLine number) = lines.filterMap (Generation.eventOf number) ∧
      Unended rest ∧ (Blank tail → Blank rest) := by
  induction lines generalizing buffer with
  | nil =>
    have hrest : Unended (buffer ++ tail) := fun u hu =>
      (List.mem_append.mp hu).elim (hbuffer u) (htail u)
    exact ⟨[], buffer ++ tail, Framer.cutAfter_open hrest, rfl, hrest, fun h u hu =>
      (List.mem_append.mp hu).elim (hblank u) (h u)⟩
  | cons line lines ih =>
    rw [List.forall_mem_cons] at hlines
    obtain ⟨⟨hline, hevent⟩, hlines⟩ := hlines
    obtain ⟨frames, rest, hcut, hframes, hrest⟩ := @ih hlines [] nofun nofun
    have hframe : Unended (buffer ++ utf16.text line) := fun u hu =>
      (List.mem_append.mp hu).elim (hbuffer u) (unended_text hline u)
    have hsplit : buffer ++ (utf16.text ((line :: lines).flatMap fun line => line ++ ['\n']) ++
          tail) = (buffer ++ utf16.text line) ++ newline ::
        ([] ++ (utf16.text (lines.flatMap fun line => line ++ ['\n']) ++ tail)) := by
      rw [List.flatMap_cons, utf16.text_append, utf16.text_append]
      change _ ++ (((_ ++ [newline]) ++ _) ++ _) = _
      simp only [List.append_assoc, List.cons_append, List.nil_append]
    refine ⟨(buffer ++ utf16.text line) :: frames, rest, ?_, ?_, hrest⟩
    · rw [hsplit]
      refine (Framer.cutAfter_frame hframe (decide_eq_true rfl) _).trans ?_
      change ((buffer ++ utf16.text line) :: (lineFramer.cut _).1, (lineFramer.cut _).2) = _
      rw [hcut]
    · rw [List.filterMap_cons, List.filterMap_cons, readLine_append number hblank hevent, hframes]
      rfl

end Lines

/-! What a generation leaves in the buffer. -/

theorem unended_pieces {bs : List UInt8} (h : 10 ∉ bs) : ∀ c ∈ Utf8.decode bs, c ≠ '\n' := by
  rintro c hc rfl
  exact Utf8.newline_not_mem_decode h hc

theorem blank_pieces {bs : List UInt8} (h : ∀ b ∈ bs, b ∈ Generation.blankBytes) :
    ∀ c ∈ Utf8.decode bs, c ∈ [' ', '\t', '\r'] := by
  have hblank : Generation.blankBytes.all (fun b => decide (b.toNat < 0x80 ∧
      Char.ofNat b.toNat ∈ [' ', '\t', '\r'])) = true := by decide
  have hall : ∀ b ∈ Generation.blankBytes, b.toNat < 0x80 ∧
      Char.ofNat b.toNat ∈ [' ', '\t', '\r'] :=
    fun b hb => of_decide_eq_true (List.all_eq_true.mp hblank b hb)
  rw [Utf8.decode_ascii fun b hb => (hall b (h b hb)).1]
  intro c hc
  obtain ⟨b, hb, rfl⟩ := List.mem_map.mp hc
  exact (hall b (h b hb)).2

theorem blank_text {tail : Str} (h : ∀ c ∈ tail, c ∈ [' ', '\t', '\r']) :
    Blank (utf16.text tail) := by
  have hall : [' ', '\t', '\r'].all (fun c => (utf16.spell c).all JsonParse.isSpace) = true := by
    decide
  intro u hu
  obtain ⟨c, hc, hu⟩ := List.mem_flatMap.mp hu
  exact List.all_eq_true.mp (List.all_eq_true.mp hall c (h c hc)) u hu

section Generations

variable {number : Units → Units}

/-- The text of a child's output is its lines and a tail that does not end. -/
theorem decode_generation {g : Generation} (hg : g.Valid number) (hcuts : g.CutsBetween) :
    ∃ tail : Units, (g.arrivals.filterMap pieceOf).flatten = utf16.text g.text ++ tail ∧
      Unended tail ∧ (g.LeavesBlank → Blank tail) := by
  have hlast : ∀ bs : List UInt8, (∀ b ∈ bs, b ∈ g.last) → ∀ c ∈ Utf8.decode bs,
      c ≠ '\n' ∧ (g.LeavesBlank → c ∈ [' ', '\t', '\r']) := by
    intro bs hbs c hc
    exact ⟨unended_pieces (fun h => hg.last (hbs 10 h)) c hc,
      fun hblank => blank_pieces (fun b hb => hblank b (hbs b hb)) c hc⟩
  obtain ⟨tail, htail, hchars⟩ := decode_pieces hg.whole hcuts hlast
  refine ⟨utf16.text tail, ?_, unended_text fun h => (hchars _ h).1 rfl,
    fun hblank => blank_text fun c hc => (hchars c hc).2 hblank⟩
  rw [pieces_arrivals, ← utf16.text_append, ← htail, ← List.flatMap_def]
  exact List.flatMap_assoc.symm

theorem exec_generation {r : Runner} (hblank : Blank r.buffer) (hended : Unended r.buffer)
    {g : Generation} (hg : g.Valid number) (hcuts : g.CutsBetween) :
    (Run.exec (Runner.step number) r g.arrivals).events = r.events ++ g.eventsOf number ∧
      Unended (Run.exec (Runner.step number) r g.arrivals).buffer ∧
      (g.LeavesBlank → Blank (Run.exec (Runner.step number) r g.arrivals).buffer) := by
  obtain ⟨tail, htail, hunended, hleft⟩ := decode_generation hg hcuts
  obtain ⟨frames, rest, hcut, hframes, hrest, hblankRest⟩ :=
    cut_lines number hg.line hblank hended hunended
  obtain ⟨hevents, hbuffer⟩ := exec_frames number r g.arrivals
  have hstart : lineFramer.cut r.buffer = ([], r.buffer) := Framer.cutAfter_open hended
  rw [Framer.frames_eq hstart, htail, Generation.text, hcut] at hevents hbuffer
  rw [hevents, hbuffer, hframes]
  exact ⟨rfl, hrest, fun h => hblankRest (hleft h)⟩

theorem exec_generations {r : Runner} (hblank : Blank r.buffer) (hended : Unended r.buffer)
    {gens : List Generation} (hvalid : ∀ g ∈ gens, g.Valid number)
    (hcuts : ∀ g ∈ gens, g.CutsBetween) (hleft : ∀ g ∈ gens.dropLast, g.LeavesBlank) :
    (Run.exec (Runner.step number) r (gens.flatMap Generation.arrivals)).events =
      r.events ++ gens.flatMap (Generation.eventsOf number) := by
  induction gens generalizing r with
  | nil => exact (List.append_nil _).symm
  | cons g gens ih =>
    rw [List.forall_mem_cons] at hvalid hcuts
    obtain ⟨hevents, hunended, hblankLeft⟩ := exec_generation hblank hended hvalid.1 hcuts.1
    rw [List.flatMap_cons, Run.exec_append, List.flatMap_cons]
    cases gens with
    | nil =>
      rw [List.flatMap_nil, List.flatMap_nil, List.append_nil]
      exact hevents
    | cons next gens =>
      rw [List.dropLast_cons_cons, List.forall_mem_cons] at hleft
      rw [ih (hblankLeft hleft.1) hunended hvalid.2 hcuts.2 hleft.2, hevents, List.append_assoc]

/-- Where chunks end between characters and a child leaves white space at most of a line that it
does not finish, the events are those of the lines, in order, from one child to the next. -/
theorem events_of_clean (number : Units → Units) (gens : List Generation)
    (hvalid : ∀ g ∈ gens, g.Valid number) (hcuts : ∀ g ∈ gens, g.CutsBetween)
    (hleft : ∀ g ∈ gens.dropLast, g.LeavesBlank) :
    (Run.exec (Runner.step number) .initial (gens.flatMap Generation.arrivals)).events =
      gens.flatMap (Generation.eventsOf number) :=
  exec_generations (fun _ h => absurd h List.not_mem_nil) (fun _ h => absurd h List.not_mem_nil)
    hvalid hcuts hleft

/-- The carriage return of a line comes in a chunk of its own, and the next child starts behind a
tab. -/
def returned : List Generation :=
  [⟨["[\"é\"]\r".toList], [9], [[91, 34], [0xC3, 0xA9, 34, 93], [13]], [[10, 9]]⟩,
    ⟨["null".toList], [], [[110, 117, 108, 108, 10]], []⟩]

theorem returned_events :
    (Run.exec (Runner.step id) .initial (returned.flatMap Generation.arrivals)).events =
      returned.flatMap (Generation.eventsOf id) :=
  events_of_clean id returned (by decide +kernel) (by decide +kernel) (by decide +kernel)

end Generations

/-- The two bytes of a character come one by one; a child exits in the middle of a line. -/
def broken : List (List Generation) :=
  [[⟨["[\"é\"]".toList], [], [[91, 34, 0xC3], [0xA9, 34, 93, 10]], []⟩],
    [⟨[], [91], [[91]], []⟩, ⟨["null".toList], [], [[110, 117, 108, 108, 10]], []⟩]]

theorem broken_events : ¬ ∃ gens ∈ broken, (∀ g ∈ gens, g.Valid id) →
    (Run.exec (Runner.step id) .initial (gens.flatMap Generation.arrivals)).events =
      gens.flatMap (Generation.eventsOf id) := by
  rintro ⟨gens, hgens, h⟩
  have hvalid : ∀ gens ∈ broken, ∀ g ∈ gens, g.Valid id := by decide +kernel
  have hevents : ∀ gens ∈ broken,
      (Run.exec (Runner.step id) .initial (gens.flatMap Generation.arrivals)).events.map
        stringify ≠ (gens.flatMap (Generation.eventsOf id)).map stringify := by decide +kernel
  exact hevents gens hgens (congrArg _ (h (hvalid gens hgens)))

end Eyot.Host
