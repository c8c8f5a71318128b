import Eyot.Composer.Turn

/-! What stays of a turn once it is over. -/

namespace Eyot.Composer

/-- What is noted beside a turn: the turn as its first terminal frame has left it, and what has
been written to its row of the transcript. -/
structure Note where
  ended : Option Turn
  written : List (PyStr × TurnStatus)

def Note.start : Note := ⟨none, []⟩

namespace Turn

def isOver (t : Turn) : Bool := t.status ≠ .responding

/-- What is to be written for the terminal frames that have not been written yet. -/
def closing (t : Turn) : List (PyStr × TurnStatus) :=
  t.endings.map fun e => (finalBody e.content t.replyText, e.status)

end Turn

def note (repr : Value → PyStr) (t : Turn) (n : Note) (a : Action) : Note where
  ended := n.ended <|> (some (t.act repr a)).filter Turn.isOver
  written := n.written ++ t.writes a

def watchedTurns (repr : Value → PyStr) : Fleet (fun w : Turn × Note => w.1.turnId) Action Input :=
  (turns repr).watch Note.start (note repr)

/-- The notes do not change what happens to the turns. -/
theorem watchedTurns_exec (repr : Value → PyStr) (is : List Input) :
    (Run.exec (watchedTurns repr).step .empty is).rows.map Prod.fst =
      (Run.exec (turns repr).step .empty is).rows :=
  (turns repr).watch_exec Note.start (note repr) rfl is

/-- No frame comes after a terminal one; of a turn that is over the status, the reply and the
frames are those its first terminal frame has left, and nothing but these is ever written to
the transcript, once. -/
structure Absorbed (w : Turn × Note) : Prop where
  last : ∀ f ∈ w.1.history.dropLast, f.type.isTerminal = false
  running : w.2.ended = none → w.1.status = .responding ∧ w.2.written = []
  ended : ∀ e, w.2.ended = some e → Turn.Still e w.1 ∧ (w.2.written = [] ∨ w.2.written = e.closing)

/-- A frame finds the turn still responding. -/
def InTime (t : Turn) (a : Action) : Prop := t.puts a = true → t.status = .responding

instance (t : Turn) (a : Action) : Decidable (InTime t a) :=
  inferInstanceAs (Decidable (t.puts a = true → t.status = .responding))

/-! While no frame comes late there is at most one ending, that of the first terminal frame. -/

/-- The ending of the turn `e` with what it is to write, seen from `t`: its text is still to be
read, or is read and still to be written, or nothing is left to do. -/
inductive Closing (e : Turn) (content : Option PyStr) (t : Turn)
    (written : List (PyStr × TurnStatus)) : Prop
  | unread (h : t.endings = [⟨e.status, content, none⟩]) (hw : written = [])
  | unwritten (h : t.endings = [⟨e.status, content, some (Turn.finalBody content e.replyText)⟩])
    (hw : written = [])
  | done (h : t.endings = [])
    (hw : written = [] ∨ written = [(Turn.finalBody content e.replyText, e.status)])

inductive Phase (w : Turn × Note) : Prop
  | responding (hended : w.2.ended = none) (hendings : w.1.endings = [])
    (hhistory : ∀ f ∈ w.1.history, f.type.isTerminal = false)
  | terminal {e : Turn} {content : Option PyStr} (hended : w.2.ended = some e)
    (hover : e.isOver = true) (he : e.endings = [⟨e.status, content, none⟩])
    (hcompleted : e.status = .completed → content = none)
    (hfailed : e.status = .failed → content.isSome) (hclosing : Closing e content w.1 w.2.written)

theorem note_ended_of_some (repr : Value → PyStr) (t : Turn) {n : Note} (a : Action) {e : Turn}
    (h : n.ended = some e) : (note repr t n a).ended = some e := by
  rw [note, h]
  rfl

theorem note_ended_of_none (repr : Value → PyStr) (t : Turn) {n : Note} (a : Action)
    (h : n.ended = none) :
    (note repr t n a).ended = (some (t.act repr a)).filter Turn.isOver := by
  rw [note, h]
  rfl

theorem Turn.isOver_eq_false {t : Turn} : t.isOver = false ↔ t.status = .responding := by
  simp [isOver]

theorem Turn.isOver_eq_true {t : Turn} : t.isOver = true ↔ t.status ≠ .responding := by
  simp [isOver]

theorem Turn.writes_of_puts {t : Turn} {a : Action} (h : t.puts a = true) : t.writes a = [] := by
  cases a with
  | task step =>
    cases step with
    | write k fails => cases h
    | _ => rfl
  | _ => rfl

theorem absorbed_running {t : Turn} {n : Note}
    (hlast : ∀ f ∈ t.history.dropLast, f.type.isTerminal = false) (hended : n.ended = none)
    (hstatus : t.status = .responding) (hwritten : n.written = []) : Absorbed (t, n) := by
  refine ⟨hlast, fun _ => ⟨hstatus, hwritten⟩, fun e hsome => ?_⟩
  cases hended.symm.trans hsome

theorem absorbed_ended {t e : Turn} {n : Note}
    (hlast : ∀ f ∈ t.history.dropLast, f.type.isTerminal = false) (hended : n.ended = some e)
    (hstill : Turn.Still e t) (hwritten : n.written = [] ∨ n.written = e.closing) :
    Absorbed (t, n) := by
  refine ⟨hlast, fun hnone => ?_, fun e' hsome => ?_⟩
  · cases hended.symm.trans hnone
  · cases hended.symm.trans hsome
    exact ⟨hstill, hwritten⟩

theorem dropLast_of_emitted {t t' : Turn} {f : Frame} (he : Turn.Emitted t t' f)
    (h : ∀ f ∈ t.history, f.type.isTerminal = false) :
    ∀ f ∈ t'.history.dropLast, f.type.isTerminal = false := by
  rw [he.history, List.dropLast_concat]
  exact h

/-- A frame on a turn that has not ended. -/
theorem keeps_emitted (repr : Value → PyStr) {t : Turn} {n : Note} {a : Action} {f : Frame}
    (hputs : t.puts a = true) (he : Turn.Emitted t (t.act repr a) f)
    (hstatus : t.status = .responding) (hwritten : n.written = []) (hended : n.ended = none)
    (hendings : t.endings = []) (hhistory : ∀ f ∈ t.history, f.type.isTerminal = false) :
    Phase (t.act repr a, note repr t n a) ∧ Absorbed (t.act repr a, note repr t n a) := by
  have hlast := dropLast_of_emitted he hhistory
  have hw : (note repr t n a).written = [] := by
    rw [note, hwritten, Turn.writes_of_puts hputs]
    rfl
  have hnote := note_ended_of_none repr t a hended
  cases hf : f.type.isTerminal with
  | false =>
    obtain ⟨hs, hen⟩ := he.goesOn hf
    have hrunning : (t.act repr a).status = .responding := hs.trans hstatus
    rw [Option.filter_some, if_neg (by simp [Turn.isOver_eq_false.mpr hrunning])] at hnote
    refine ⟨.responding hnote (hen.trans hendings) ?_, absorbed_running hlast hnote hrunning hw⟩
    rw [he.history]
    exact List.forall_mem_append.mpr ⟨hhistory, List.forall_mem_singleton.mpr hf⟩
  | true =>
    obtain ⟨hs, content, hen, hcompleted, hfailed⟩ := he.ends hf
    rw [hendings, List.nil_append] at hen
    rw [Option.filter_some, if_pos (Turn.isOver_eq_true.mpr hs)] at hnote
    exact ⟨.terminal hnote (Turn.isOver_eq_true.mpr hs) hen hcompleted hfailed (.unread hen hw),
      absorbed_ended hlast hnote ⟨rfl, rfl, rfl⟩ (.inl hw)⟩

theorem Closing.readBody {e t : Turn} {content : Option PyStr}
    {written : List (PyStr × TurnStatus)} (h : Closing e content t written)
    (hr : t.replyText = e.replyText) (k : Nat) : Closing e content (t.readBody k) written := by
  cases h with
  | unread h hw =>
    cases k with
    | zero =>
      refine .unwritten ?_ hw
      rw [Turn.readBody, h, hr]
      rfl
    | succ k =>
      refine .unread ?_ hw
      simp [Turn.readBody, h]
  | unwritten h hw =>
    refine .unwritten ?_ hw
    cases k with
    | zero =>
      rw [Turn.readBody, h]
      rfl
    | succ k => simp [Turn.readBody, h]
  | done h hw => exact .done (Turn.readBody_nil h k) hw

/-- An update finds no text, or the one that is left to write. -/
theorem Closing.write_cases {e t : Turn} {content : Option PyStr}
    {written : List (PyStr × TurnStatus)} (h : Closing e content t written) (k : Nat) :
    t.endings[k]?.bind Ending.body = none ∨
      (k = 0 ∧ written = [] ∧
        t.endings = [⟨e.status, content, some (Turn.finalBody content e.replyText)⟩]) := by
  cases h with
  | unread h hw =>
    cases k with
    | zero => exact .inl (by simp [h])
    | succ k => exact .inl (by simp [h])
  | unwritten h hw =>
    cases k with
    | zero => exact .inr ⟨rfl, hw, h⟩
    | succ k => exact .inl (by simp [h])
  | done h hw => exact .inl (by simp [h])

theorem Closing.write {e t : Turn} {content : Option PyStr} {written : List (PyStr × TurnStatus)}
    (h : Closing e content t written) (k : Nat) (fails : Bool) :
    Closing e content (t.write k fails) (written ++ (t.writing? k fails).toList) := by
  obtain hnone | ⟨rfl, rfl, hendings⟩ := h.write_cases k
  · rw [Turn.write_unread hnone, Turn.writing?_unread hnone, Option.toList_none, List.append_nil]
    exact h
  · rw [Turn.write_zero hendings, List.nil_append]
    refine .done rfl ?_
    obtain hnone | hsome := Turn.writing?_zero hendings fails
    · exact .inl (by rw [hnone, Option.toList_none])
    · exact .inr (by rw [hsome, Option.toList_some])

theorem Closing.quiet {e t t' : Turn} {content : Option PyStr}
    {written : List (PyStr × TurnStatus)} (h : Closing e content t written)
    (hr : t.replyText = e.replyText) {a : Action} (hq : Turn.Quiet t a t') :
    Closing e content t' (written ++ t.writes a) := by
  have hsame : ∀ t₁ : Turn, t₁.endings = t.endings → Closing e content t₁ (written ++ []) := by
    intro t₁ h₁
    rw [List.append_nil]
    cases h with
    | unread h hw => exact .unread (h₁.trans h) hw
    | unwritten h hw => exact .unwritten (h₁.trans h) hw
    | done h hw => exact .done (h₁.trans h) hw
  cases hq with
  | same hw =>
    rw [hw]
    exact hsame t rfl
  | startStream => exact hsame _ rfl
  | readBody k =>
    change Closing e content _ (written ++ [])
    rw [List.append_nil]
    exact h.readBody hr k
  | write k fails => exact h.write k fails
  | commit => exact hsame _ rfl
  | rollback => exact hsame _ rfl

theorem Closing.writes {e t : Turn} {content : Option PyStr} {written : List (PyStr × TurnStatus)}
    (h : Closing e content t written) (he : e.endings = [⟨e.status, content, none⟩]) :
    written = [] ∨ written = e.closing := by
  have hclosing : e.closing = [(Turn.finalBody content e.replyText, e.status)] := by
    rw [Turn.closing, he]
    rfl
  cases h with
  | unread _ hw => exact .inl hw
  | unwritten _ hw => exact .inl hw
  | done _ hw => rwa [hclosing]

theorem endings_quiet {t t' : Turn} {a : Action} (hq : Turn.Quiet t a t') (h : t.endings = []) :
    t'.endings = [] ∧ t.writes a = [] := by
  cases hq with
  | same hw => exact ⟨h, hw⟩
  | readBody k => exact ⟨Turn.readBody_nil h k, rfl⟩
  | write k fails =>
    have hnone : t.endings[k]?.bind Ending.body = none := by simp [h]
    rw [Turn.write_unread hnone, Turn.writes, Turn.writing?_unread hnone]
    exact ⟨h, rfl⟩
  | _ => exact ⟨h, rfl⟩

/-- An action that puts no frame on the turn. -/
theorem keeps_quiet (repr : Value → PyStr) {t : Turn} {n : Note} {a : Action}
    (hq : Turn.Quiet t a (t.act repr a)) (hphase : Phase (t, n)) (h : Absorbed (t, n)) :
    Phase (t.act repr a, note repr t n a) ∧ Absorbed (t.act repr a, note repr t n a) := by
  have hstill := hq.still
  have hlast : ∀ f ∈ (t.act repr a).history.dropLast, f.type.isTerminal = false := by
    rw [hstill.history]
    exact h.last
  cases hphase with
  | responding hended hendings hhistory =>
    obtain ⟨hstatus, hwritten⟩ := h.running hended
    obtain ⟨hendings', hwrites⟩ := endings_quiet hq hendings
    have hrunning : (t.act repr a).status = .responding := hstill.status.trans hstatus
    have hnote := note_ended_of_none repr t a hended
    rw [Option.filter_some, if_neg (by simp [Turn.isOver_eq_false.mpr hrunning])] at hnote
    refine ⟨.responding hnote hendings' ?_, absorbed_running hlast hnote hrunning ?_⟩
    · rw [hstill.history]
      exact hhistory
    · rw [note, hwritten, hwrites]
      rfl
  | terminal hended hover he hcompleted hfailed hclosing =>
    have hnote := note_ended_of_some repr t a hended
    obtain ⟨hkept, -⟩ := h.ended _ hended
    have hclosing' := hclosing.quiet hkept.replyText hq
    exact ⟨.terminal hnote hover he hcompleted hfailed hclosing',
      absorbed_ended hlast hnote (hkept.trans hstill) (hclosing'.writes he)⟩

theorem absorbed_of_inTime (repr : Value → PyStr) {t : Turn} {n : Note} {a : Action}
    (hphase : Phase (t, n)) (h : Absorbed (t, n)) (ha : InTime t a) :
    Phase (t.act repr a, note repr t n a) ∧ Absorbed (t.act repr a, note repr t n a) := by
  cases hputs : t.puts a with
  | false => exact keeps_quiet repr (Turn.quiet_of_not_puts repr hputs) hphase h
  | true =>
    have hstatus := ha hputs
    obtain ⟨f, he⟩ := Turn.emitted_of_puts repr hputs
    cases hphase with
    | responding hended hendings hhistory =>
      exact keeps_emitted repr hputs he hstatus (h.running hended).2 hended hendings hhistory
    | terminal hended hover =>
      have hsame := (h.ended _ hended).1.status
      exact absurd (hsame.symm.trans hstatus) (Turn.isOver_eq_true.mp hover)

/-- A late frame shows in the history. -/
theorem inTime_of_absorbed (repr : Value → PyStr) {t : Turn} {n : Note} {a : Action}
    (h : Absorbed (t, n)) (h' : Absorbed (t.act repr a, note repr t n a)) : InTime t a := by
  intro hputs
  obtain ⟨f, he⟩ := Turn.emitted_of_puts repr hputs
  cases hended : n.ended with
  | none => exact (h.running hended).1
  | some e =>
    have hold := (h.ended e hended).1.history
    have hnew := (h'.ended e (note_ended_of_some repr t a hended)).1.history
    have hgrown := he.history
    rw [hnew, ← hold] at hgrown
    simp at hgrown

theorem absorbed_scheduled {i : Input} {t : Turn} (h : spawn i = some t) :
    Phase (t, Note.start) ∧ Absorbed (t, Note.start) := by
  obtain ⟨hstatus, hhistory, hendings⟩ := scheduled_of_spawn h
  refine ⟨.responding rfl hendings ?_, absorbed_running ?_ rfl hstatus rfl⟩
  · rw [hhistory]
    exact List.forall_mem_nil _
  · rw [hhistory]
    exact List.forall_mem_nil _

/-- Of every turn that is over nothing moves any more, in exactly the runs where no frame comes
for a turn that is over. -/
theorem absorbed_iff (repr : Value → PyStr) (is : List Input) :
    Run.Always (watchedTurns repr).step (fun ws => ∀ w ∈ ws.rows, Absorbed w) .empty is ↔
      Run.Meets (watchedTurns repr).step
        (fun ws i => ∀ w ∈ ws.rows, ∀ a, route i w.1 = some a → InTime w.1 a) .empty is := by
  apply Fleet.always_rows_iff (F := watchedTurns repr) (r := Phase)
    (p := fun w a => InTime w.1 a)
  · rintro i ⟨t, n⟩ hw
    obtain ⟨ht, rfl⟩ := Fleet.spawn_of_watch _ _ _ hw
    exact absorbed_scheduled ht
  · intro w a hphase h ha
    exact absorbed_of_inTime repr hphase h ha
  · intro w a _ h h'
    exact inTime_of_absorbed repr h h'
  · exact List.forall_mem_nil _

/-- A chunk comes after the done frame. -/
def lateChunk : List Input :=
  [.schedule "t" "r" "i" "w" (py "fox") (py "hi") true,
    .tunnel "i" ⟨py "chat.response.done", some (.str (py "t")), []⟩,
    .tunnel "i" ⟨py "chat.response.chunk", some (.str (py "t")), [(py "token", .str (py "x"))]⟩]

theorem lateChunk_counts :
    ¬ Run.Always (watchedTurns fun _ => []).step (fun ws => ∀ w ∈ ws.rows, Absorbed w) .empty
      lateChunk := by
  intro h
  have hlast : ((Run.exec (watchedTurns fun _ => []).step .empty lateChunk).rows.all fun w =>
      w.1.history.dropLast.all fun f => !f.type.isTerminal) = true := by
    simp only [List.all_eq_true, Bool.not_eq_true']
    intro w hw
    exact (h.exec w hw).last
  exact absurd hlast (by decide)

end Eyot.Composer
