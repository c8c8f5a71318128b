import Eyot.Composer.Absorbing

/-! The transcript of a turn: a row that the sending request inserts and commits, and that the
turn's own tasks fill in. -/

namespace Eyot.Composer

open Turn (Emitted Quiet finalBody)

/-- The committed row of a turn that is over shows the reply. -/
def ShowsReply (t : Turn) : Prop :=
  t.isOver = true → ∀ content status, t.row = .committed content status →
    status = t.status ∧ content = t.replyText

/-- A row as the first terminal frame wants it: the reply of a completed turn; the error message
of a failed one, or its reply if the message is blank. -/
structure Closed (w : Turn × Note) (content : PyStr) (status : TurnStatus) : Prop where
  status : status = w.1.status
  completed : w.1.status = .completed → content = w.1.replyText
  failed : w.1.status = .failed → ∃ e message, w.2.ended = some e ∧
    e.endings = [⟨.failed, some message, none⟩] ∧ content = finalBody (some message) w.1.replyText

/-- The committed row of a turn that is over and has nothing left to do. -/
def Settled (w : Turn × Note) : Prop :=
  w.1.isOver = true → w.1.endings = [] → ∀ content status,
    w.1.row = .committed content status → Closed w content status

def TranscriptRow.isCommitted : TranscriptRow → Bool
  | .committed .. => true
  | _ => false

/-- A row is committed before its turn's update looks for it, and the database takes the update. -/
def Lands (t : Turn) : Action → Prop
  | .commit => ¬ (t.row = .uncommitted ∧ t.isOver = true ∧ t.endings = [])
  | .task (.write k fails) => t.row.isCommitted = true → ∀ body ∈ t.endings[k]?.bind Ending.body,
    fails = false ∧ body.isStorable = true
  | _ => True

instance (t : Turn) : ∀ a, Decidable (Lands t a)
  | .commit =>
    inferInstanceAs (Decidable (¬ (t.row = .uncommitted ∧ t.isOver = true ∧ t.endings = [])))
  | .task (.write k fails) =>
    inferInstanceAs (Decidable (t.row.isCommitted = true →
      ∀ body ∈ t.endings[k]?.bind Ending.body, fails = false ∧ body.isStorable = true))
  | .task (.readBody _) | .task .startStream | .task (.token _) | .task (.finish _)
  | .task (.fail _) | .rollback | .receive _ => .isTrue trivial

/-- Until its update a row is as the request has inserted it. -/
def Unfilled (t : Turn) : Prop :=
  (t.isOver = true → t.endings ≠ []) → ∀ content status, t.row = .committed content status →
    content = [] ∧ status = .responding

theorem TranscriptRow.exists_of_isCommitted {row : TranscriptRow} (h : row.isCommitted = true) :
    ∃ content status, row = .committed content status := by
  cases row with
  | committed content status => exact ⟨content, status, rfl⟩
  | _ => cases h

theorem isOver_congr {t t' : Turn} (h : t'.status = t.status) : t'.isOver = t.isOver := by
  rw [Turn.isOver, Turn.isOver, h]

/-- A frame on a turn that is responding leaves the row as it is, and something to do. -/
theorem unsettled_of_emitted {t t' : Turn} {f : Frame} (he : Emitted t t' f)
    (hstatus : t.status = .responding) : t'.isOver = true → t'.endings ≠ [] := by
  intro hover
  cases hf : f.type.isTerminal with
  | false =>
    rw [Turn.isOver_eq_true, (he.goesOn hf).1] at hover
    exact absurd hstatus hover
  | true =>
    obtain ⟨_, content, hendings, -⟩ := he.ends hf
    rw [hendings]
    exact List.append_ne_nil_of_right_ne_nil _ (List.cons_ne_nil _ _)

theorem Settled.congr {t t' : Turn} {n n' : Note} (h : Settled (t, n)) (hstill : Turn.Still t t')
    (hrow : t'.row = t.row) (hendings : t'.endings = [] → t.endings = [])
    (hended : ∀ e, n.ended = some e → n'.ended = some e) : Settled (t', n') := by
  intro hover hnil content status hc
  rw [isOver_congr hstill.status] at hover
  rw [hrow] at hc
  have hclosed := h hover (hendings hnil) content status hc
  refine ⟨hclosed.status.trans hstill.status.symm, ?_, ?_⟩
  · intro hs
    rw [hclosed.completed (hstill.status.symm.trans hs)]
    exact hstill.replyText.symm
  · intro hs
    obtain ⟨e, message, he, hem, hbody⟩ := hclosed.failed (hstill.status.symm.trans hs)
    refine ⟨e, message, hended e he, hem, ?_⟩
    rw [hbody]
    exact congrArg _ hstill.replyText.symm

theorem Unfilled.congr {t t' : Turn} (h : Unfilled t) (hstatus : t'.status = t.status)
    (hrow : t'.row = t.row) (hendings : t.endings = [] → t'.endings = []) : Unfilled t' := by
  intro hopen content status hc
  rw [hrow] at hc
  apply h _ content status hc
  intro hover hnil
  exact hopen (by rwa [isOver_congr hstatus]) (hendings hnil)

/-- The update of the ending that is left fills the row, or finds none that is committed. -/
theorem closed_of_write {t : Turn} {n : Note} {e : Turn} {content : Option PyStr} {fails : Bool}
    (hended : n.ended = some e) (he : e.endings = [⟨e.status, content, none⟩])
    (hcompleted : e.status = .completed → content = none)
    (hfailed : e.status = .failed → content.isSome) (hstatus : t.status = e.status)
    (hreply : t.replyText = e.replyText)
    (hendings : t.endings = [⟨e.status, content, some (finalBody content e.replyText)⟩])
    (hlands : Lands t (.task (.write 0 fails))) : Settled (t.write 0 fails, n) := by
  intro _ _ c status hc
  rw [Turn.write_zero hendings] at hc ⊢
  obtain ⟨c₀, st₀, hr⟩ : ∃ c₀ st₀, t.row = .committed c₀ st₀ := by
    cases hr : t.row with
    | committed c₀ st₀ => exact ⟨c₀, st₀, rfl⟩
    | absent => simp [Turn.writing?, hr] at hc
    | uncommitted => simp [Turn.writing?, hr] at hc
  have hgood := hlands (by rw [hr]; rfl) (finalBody content e.replyText) (by simp [hendings])
  rw [Turn.writing?_zero_eq_some hendings fails hr hgood] at hc
  simp only [Option.elim_some, TranscriptRow.committed.injEq] at hc
  obtain ⟨rfl, rfl⟩ := hc
  refine ⟨hstatus.symm, ?_, ?_⟩
  · intro hs
    rw [hcompleted (hstatus.symm.trans hs), Turn.finalBody_none]
    exact hreply.symm
  · intro hs
    have hs' : e.status = .failed := hstatus.symm.trans hs
    obtain ⟨message, hm⟩ := Option.isSome_iff_exists.mp (hfailed hs')
    refine ⟨e, message, hended, ?_, ?_⟩
    · rw [he, hs', hm]
    · rw [hm]
      exact congrArg _ hreply.symm

theorem unfilled_setRow {t : Turn} (h : Unfilled t) {row : TranscriptRow}
    (hrow : ∀ content status, row = .committed content status →
      content = [] ∧ status = .responding) : Unfilled (t.setRow row) := by
  intro hopen content status hc
  rw [Turn.setRow] at hc
  cases hr : t.row with
  | uncommitted => exact hrow content status (by simpa [hr] using hc)
  | absent => simp [hr] at hc
  | committed c st => exact h hopen content status (by simpa [hr] using hc)

theorem settled_setRow {t : Turn} {n n' : Note} (h : Settled (t, n)) {row : TranscriptRow}
    (hrow : ¬ (t.row = .uncommitted ∧ t.isOver = true ∧ t.endings = []) ∨
      ∀ content status, row ≠ .committed content status)
    (hended : ∀ e, n.ended = some e → n'.ended = some e) : Settled (t.setRow row, n') := by
  by_cases hr : t.row = .uncommitted
  · intro hover hnil content status hc
    rw [Turn.setRow, if_pos hr] at hc
    obtain hne | hne := hrow
    · exact absurd ⟨hr, hover, hnil⟩ hne
    · exact absurd hc (hne content status)
  · have hsame : t.setRow row = t := by
      rw [Turn.setRow, if_neg hr]
    rw [hsame]
    exact h.congr ⟨rfl, rfl, rfl⟩ rfl id hended

/-- An action that puts no frame on the turn. -/
theorem settled_of_quiet {t t' : Turn} {n n' : Note} {a : Action} (hq : Quiet t a t')
    (hphase : Phase (t, n)) (habs : Absorbed (t, n)) (hunf : Unfilled t) (hset : Settled (t, n))
    (hlands : Lands t a) (hended : ∀ e, n.ended = some e → n'.ended = some e) :
    Unfilled t' ∧ Settled (t', n') := by
  cases hq with
  | same _ => exact ⟨hunf, hset.congr ⟨rfl, rfl, rfl⟩ rfl id hended⟩
  | startStream => exact ⟨hunf.congr rfl rfl id, hset.congr ⟨rfl, rfl, rfl⟩ rfl id hended⟩
  | readBody k =>
    have hnil : (t.readBody k).endings = [] → t.endings = [] := by
      intro h
      rwa [Turn.readBody, List.modify_eq_nil_iff] at h
    exact ⟨hunf.congr rfl rfl (Turn.readBody_nil · k),
      hset.congr ⟨rfl, rfl, rfl⟩ rfl hnil hended⟩
  | commit =>
    refine ⟨unfilled_setRow hunf ?_, settled_setRow hset (.inl hlands) hended⟩
    intro content status h
    cases h
    exact ⟨rfl, rfl⟩
  | rollback =>
    refine ⟨unfilled_setRow hunf ?_, settled_setRow hset (.inr ?_) hended⟩
    · intro content status h
      cases h
    · intro content status h
      cases h
  | write k fails =>
    cases hphase with
    | responding _ hendings _ =>
      rw [Turn.write_unread (by simp [show t.endings = [] from hendings])]
      exact ⟨hunf, hset.congr ⟨rfl, rfl, rfl⟩ rfl id hended⟩
    | terminal he hover hen hcompleted hfailed hclosing =>
      obtain hnone | ⟨rfl, -, hendings⟩ := hclosing.write_cases k
      · rw [Turn.write_unread hnone]
        exact ⟨hunf, hset.congr ⟨rfl, rfl, rfl⟩ rfl id hended⟩
      · obtain ⟨hkept, -⟩ := habs.ended _ he
        refine ⟨?_, ?_⟩
        · intro hopen
          refine absurd ?_ (hopen ?_)
          · rw [Turn.write_zero hendings]
          · have hstill := (Quiet.write (t := t) 0 fails).still
            rw [isOver_congr hstill.status, isOver_congr hkept.status]
            exact hover
        · exact closed_of_write (hended _ he) hen hcompleted hfailed hkept.status
            hkept.replyText hendings hlands

/-- After an update that is refused the row still says that the turn is responding. -/
theorem unsettled_of_write {t e : Turn} {n n' : Note} {content : Option PyStr} {body : PyStr}
    {fails : Bool} (he : n.ended = some e) (hover : e.isOver = true) (habs : Absorbed (t, n))
    (hunf : Unfilled t) (hendings : t.endings = [⟨e.status, content, some body⟩])
    (hrow : t.row.isCommitted = true) (hbad : ¬ (fails = false ∧ body.isStorable = true)) :
    ¬ Settled (t.write 0 fails, n') := by
  intro h
  have hstatus : t.status = e.status := (habs.ended e he).1.status
  have hover' : t.isOver = true := by rwa [isOver_congr hstatus]
  obtain ⟨c, st, hr⟩ := TranscriptRow.exists_of_isCommitted hrow
  have hresponding : st = .responding := by
    refine (hunf (fun _ => ?_) c st hr).2
    rw [hendings]
    exact List.cons_ne_nil _ _
  have hwrite := Turn.write_zero hendings fails
  rw [Turn.writing?_zero_eq_none hendings fails hr hbad] at hwrite
  rw [hwrite] at h
  have hst := (h hover' rfl c st hr).status
  exact Turn.isOver_eq_true.mp hover' (hst.symm.trans hresponding)

/-- A commit or an update that goes wrong shows in the row. -/
theorem lands_of_settled {t : Turn} {n : Note} (hphase : Phase (t, n)) (habs : Absorbed (t, n))
    (hunf : Unfilled t) {repr : Value → PyStr} {a : Action}
    (h : Settled (t.act repr a, note repr t n a)) : Lands t a := by
  cases a with
  | receive hf => trivial
  | rollback => trivial
  | commit =>
    rintro ⟨hrow, hover, hnil⟩
    have hc : (t.act repr .commit).row = .committed [] .responding := by
      simp [Turn.act, Turn.setRow, hrow]
    have hstatus := (h hover hnil [] .responding hc).status
    exact Turn.isOver_eq_true.mp hover hstatus.symm
  | task step =>
    cases step with
    | write k fails =>
      intro hrow body hbody
      cases hphase with
      | responding _ hendings _ =>
        rw [show t.endings = [] from hendings] at hbody
        simp at hbody
      | terminal he hover hen hcompleted hfailed hclosing =>
        obtain hnone | ⟨rfl, -, hendings⟩ := hclosing.write_cases k
        · rw [hnone] at hbody
          cases hbody
        · rw [hendings] at hbody
          cases hbody
          by_contra hbad
          exact unsettled_of_write he hover habs hunf hendings hrow hbad h
    | _ => trivial

/-- What is known of a turn and its notes as long as no frame is late and no update is lost. -/
structure Orderly (w : Turn × Note) : Prop where
  phase : Phase w
  unfilled : Unfilled w.1

theorem orderly_act (repr : Value → PyStr) {t : Turn} {n : Note} {a : Action}
    (h : Orderly (t, n)) (habs : Absorbed (t, n)) (hset : Settled (t, n)) (hin : InTime t a)
    (hlands : Lands t a) : Orderly (t.act repr a, note repr t n a) ∧
      Absorbed (t.act repr a, note repr t n a) ∧ Settled (t.act repr a, note repr t n a) := by
  obtain ⟨hphase', habs'⟩ := absorbed_of_inTime repr h.phase habs hin
  cases hputs : t.puts a with
  | false =>
    have hended : ∀ e, n.ended = some e → (note repr t n a).ended = some e :=
      fun e he => note_ended_of_some repr t a he
    obtain ⟨hunf', hset'⟩ := settled_of_quiet (Turn.quiet_of_not_puts repr hputs) h.phase habs
      h.unfilled hset hlands hended
    exact ⟨⟨hphase', hunf'⟩, habs', hset'⟩
  | true =>
    have hstatus := hin hputs
    obtain ⟨f, he⟩ := Turn.emitted_of_puts repr hputs
    have hopen := unsettled_of_emitted he hstatus
    refine ⟨⟨hphase', ?_⟩, habs', fun hover hnil => absurd hnil (hopen hover)⟩
    intro _ content status hc
    rw [he.row] at hc
    refine h.unfilled ?_ content status hc
    intro hover
    exact absurd hstatus (Turn.isOver_eq_true.mp hover)

theorem orderly_scheduled {i : Input} {t : Turn} (h : spawn i = some t) :
    Orderly (t, Note.start) ∧ Absorbed (t, Note.start) ∧ Settled (t, Note.start) := by
  obtain ⟨hphase, habs⟩ := absorbed_scheduled h
  have hrow : ∀ content status, t.row ≠ .committed content status := by
    cases i with
    | schedule turnId requestId instanceId workspaceId targetEntity text hasRow =>
      cases h
      cases hasRow with
      | _ =>
        intro content status hc
        cases hc
    | _ => cases h
  refine ⟨⟨hphase, ?_⟩, habs, ?_⟩
  · intro _ content status hc
    exact absurd hc (hrow content status)
  · intro _ _ content status hc
    exact absurd hc (hrow content status)

/-- The turns that are over stay as they are and the transcript agrees with them, in exactly the
runs where no frame comes for a turn that is over, and no update of a row comes before the row is
committed or is refused. -/
theorem settled_iff (repr : Value → PyStr) (is : List Input) :
    Run.Always (watchedTurns repr).step (fun ws => ∀ w ∈ ws.rows, Absorbed w ∧ Settled w)
        .empty is ↔
      Run.Meets (watchedTurns repr).step
        (fun ws i => ∀ w ∈ ws.rows, ∀ a, route i w.1 = some a → InTime w.1 a ∧ Lands w.1 a)
        .empty is := by
  apply Fleet.always_rows_iff (F := watchedTurns repr) (r := Orderly)
    (p := fun w a => InTime w.1 a ∧ Lands w.1 a)
  · rintro i ⟨t, n⟩ hw
    obtain ⟨ht, rfl⟩ := Fleet.spawn_of_watch _ _ _ hw
    exact orderly_scheduled ht
  · intro w a h hw ha
    exact orderly_act repr h hw.1 hw.2 ha.1 ha.2
  · intro w a h hw hw'
    exact ⟨inTime_of_absorbed repr hw.1 hw'.1,
      lands_of_settled h.phase hw.1 h.unfilled hw'.2⟩
  · exact List.forall_mem_nil _

theorem transcript_settled (repr : Value → PyStr) (is : List Input)
    (h : Run.Meets (watchedTurns repr).step
      (fun ws i => ∀ w ∈ ws.rows, ∀ a, route i w.1 = some a → InTime w.1 a ∧ Lands w.1 a)
      .empty is) :
    Run.Always (watchedTurns repr).step (fun ws => ∀ w ∈ ws.rows, Settled w) .empty is :=
  ((settled_iff repr is).mpr h).imp fun _ hws w hw => (hws w hw).2

/-- A turn that says something, and then fails. -/
def failedTurn : List Input :=
  [.schedule "t" "r" "i" "w" (py "fox") (py "hi") true, .commit "r",
    .tunnel "i" ⟨py "chat.response.chunk", some (.str (py "t")), [(py "token", .str (py "so"))]⟩,
    .tunnel "i" ⟨py "chat.response.error", some (.str (py "t")), [(py "message", .str (py "boom"))]⟩,
    .task "t" (.readBody 0), .task "t" (.write 0 false)]

theorem failedTurn_settled :
    Run.Always (watchedTurns fun _ => []).step (fun ws => ∀ w ∈ ws.rows, Settled w) .empty
      failedTurn :=
  transcript_settled _ failedTurn (by decide)

/-- The row of a failed turn shows why it failed. -/
theorem failedTurn_shows_message :
    ¬ ∀ t ∈ (Run.exec (turns fun _ => []).step .empty failedTurn).rows, ShowsReply t := by
  intro h
  have hrow : ∃ t ∈ (Run.exec (turns fun _ => []).step .empty failedTurn).rows,
      t.isOver = true ∧ t.replyText = py "so" ∧ t.row = .committed (py "boom") .failed := by
    decide
  obtain ⟨t, ht, hover, hreply, hc⟩ := hrow
  have hshown := (h t ht hover _ _ hc).2
  rw [hreply] at hshown
  exact absurd hshown (by decide)

end Eyot.Composer
