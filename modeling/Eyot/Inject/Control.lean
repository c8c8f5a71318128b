import Eyot.Library.Paging
import Eyot.Library.Run
import Eyot.Routing.Effects

/-! The control downlink: `harness.control_sent` events, the poll that reads them, and the
cursor of the loop that polls. -/

namespace Eyot.Inject.Control

open Routing (Value)

def isHex (c : Char) : Bool := ('0' ≤ c && c ≤ '9') || ('a' ≤ c && c ≤ 'f')

def dashes : List Nat := [8, 13, 18, 23]

def isUuid (s : String) : Bool :=
  s.toList.length = 36 && s.toList.zipIdx.all fun ci =>
    if ci.2 ∈ dashes then ci.1 = '-' else isHex ci.1

/-- `str(uuid.uuid4())`. -/
abbrev Uuid := { s : String // isUuid s }

structure Event where
  id : Uuid
  type : String
  resourceId : Option Id
  payload : Json Str

abbrev Events := Table Event.id

def harnessControlSent : String := "harness.control_sent"

namespace Event

def isFor (instanceId : Id) (e : Event) : Bool :=
  e.resourceId = some instanceId && e.type = harnessControlSent

def isKill (e : Event) : Bool :=
  (e.payload.get? "action".toList).bind Json.asStr? = some "kill".toList

end Event

def controlLimit : Nat := 50

/-- The cursor is a number; it is compared with the identifiers as a text. -/
def recentControlEvents (events : Events) (instanceId : Id) (lastSeenId : Nat) : List Event :=
  Window.first Event.id controlLimit
    (events.rows.filter fun e => e.isFor instanceId && toString lastSeenId < e.id.val)

/-- The cursor moves on for integers only. -/
def seeId (lastSeenId : Nat) : Value → Nat
  | .number n => max lastSeenId n
  | _ => lastSeenId

/-- What the loop does with the events of a response: the cursor after it, and the kill that
stops the loop. The identifiers of a response are texts. -/
def handleEvents (lastSeenId : Nat) : List Event → Nat × Option Event
  | [] => (lastSeenId, none)
  | e :: es =>
    if e.isKill then (seeId lastSeenId (.id e.id.val), some e)
    else handleEvents (seeId lastSeenId (.id e.id.val)) es

theorem handleEvents_eq (lastSeenId : Nat) (es : List Event) :
    handleEvents lastSeenId es = (lastSeenId, es.find? Event.isKill) := by
  induction es with
  | nil => rfl
  | cons e es ih =>
    rw [handleEvents, List.find?_cons]
    cases e.isKill with
    | true => rfl
    | false => exact ih

/-- One run of the loop of an instance, against the events recorded for it. -/
structure LoopRun where
  events : Events
  old : List Uuid
  lastSeenId : Nat
  returned : List Uuid
  stoppedBy : Option Event

inductive Step where
  | record (e : Event)
  | poll

namespace LoopRun

def start (events : Events) : LoopRun := ⟨events, events.rows.map Event.id, 0, [], none⟩

def record (s : LoopRun) (e : Event) : LoopRun :=
  match s.events.insert? e with
  | some events => { s with events := events }
  | none => s

def window (instanceId : Id) (s : LoopRun) : List Event :=
  recentControlEvents s.events instanceId s.lastSeenId

def poll (instanceId : Id) (s : LoopRun) : LoopRun :=
  match s.stoppedBy with
  | some _ => s
  | none =>
    { s with
      lastSeenId := (handleEvents s.lastSeenId (s.window instanceId)).1
      returned := s.returned ++ (s.window instanceId).map Event.id
      stoppedBy := (handleEvents s.lastSeenId (s.window instanceId)).2 }

def step (instanceId : Id) (s : LoopRun) : Step → LoopRun
  | .record e => s.record e
  | .poll => s.poll instanceId

/-- As long as the loop runs, each event recorded since its start has been returned to it, or
the next poll returns it. -/
def Complete (instanceId : Id) (s : LoopRun) : Prop :=
  s.stoppedBy = none → ∀ e ∈ s.events.rows, e.isFor instanceId → e.id ∉ s.old →
    e.id ∈ s.returned ∨ e ∈ s.window instanceId

def NoReplay (s : LoopRun) : Prop := s.returned.Nodup

def NoStaleKill (s : LoopRun) : Prop := ∀ e, s.stoppedBy = some e → e.id ∉ s.old

/-- An event recorded while the loop runs leaves each event the loop still waits for with less
than a page of control events before it; a poll finds no event in the first page that it has
seen, and no kill at its head that is older than the loop. -/
def InReach (instanceId : Id) (s : LoopRun) : Step → Prop
  | .record e =>
    s.stoppedBy = none → ∀ events, s.events.insert? e = some events →
      ∀ e' ∈ events.rows, e'.isFor instanceId → e'.id ∉ s.old → e'.id ∉ s.returned →
        Window.rank Event.id (events.rows.filter (·.isFor instanceId)) e' < controlLimit
  | .poll =>
    s.stoppedBy = none →
      (∀ e ∈ s.window instanceId, e.id ∉ s.returned) ∧
        ∀ e, (s.window instanceId).find? Event.isKill = some e → e.id ∉ s.old

/-! Every identifier comes after the cursor. -/

theorem zero_lt_uuid (u : Uuid) : toString 0 < u.val := by
  obtain ⟨s, h⟩ := u
  rw [isUuid, Bool.and_eq_true, decide_eq_true_eq, List.all_eq_true] at h
  obtain ⟨hlen, hall⟩ := h
  change "0" < s
  rw [String.lt_iff_toList_lt]
  cases hs : s.toList with
  | nil =>
    rw [hs] at hlen
    cases hlen
  | cons c tail =>
    cases tail with
    | nil =>
      rw [hs] at hlen
      cases hlen
    | cons d rest =>
      have hc := hall (c, 0) (by simp [hs])
      rw [if_neg (show (0 : Nat) ∉ dashes by decide), isHex, Bool.or_eq_true, Bool.and_eq_true,
        Bool.and_eq_true] at hc
      have hle : '0' ≤ c := by
        rcases hc with hc | hc
        · exact of_decide_eq_true hc.1
        · exact le_trans (show '0' ≤ 'a' by decide) (of_decide_eq_true hc.1)
      change ['0'] < c :: d :: rest
      rw [List.cons_lt_cons_iff]
      rcases lt_or_eq_of_le hle with hlt | heq
      · exact .inl hlt
      · exact .inr ⟨heq, List.nil_lt_cons _ _⟩

theorem recentControlEvents_zero (events : Events) (instanceId : Id) :
    recentControlEvents events instanceId 0 =
      Window.first Event.id controlLimit (events.rows.filter (·.isFor instanceId)) := by
  rw [recentControlEvents]
  congr 1
  apply List.filter_congr
  intro e _
  rw [decide_eq_true (zero_lt_uuid e.id), Bool.and_true]

theorem nodup_map_filter (events : Events) (instanceId : Id) :
    ((events.rows.filter (·.isFor instanceId)).map Event.id).Nodup :=
  events.keys_nodup.sublist (List.filter_sublist.map _)

/-- The first page holds the events with less than a page before them. -/
theorem mem_recentControlEvents_iff {events : Events} {instanceId : Id} {e : Event}
    (he : e ∈ events.rows) (hfor : e.isFor instanceId) :
    e ∈ recentControlEvents events instanceId 0 ↔
      Window.rank Event.id (events.rows.filter (·.isFor instanceId)) e < controlLimit := by
  rw [recentControlEvents_zero]
  exact Window.mem_first_iff (nodup_map_filter events instanceId)
    (List.mem_filter.mpr ⟨he, hfor⟩)

theorem poll_running {instanceId : Id} {s : LoopRun} (hs : s.stoppedBy = none) :
    s.poll instanceId =
      { s with
        returned := s.returned ++ (s.window instanceId).map Event.id
        stoppedBy := (s.window instanceId).find? Event.isKill } := by
  rw [poll, hs]
  simp only [handleEvents_eq]

theorem poll_stopped {instanceId : Id} {s : LoopRun} {e : Event} (hs : s.stoppedBy = some e) :
    s.poll instanceId = s := by
  rw [poll, hs]

theorem record_cases (s : LoopRun) (e : Event) :
    (s.events.insert? e = none ∧ s.record e = s) ∨
      ∃ events, s.events.insert? e = some events ∧ s.record e = { s with events := events } := by
  rw [record]
  cases hi : s.events.insert? e with
  | none => exact .inl ⟨rfl, rfl⟩
  | some events => exact .inr ⟨events, rfl, rfl⟩

/-- The identifiers are no integers, so the cursor stays where it starts. -/
theorem lastSeenId_step (instanceId : Id) (s : LoopRun) (c : Step) (h : s.lastSeenId = 0) :
    (s.step instanceId c).lastSeenId = 0 := by
  cases c with
  | record e =>
    obtain ⟨-, hsame⟩ | ⟨events, -, hdone⟩ := record_cases s e
    · rw [step, hsame, h]
    · rw [step, hdone, h]
  | poll =>
    rw [step]
    cases hs : s.stoppedBy with
    | none => rw [poll_running hs, h]
    | some e => rw [poll_stopped hs, h]

/-- What the loop still waits for is in the first page, for each state in turn. -/
theorem complete_record_iff (instanceId : Id) {s : LoopRun} (h : s.lastSeenId = 0)
    (hs : s.Complete instanceId) (e : Event) :
    (s.record e).Complete instanceId ↔ s.InReach instanceId (.record e) := by
  obtain ⟨hnone, hsame⟩ | ⟨events, hi, hdone⟩ := record_cases s e
  · rw [hsame, InReach, hnone]
    exact iff_of_true hs fun _ events hevents => by cases hevents
  · rw [hdone, InReach, hi]
    simp only [Complete, window, h]
    constructor
    · intro hc hrun events' hevents e' he' hfor hold hret
      obtain rfl : events = events' := Option.some.inj hevents
      exact (mem_recentControlEvents_iff he' hfor).mp ((hc hrun e' he' hfor hold).resolve_left hret)
    · intro hc hrun e' he' hfor hold
      by_cases hret : e'.id ∈ s.returned
      · exact .inl hret
      · exact .inr ((mem_recentControlEvents_iff he' hfor).mpr
          (hc hrun events rfl e' he' hfor hold hret))

theorem complete_poll (instanceId : Id) {s : LoopRun}
    (hs : s.Complete instanceId) : (s.poll instanceId).Complete instanceId := by
  cases hrun : s.stoppedBy with
  | some e =>
    rw [poll_stopped hrun]
    exact hs
  | none =>
    rw [poll_running hrun]
    intro _ e he hfor hold
    left
    refine List.mem_append.mpr ((hs hrun e he hfor hold).imp id fun hw => ?_)
    exact List.mem_map_of_mem hw

theorem noReplay_poll_iff {instanceId : Id} {s : LoopRun} (h : s.lastSeenId = 0)
    (hrun : s.stoppedBy = none) (hs : s.NoReplay) :
    (s.poll instanceId).NoReplay ↔ ∀ e ∈ s.window instanceId, e.id ∉ s.returned := by
  have hnodup : ((s.window instanceId).map Event.id).Nodup := by
    rw [window, h, recentControlEvents_zero]
    exact Window.nodup_map_first (nodup_map_filter s.events instanceId)
  rw [poll_running hrun, NoReplay, List.nodup_append]
  constructor
  · rintro ⟨-, -, hout⟩ e he hret
    exact hout e.id hret e.id (List.mem_map_of_mem he) rfl
  · intro hout
    refine ⟨hs, hnodup, ?_⟩
    rintro id hret _ hid rfl
    obtain ⟨e, he, rfl⟩ := List.mem_map.mp hid
    exact hout e he hret

theorem step_iff (instanceId : Id) (s : LoopRun) (c : Step) (h : s.lastSeenId = 0)
    (hs : s.Complete instanceId ∧ s.NoReplay ∧ s.NoStaleKill) :
    ((s.step instanceId c).Complete instanceId ∧ (s.step instanceId c).NoReplay ∧
      (s.step instanceId c).NoStaleKill) ↔ s.InReach instanceId c := by
  obtain ⟨hcomplete, hreplay, hkill⟩ := hs
  cases c with
  | record e =>
    have hkeep : (s.record e).NoReplay ∧ (s.record e).NoStaleKill := by
      obtain ⟨-, hsame⟩ | ⟨events, -, hdone⟩ := record_cases s e
      · rw [hsame]
        exact ⟨hreplay, hkill⟩
      · rw [hdone]
        exact ⟨hreplay, hkill⟩
    rw [step, complete_record_iff instanceId h hcomplete]
    exact and_iff_left hkeep
  | poll =>
    rw [step, InReach]
    cases hrun : s.stoppedBy with
    | some e =>
      rw [poll_stopped hrun]
      exact iff_of_true ⟨hcomplete, hreplay, hkill⟩ fun hnone => by cases hnone
    | none =>
      have hstale : (s.poll instanceId).NoStaleKill ↔
          ∀ e, (s.window instanceId).find? Event.isKill = some e → e.id ∉ s.old := by
        rw [poll_running hrun]
        rfl
      rw [noReplay_poll_iff h hrun hreplay, hstale]
      constructor
      · rintro ⟨-, hrest⟩ _
        exact hrest
      · intro hrest
        exact ⟨complete_poll instanceId hcomplete, hrest rfl⟩

/-- An event that is pushed off the first page before it is returned is never returned. -/
theorem hidden_forever (instanceId : Id) {s : LoopRun} (h : s.lastSeenId = 0) {e : Event}
    (he : e ∈ s.events.rows) (hfor : e.isFor instanceId) (hret : e.id ∉ s.returned)
    (hout : e ∉ s.window instanceId) (steps : List Step) :
    e.id ∉ (Run.exec (step instanceId) s steps).returned := by
  induction steps generalizing s with
  | nil => exact hret
  | cons c steps ih =>
    refine ih (lastSeenId_step instanceId s c h) ?_ ?_ ?_
    · cases c with
      | record e' =>
        obtain ⟨-, hsame⟩ | ⟨events, hi, hdone⟩ := record_cases s e'
        · rwa [step, hsame]
        · rw [step, hdone]
          change e ∈ events.rows
          rw [Table.insert?_rows hi]
          exact List.mem_append_left _ he
      | poll =>
        cases hrun : s.stoppedBy with
        | none => rwa [step, poll_running hrun]
        | some k => rwa [step, poll_stopped hrun]
    · cases c with
      | record e' =>
        obtain ⟨-, hsame⟩ | ⟨events, -, hdone⟩ := record_cases s e'
        · rwa [step, hsame]
        · rwa [step, hdone]
      | poll =>
        cases hrun : s.stoppedBy with
        | none =>
          rw [step, poll_running hrun, List.mem_append, not_or]
          refine ⟨hret, fun hid => ?_⟩
          obtain ⟨e', he', hid⟩ := List.mem_map.mp hid
          have hrow : e' ∈ s.events.rows := (List.mem_filter.mp (Window.mem_of_mem_first he')).1
          rw [s.events.eq_of_key_eq hrow he hid] at he'
          exact hout he'
        | some k => rwa [step, poll_stopped hrun]
    · rw [window, h, mem_recentControlEvents_iff he hfor] at hout
      cases c with
      | record e' =>
        obtain ⟨-, hsame⟩ | ⟨events, hi, hdone⟩ := record_cases s e'
        · rwa [step, hsame, window, h, mem_recentControlEvents_iff he hfor]
        · have hrows := Table.insert?_rows hi
          have he'' : e ∈ events.rows := by
            rw [hrows]
            exact List.mem_append_left _ he
          rw [step, hdone, window, h, mem_recentControlEvents_iff he'' hfor, not_lt]
          refine le_trans (not_lt.mp hout) (Window.rank_le_of_sublist ?_ e)
          rw [hrows, List.filter_append]
          exact List.sublist_append_left _ _
      | poll =>
        cases hrun : s.stoppedBy with
        | none => rwa [step, poll_running hrun, window, h, mem_recentControlEvents_iff he hfor]
        | some k => rwa [step, poll_stopped hrun, window, h, mem_recentControlEvents_iff he hfor]

/-- A loop gets each event recorded during its run, none of them twice, and is stopped by none
that is older than itself, in exactly the runs whose events stay in reach. -/
theorem downlink_iff (instanceId : Id) (events : Events) (steps : List Step) :
    Run.Always (step instanceId)
        (fun s => s.Complete instanceId ∧ s.NoReplay ∧ s.NoStaleKill) (start events) steps ↔
      Run.Meets (step instanceId) (InReach instanceId) (start events) steps := by
  apply Run.always_iff_meets (r := fun s => s.lastSeenId = 0)
  · exact fun s c h => lastSeenId_step instanceId s c h
  · exact fun s c h hs => step_iff instanceId s c h hs
  · rfl
  · refine ⟨fun _ e he _ hold => ?_, List.nodup_nil, fun e he => by cases he⟩
    exact absurd (List.mem_map_of_mem he) hold

def firstUuid : String := "00000000-0000-4000-8000-000000000000"

theorem firstUuid_isUuid : isUuid firstUuid := by decide

/-- A kill meant for the loop that ran before. -/
def oldKill : Event where
  id := ⟨firstUuid, firstUuid_isUuid⟩
  type := harnessControlSent
  resourceId := some "i"
  payload := .obj [("action".toList, .str "kill".toList)]

theorem oldKill_stops :
    ¬ Run.Always (step "i") (fun s => s.Complete "i" ∧ s.NoReplay ∧ s.NoStaleKill)
      (start (.single oldKill)) [.poll] := by
  intro h
  have hstop : (Run.exec (step "i") (start (.single oldKill)) [.poll]).stoppedBy.map Event.id =
      some oldKill.id := by decide
  obtain ⟨e, he, hid⟩ := Option.map_eq_some_iff.mp hstop
  refine h.exec.2.2 e he ?_
  rw [hid]
  exact List.mem_cons_self

end LoopRun

end Eyot.Inject.Control
