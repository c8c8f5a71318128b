import Eyot.Host.ChatBridge
import Eyot.Library.Run
import Eyot.Portal.ThinkingFilter

/-! What the composer shows of the activities of an agent: the bridge of the instance host reports
them, and the portal tells the tools apart by their names alone. -/

namespace Eyot.Portal

open Host (ActivityKind ActivityStatus)

/-- An activity frame as the portal reads it. -/
structure ActivityFrame where
  kind : ActivityKind
  status : ActivityStatus
  toolName : Option Units
  delta : Option Units

structure ActivityItem where
  id : Nat
  kind : ActivityKind
  toolName : Option Units
  status : ActivityStatus
  deltas : Units
  isDelegation : Option Bool

/-- `/subagent/i` -/
def isSubagentTool (toolName : Units) : Bool :=
  toolName.tails.any fun l => (l.take 8).map ignoreCase = units "subagent"

namespace ActivityFrame

def name (frame : ActivityFrame) : Units := frame.toolName.getD (units "unknown")

/-- An empty delta is no delta. -/
def delta? (frame : ActivityFrame) : Option Units :=
  if frame.status = .delta then frame.delta.filter (· ≠ []) else none

end ActivityFrame

namespace ActivityItem

def isTool (toolName : Units) (a : ActivityItem) : Bool :=
  a.kind = .toolUse && a.toolName = some toolName

def isOpen (toolName : Units) (a : ActivityItem) : Bool :=
  a.isTool toolName && a.status ≠ .finish

def isThinking (a : ActivityItem) : Bool := a.kind = .thinking

end ActivityItem

def ingestThinking (counter : Nat) (activities : List ActivityItem) (frame : ActivityFrame) :
    Nat × List ActivityItem :=
  if activities.any (·.isThinking) then
    match frame.delta? with
    | some delta =>
      (counter, activities.map fun a =>
        if a.isThinking then { a with status := .delta, deltas := a.deltas ++ delta } else a)
    | none =>
      if frame.status = .finish then
        (counter, activities.map fun a => if a.isThinking then { a with status := .finish } else a)
      else (counter, activities)
  else if frame.status = .start ∨ frame.status = .delta then
    (counter + 1, activities ++
      [⟨counter + 1, .thinking, none, frame.status, frame.delta.getD [], none⟩])
  else (counter, activities)

def ingestTool (counter : Nat) (activities : List ActivityItem) (frame : ActivityFrame) :
    Nat × List ActivityItem :=
  if frame.status = .start then
    if activities.any (·.isOpen frame.name) then (counter, activities)
    else (counter + 1, activities ++ [⟨counter + 1, .toolUse, some frame.name, .start, [],
      some (isSubagentTool frame.name)⟩])
  else
    match frame.delta? with
    | some delta =>
      (counter, activities.map fun a =>
        if a.isOpen frame.name then { a with status := .delta, deltas := a.deltas ++ delta } else a)
    | none =>
      if frame.status = .finish then
        (counter, activities.map fun a =>
          if a.isOpen frame.name then { a with status := .finish } else a)
      else (counter, activities)

/-- `ingestActivityFrame`, with the counter the ids are taken from. -/
def ingestActivityFrame (counter : Nat) (activities : List ActivityItem) (frame : ActivityFrame) :
    Nat × List ActivityItem :=
  match frame.kind with
  | .thinking => ingestThinking counter activities frame
  | .toolUse => ingestTool counter activities frame

/-- The lanes of the composer, with their activities. -/
structure Lanes where
  activityIdCounter : Nat
  lanes : List (Units × List ActivityItem)

/-- The activities of each lane of the turn take the frame in. -/
def ingestLanes (turnId : Units) (frame : ActivityFrame) :
    Nat → List (Units × List ActivityItem) → Nat × List (Units × List ActivityItem)
  | counter, [] => (counter, [])
  | counter, (turn, activities) :: lanes =>
    let (counter, activities) := if turn = turnId then ingestActivityFrame counter activities frame
      else (counter, activities)
    let (counter, lanes) := ingestLanes turnId frame counter lanes
    (counter, (turn, activities) :: lanes)

def Lanes.ingest (s : Lanes) (event : Units × ActivityFrame) : Lanes :=
  let r := ingestLanes event.1 event.2 s.activityIdCounter s.lanes
  ⟨r.1, r.2⟩

/-! What there is to be seen of one tool, and of the thinking. -/

/-- The calls of a tool: the texts of those that are over, and of the one in progress. -/
structure Calls where
  ended : List Units := []
  current : Option Units := none

namespace Calls

def step (c : Calls) (frame : ActivityFrame) : Calls :=
  match frame.status with
  | .start => { c with current := some (c.current.getD []) }
  | .delta => { c with current := c.current.map (· ++ (frame.delta?).getD []) }
  | .finish => ⟨c.ended ++ c.current.toList, none⟩

def shown (c : Calls) : List (Units × Bool) :=
  c.ended.map (·, true) ++ c.current.toList.map (·, false)

def text (c : Calls) : Units := c.ended.flatten ++ c.current.getD []

end Calls

/-- All phases of thinking are one text. -/
structure Thought where
  text : Units
  ended : Bool

def Thought.step (t : Option Thought) (frame : ActivityFrame) : Option Thought :=
  match t with
  | none => if frame.status = .finish then none else some ⟨frame.delta.getD [], false⟩
  | some t =>
    match frame.delta? with
    | some delta => some ⟨t.text ++ delta, false⟩
    | none => some (if frame.status = .finish then ⟨t.text, true⟩ else t)

namespace ActivityItem

def seen (a : ActivityItem) : Units × Bool := (a.deltas, a.status = .finish)

end ActivityItem

def seenOf (p : ActivityItem → Bool) (activities : List ActivityItem) : List (Units × Bool) :=
  (activities.filter p).map (·.seen)

def callsShown (toolName : Units) : List ActivityItem → List (Units × Bool) :=
  seenOf (·.isTool toolName)

def thoughtShown : List ActivityItem → List (Units × Bool) := seenOf (·.isThinking)

section Kind

variable {p q : ActivityItem → Bool} {g : ActivityItem → ActivityItem}

/-- An item that is changed stays an item of its kind. -/
theorem filter_map_if (hp : ∀ a, p (g a) = p a) (activities : List ActivityItem) :
    (activities.map fun a => if q a then g a else a).filter p =
      (activities.filter p).map fun a => if q a then g a else a := by
  rw [List.filter_map]
  congr 1
  refine List.filter_congr fun a _ => ?_
  rw [Function.comp_apply]
  split
  · exact hp a
  · rfl

/-- What happens to other items is not seen. -/
theorem seenOf_skip (hp : ∀ a, p (g a) = p a) (hq : ∀ a, p a = true → q a = false)
    (activities : List ActivityItem) :
    seenOf p (activities.map fun a => if q a then g a else a) = seenOf p activities := by
  rw [seenOf, filter_map_if hp, List.map_map, seenOf]
  refine List.map_congr_left fun a ha => ?_
  rw [Function.comp_apply, hq a (List.mem_filter.mp ha).2, if_neg Bool.false_ne_true]

theorem seenOf_concat (p : ActivityItem → Bool) (activities : List ActivityItem)
    (a : ActivityItem) :
    seenOf p (activities ++ [a]) = seenOf p activities ++ if p a then [a.seen] else [] := by
  rw [seenOf, List.filter_append, List.map_append, List.filter_singleton]
  cases p a <;> rfl

end Kind

section Tool

variable {toolName : Units} {activities : List ActivityItem} {c : Calls}

theorem any_isOpen (toolName : Units) (activities : List ActivityItem) :
    activities.any (·.isOpen toolName) = (callsShown toolName activities).any fun s => !s.2 := by
  rw [callsShown, seenOf, List.any_map, List.any_filter]
  congr 1
  funext a
  simp [ActivityItem.isOpen, ActivityItem.seen]

theorem any_shown (c : Calls) : (c.shown.any fun s => !s.2) = c.current.isSome := by
  rw [Calls.shown, List.any_append, List.any_map]
  cases c.current <;> simp [Function.comp_def]

theorem callsShown_update {g : ActivityItem → ActivityItem} {u : Units × Bool → Units × Bool}
    (htool : ∀ a, (g a).isTool toolName = a.isTool toolName) (hseen : ∀ a, (g a).seen = u a.seen)
    (h : callsShown toolName activities = c.shown) :
    callsShown toolName (activities.map fun a => if a.isOpen toolName then g a else a) =
      c.ended.map (·, true) ++ c.current.toList.map fun t => u (t, false) := by
  have hmap : (activities.filter (·.isTool toolName)).map (fun a =>
      (if a.isOpen toolName then g a else a).seen) =
      (callsShown toolName activities).map fun s => if s.2 then s else u s := by
    rw [callsShown, seenOf, List.map_map]
    refine List.map_congr_left fun a ha => ?_
    have hname : a.isTool toolName = true := (List.mem_filter.mp ha).2
    rw [Function.comp_apply, ActivityItem.isOpen, hname, Bool.true_and]
    have hover : a.seen.2 = decide (a.status = .finish) := rfl
    by_cases hfinish : a.status = .finish
    · simp [hfinish, hover]
    · simp [hfinish, hover, hseen]
  rw [callsShown, seenOf, filter_map_if htool, List.map_map]
  refine hmap.trans ?_
  rw [h, Calls.shown, List.map_append, List.map_map, List.map_map]
  rfl

theorem callsShown_skip {q : ActivityItem → Bool} {g : ActivityItem → ActivityItem}
    (htool : ∀ a, (g a).isTool toolName = a.isTool toolName)
    (hq : ∀ a, a.isTool toolName = true → q a = false) :
    callsShown toolName (activities.map fun a => if q a then g a else a) =
      callsShown toolName activities :=
  seenOf_skip htool hq activities

theorem not_isOpen {toolName' : Units} (hne : toolName' ≠ toolName) {a : ActivityItem}
    (ha : a.isTool toolName = true) : a.isOpen toolName' = false := by
  by_contra hopen
  simp only [ActivityItem.isOpen, ActivityItem.isTool, Bool.and_eq_true, decide_eq_true_eq,
    Bool.not_eq_false] at ha hopen
  exact hne (Option.some.inj (hopen.1.2.symm.trans ha.2))

theorem not_isThinking {a : ActivityItem} (ha : a.isTool toolName = true) :
    a.isThinking = false := by
  simp only [ActivityItem.isTool, Bool.and_eq_true, decide_eq_true_eq] at ha
  rw [ActivityItem.isThinking, ha.1]
  rfl

theorem callsShown_ingestThinking (counter : Nat) (activities : List ActivityItem)
    (frame : ActivityFrame) :
    callsShown toolName (ingestThinking counter activities frame).2 =
      callsShown toolName activities := by
  rw [ingestThinking]
  split
  · split
    · exact callsShown_skip (fun _ => rfl) fun _ => not_isThinking
    · split
      · exact callsShown_skip (fun _ => rfl) fun _ => not_isThinking
      · rfl
  · split
    · exact (seenOf_concat _ _ _).trans (List.append_nil _)
    · rfl

theorem callsShown_ingestTool_other {frame : ActivityFrame} (hname : frame.name ≠ toolName)
    (counter : Nat) (activities : List ActivityItem) :
    callsShown toolName (ingestTool counter activities frame).2 =
      callsShown toolName activities := by
  rw [ingestTool]
  split
  · split
    · rfl
    · rw [callsShown, seenOf_concat, if_neg (by simp [ActivityItem.isTool, hname]),
        List.append_nil]
  · split
    · exact callsShown_skip (fun _ => rfl) fun _ => not_isOpen hname
    · split
      · exact callsShown_skip (fun _ => rfl) fun _ => not_isOpen hname
      · rfl

theorem callsShown_ingestTool {frame : ActivityFrame} (hname : frame.name = toolName)
    (h : callsShown toolName activities = c.shown) (counter : Nat) :
    callsShown toolName (ingestTool counter activities frame).2 = (c.step frame).shown := by
  have hopen : activities.any (·.isOpen toolName) = c.current.isSome := by
    rw [any_isOpen, h, any_shown]
  rw [ingestTool, hname, hopen, Calls.step]
  cases hstatus : frame.status with
  | start =>
    rw [if_pos rfl]
    cases hcurrent : c.current with
    | some t =>
      rw [if_pos Option.isSome_some, h, Calls.shown, Calls.shown, hcurrent]
      rfl
    | none =>
      rw [callsShown] at h ⊢
      rw [if_neg (by simp), seenOf_concat, h, if_pos (by simp [ActivityItem.isTool]),
        Calls.shown, Calls.shown, hcurrent, List.append_assoc]
      rfl
  | delta =>
    rw [if_neg nofun]
    cases hdelta : frame.delta? with
    | some delta =>
      have hupd := callsShown_update (g := fun a =>
        { a with status := .delta, deltas := a.deltas ++ delta })
        (u := fun s => (s.1 ++ delta, false)) (fun _ => rfl) (fun _ => rfl) h
      refine hupd.trans ?_
      rw [Calls.shown]
      cases c.current <;> rfl
    | none =>
      rw [if_neg nofun, h, Calls.shown, Calls.shown]
      cases c.current <;> simp
  | finish =>
    have hdelta : frame.delta? = none := by
      rw [ActivityFrame.delta?, hstatus]
      rfl
    rw [if_neg nofun, hdelta, if_pos rfl]
    have hupd := callsShown_update (g := fun a => { a with status := .finish })
      (u := fun s => (s.1, true)) (fun _ => rfl) (fun _ => rfl) h
    refine hupd.trans ?_
    rw [Calls.shown, List.map_append]
    cases c.current <;> simp

/-- A frame does to the calls of a tool what it says, if it is a frame of the tool. -/
theorem callsShown_ingest (h : callsShown toolName activities = c.shown) (counter : Nat)
    (frame : ActivityFrame) :
    callsShown toolName (ingestActivityFrame counter activities frame).2 =
      (if frame.kind = .toolUse ∧ frame.name = toolName then c.step frame else c).shown := by
  rw [ingestActivityFrame]
  split
  · next hkind =>
    rw [if_neg (by rw [hkind]; nofun), callsShown_ingestThinking, h]
  · next hkind =>
    by_cases hname : frame.name = toolName
    · rw [if_pos ⟨hkind, hname⟩, callsShown_ingestTool hname h]
    · rw [if_neg fun hboth => hname hboth.2, callsShown_ingestTool_other hname, h]

end Tool

section Thinking

variable {activities : List ActivityItem} {t : Option Thought}

def Thought.shown (t : Option Thought) : List (Units × Bool) :=
  t.toList.map fun t => (t.text, t.ended)

theorem any_isThinking (activities : List ActivityItem) :
    activities.any (·.isThinking) = !(thoughtShown activities).isEmpty := by
  rw [thoughtShown, seenOf, List.isEmpty_map, Bool.eq_iff_iff]
  simp [List.filter_eq_nil_iff]

theorem thoughtShown_update {g : ActivityItem → ActivityItem} {u : Units × Bool → Units × Bool}
    (hkind : ∀ a, (g a).isThinking = a.isThinking) (hseen : ∀ a, (g a).seen = u a.seen)
    (activities : List ActivityItem) :
    thoughtShown (activities.map fun a => if a.isThinking then g a else a) =
      (thoughtShown activities).map u := by
  rw [thoughtShown, seenOf, filter_map_if hkind, seenOf, List.map_map, List.map_map]
  refine List.map_congr_left fun a ha => ?_
  rw [Function.comp_apply, if_pos (List.mem_filter.mp ha).2]
  exact hseen a

theorem thoughtShown_skip {q : ActivityItem → Bool} {g : ActivityItem → ActivityItem}
    (hkind : ∀ a, (g a).isThinking = a.isThinking) (hq : ∀ a, a.isThinking = true → q a = false) :
    thoughtShown (activities.map fun a => if q a then g a else a) = thoughtShown activities :=
  seenOf_skip hkind hq activities

theorem not_isOpen_of_isThinking (toolName : Units) {a : ActivityItem}
    (ha : a.isThinking = true) : a.isOpen toolName = false := by
  rw [ActivityItem.isThinking, decide_eq_true_eq] at ha
  rw [ActivityItem.isOpen, ActivityItem.isTool, ha]
  rfl

theorem thoughtShown_ingestTool (counter : Nat) (activities : List ActivityItem)
    (frame : ActivityFrame) :
    thoughtShown (ingestTool counter activities frame).2 = thoughtShown activities := by
  rw [ingestTool]
  split
  · split
    · rfl
    · exact (seenOf_concat _ _ _).trans (List.append_nil _)
  · split
    · exact thoughtShown_skip (fun _ => rfl) fun _ => not_isOpen_of_isThinking _
    · split
      · exact thoughtShown_skip (fun _ => rfl) fun _ => not_isOpen_of_isThinking _
      · rfl

theorem thoughtShown_ingestThinking (h : thoughtShown activities = Thought.shown t) (counter : Nat)
    (frame : ActivityFrame) :
    thoughtShown (ingestThinking counter activities frame).2 =
      Thought.shown (Thought.step t frame) := by
  rw [ingestThinking, any_isThinking, h]
  cases t with
  | none =>
    rw [if_neg (by simp [Thought.shown])]
    by_cases hstatus : frame.status = .finish
    · rw [if_neg (by simp [hstatus]), h, Thought.step, if_pos hstatus]
    · have hbegins : frame.status = .start ∨ frame.status = .delta := by
        cases h' : frame.status with
        | start => exact .inl rfl
        | delta => exact .inr rfl
        | finish => exact absurd h' hstatus
      rw [thoughtShown] at h ⊢
      rw [if_pos hbegins, seenOf_concat, h, Thought.step, if_neg hstatus]
      simp [ActivityItem.isThinking, ActivityItem.seen, Thought.shown, hstatus]
  | some t =>
    rw [if_pos (by simp [Thought.shown]), Thought.step]
    cases hdelta : frame.delta? with
    | some delta =>
      have hupd := thoughtShown_update (g := fun a =>
        { a with status := .delta, deltas := a.deltas ++ delta })
        (u := fun s => (s.1 ++ delta, false)) (fun _ => rfl) (fun _ => rfl) activities
      exact hupd.trans (by rw [h]; rfl)
    | none =>
      dsimp only
      split
      · have hupd := thoughtShown_update (g := fun a => { a with status := .finish })
          (u := fun s => (s.1, true)) (fun _ => rfl) (fun _ => rfl) activities
        exact hupd.trans (by rw [h]; rfl)
      · exact h

theorem thoughtShown_ingest (h : thoughtShown activities = Thought.shown t) (counter : Nat)
    (frame : ActivityFrame) :
    thoughtShown (ingestActivityFrame counter activities frame).2 =
      Thought.shown (if frame.kind = .thinking then Thought.step t frame else t) := by
  rw [ingestActivityFrame]
  split
  · next hkind => rw [if_pos hkind, thoughtShown_ingestThinking h]
  · next hkind => rw [if_neg (by rw [hkind]; nofun), thoughtShown_ingestTool, h]

end Thinking

/-! All lanes. -/

def framesOf (turnId : Units) (events : List (Units × ActivityFrame)) : List ActivityFrame :=
  (events.filter (·.1 = turnId)).map (·.2)

def toolFrames (toolName : Units) (frames : List ActivityFrame) : List ActivityFrame :=
  frames.filter fun frame => frame.kind = .toolUse && frame.name = toolName

def thinkingFrames (frames : List ActivityFrame) : List ActivityFrame :=
  frames.filter (·.kind = .thinking)

def toolCalls (toolName : Units) (frames : List ActivityFrame) : Calls :=
  (toolFrames toolName frames).foldl Calls.step {}

def thought (frames : List ActivityFrame) : Option Thought :=
  (thinkingFrames frames).foldl Thought.step none

/-- The activities are those of the frames. -/
def Echoes (frames : List ActivityFrame) (activities : List ActivityItem) : Prop :=
  (∀ toolName, callsShown toolName activities = (toolCalls toolName frames).shown) ∧
    thoughtShown activities = Thought.shown (thought frames)

theorem echoes_nil : Echoes [] [] := ⟨fun _ => rfl, rfl⟩

theorem toolCalls_concat (toolName : Units) (frames : List ActivityFrame)
    (frame : ActivityFrame) : toolCalls toolName (frames ++ [frame]) =
      if frame.kind = .toolUse ∧ frame.name = toolName then (toolCalls toolName frames).step frame
      else toolCalls toolName frames := by
  rw [toolCalls, toolFrames, List.filter_append, List.foldl_append, List.filter_singleton]
  by_cases htool : frame.kind = .toolUse ∧ frame.name = toolName
  · rw [if_pos htool, htool.1, htool.2, decide_eq_true rfl, decide_eq_true rfl]
    rfl
  · rw [if_neg htool, ← Bool.decide_and, decide_eq_false htool]
    rfl

theorem thought_concat (frames : List ActivityFrame) (frame : ActivityFrame) :
    thought (frames ++ [frame]) =
      if frame.kind = .thinking then Thought.step (thought frames) frame else thought frames := by
  rw [thought, thinkingFrames, List.filter_append, List.foldl_append, List.filter_singleton]
  by_cases hkind : frame.kind = .thinking
  · rw [if_pos hkind, decide_eq_true hkind]
    rfl
  · rw [if_neg hkind, decide_eq_false hkind]
    rfl

theorem Echoes.ingest {frames : List ActivityFrame} {activities : List ActivityItem}
    (h : Echoes frames activities) (counter : Nat) (frame : ActivityFrame) :
    Echoes (frames ++ [frame]) (ingestActivityFrame counter activities frame).2 := by
  constructor
  · intro toolName
    rw [callsShown_ingest (h.1 toolName), toolCalls_concat]
  · rw [thoughtShown_ingest h.2, thought_concat]

/-- Each lane takes in the frames of its turn and no others. -/
theorem forall_ingestLanes {P Q : Units → List ActivityItem → Prop} (turnId : Units)
    (frame : ActivityFrame)
    (hsame : ∀ counter activities, P turnId activities →
      Q turnId (ingestActivityFrame counter activities frame).2)
    (hother : ∀ turn activities, turn ≠ turnId → P turn activities → Q turn activities)
    (counter : Nat) {lanes : List (Units × List ActivityItem)} (h : ∀ l ∈ lanes, P l.1 l.2) :
    ∀ l ∈ (ingestLanes turnId frame counter lanes).2, Q l.1 l.2 := by
  induction lanes generalizing counter with
  | nil => exact fun _ hl => absurd hl (List.not_mem_nil)
  | cons lane lanes ih =>
    obtain ⟨turn, activities⟩ := lane
    obtain ⟨hlane, hlanes⟩ := List.forall_mem_cons.mp h
    rw [ingestLanes]
    by_cases hturn : turn = turnId
    · rw [if_pos hturn]
      exact List.forall_mem_cons.mpr ⟨hturn ▸ hsame counter activities (hturn ▸ hlane),
        ih _ hlanes⟩
    · rw [if_neg hturn]
      exact List.forall_mem_cons.mpr ⟨hother turn activities hturn hlane, ih _ hlanes⟩

theorem framesOf_concat (turnId : Units) (events : List (Units × ActivityFrame))
    (event : Units × ActivityFrame) : framesOf turnId (events ++ [event]) =
      framesOf turnId events ++ if event.1 = turnId then [event.2] else [] := by
  rw [framesOf, List.filter_append, List.map_append, List.filter_singleton]
  by_cases hturn : event.1 = turnId
  · rw [if_pos hturn, decide_eq_true hturn]
    rfl
  · rw [if_neg hturn, decide_eq_false hturn]
    rfl

theorem echoes_ingest {events : List (Units × ActivityFrame)} {s : Lanes}
    (h : ∀ l ∈ s.lanes, Echoes (framesOf l.1 events) l.2) (event : Units × ActivityFrame) :
    ∀ l ∈ (s.ingest event).lanes, Echoes (framesOf l.1 (events ++ [event])) l.2 := by
  refine forall_ingestLanes (P := fun turn activities => Echoes (framesOf turn events) activities)
    (Q := fun turn activities => Echoes (framesOf turn (events ++ [event])) activities)
    event.1 event.2 (fun counter activities hsame => ?_) (fun turn activities hne hother => ?_)
    s.activityIdCounter h
  · rw [framesOf_concat, if_pos rfl]
    exact hsame.ingest counter event.2
  · rw [framesOf_concat, if_neg (Ne.symm hne), List.append_nil]
    exact hother

/-! The ids. -/

theorem map_id_if {q : ActivityItem → Bool} {g : ActivityItem → ActivityItem}
    (hg : ∀ a, (g a).id = a.id) (activities : List ActivityItem) :
    (activities.map fun a => if q a then g a else a).map (·.id) = activities.map (·.id) := by
  rw [List.map_map]
  refine List.map_congr_left fun a _ => ?_
  rw [Function.comp_apply]
  split
  · exact hg a
  · rfl

theorem ids_ingest (counter : Nat) (activities : List ActivityItem) (frame : ActivityFrame) :
    (ingestActivityFrame counter activities frame).1 = counter ∧
        (ingestActivityFrame counter activities frame).2.map (·.id) = activities.map (·.id) ∨
      (ingestActivityFrame counter activities frame).1 = counter + 1 ∧
        (ingestActivityFrame counter activities frame).2.map (·.id) =
          activities.map (·.id) ++ [counter + 1] := by
  rw [ingestActivityFrame]
  split
  · rw [ingestThinking]
    split
    · split
      · exact .inl ⟨rfl, map_id_if (by exact fun _ => rfl) activities⟩
      · split
        · exact .inl ⟨rfl, map_id_if (by exact fun _ => rfl) activities⟩
        · exact .inl ⟨rfl, rfl⟩
    · split
      · exact .inr ⟨rfl, List.map_append⟩
      · exact .inl ⟨rfl, rfl⟩
  · rw [ingestTool]
    split
    · split
      · exact .inl ⟨rfl, rfl⟩
      · exact .inr ⟨rfl, List.map_append⟩
    · split
      · exact .inl ⟨rfl, map_id_if (by exact fun _ => rfl) activities⟩
      · split
        · exact .inl ⟨rfl, map_id_if (by exact fun _ => rfl) activities⟩
        · exact .inl ⟨rfl, rfl⟩

theorem ids_lane (turn turnId : Units) (counter : Nat) (activities : List ActivityItem)
    (frame : ActivityFrame) :
    let r := if turn = turnId then ingestActivityFrame counter activities frame
      else (counter, activities)
    counter ≤ r.1 ∧ (r.2.map (·.id) = activities.map (·.id) ∨
      r.1 = counter + 1 ∧ r.2.map (·.id) = activities.map (·.id) ++ [counter + 1]) := by
  dsimp only
  split
  · obtain ⟨hcounter, hids⟩ | ⟨hcounter, hids⟩ := ids_ingest counter activities frame
    · exact ⟨hcounter.ge, .inl hids⟩
    · exact ⟨hcounter ▸ Nat.le_succ counter, .inr ⟨hcounter, hids⟩⟩
  · exact ⟨Nat.le_refl _, .inl rfl⟩

def idsOf (lanes : List (Units × List ActivityItem)) : List Nat :=
  lanes.flatMap fun l => l.2.map (·.id)

/-- The ids that are given are new ones. -/
theorem ids_ingestLanes (turnId : Units) (frame : ActivityFrame) {bound counter : Nat}
    (hbound : bound ≤ counter) {lanes : List (Units × List ActivityItem)}
    (hnodup : (idsOf lanes).Nodup) (hle : ∀ id ∈ idsOf lanes, id ≤ bound) :
    counter ≤ (ingestLanes turnId frame counter lanes).1 ∧
      (idsOf (ingestLanes turnId frame counter lanes).2).Nodup ∧
      ∀ id ∈ idsOf (ingestLanes turnId frame counter lanes).2, id ∈ idsOf lanes ∨
        counter < id ∧ id ≤ (ingestLanes turnId frame counter lanes).1 := by
  induction lanes generalizing counter with
  | nil => exact ⟨Nat.le_refl _, List.nodup_nil, nofun⟩
  | cons lane lanes ih =>
    obtain ⟨turn, activities⟩ := lane
    rw [idsOf, List.flatMap_cons] at hnodup hle
    obtain ⟨hlane, hrest, hdisjoint⟩ := List.nodup_append.mp hnodup
    obtain ⟨hfirst, hids⟩ := ids_lane turn turnId counter activities frame
    rw [ingestLanes]
    generalize (if turn = turnId then ingestActivityFrame counter activities frame
      else (counter, activities)) = r at hfirst hids ⊢
    obtain ⟨hsecond, hnodup', hnew⟩ := ih (hbound.trans hfirst) hrest
      fun id hid => hle id (List.mem_append_right _ hid)
    have hr : ∀ id ∈ r.2.map (·.id), id ∈ activities.map (·.id) ∨ counter < id ∧ id ≤ r.1 := by
      intro id hid
      obtain hsame | ⟨hcounter, hmore⟩ := hids
      · exact .inl (hsame ▸ hid)
      · rw [hmore] at hid
        obtain hid | hid := List.mem_append.mp hid
        · exact .inl hid
        · rw [List.mem_singleton.mp hid, hcounter]
          exact .inr ⟨Nat.lt_succ_self _, Nat.le_refl _⟩
    have hrnodup : (r.2.map (·.id)).Nodup := by
      obtain hsame | ⟨-, hmore⟩ := hids
      · rw [hsame]
        exact hlane
      · rw [hmore]
        refine List.nodup_append.mpr ⟨hlane, List.nodup_cons.mpr ⟨List.not_mem_nil, .nil⟩, fun a ha b hb hab => ?_⟩
        have := hle a (List.mem_append_left _ ha)
        rw [hab, List.mem_singleton.mp hb] at this
        omega
    refine ⟨hfirst.trans hsecond, ?_, ?_⟩
    · rw [idsOf, List.flatMap_cons]
      refine List.nodup_append.mpr ⟨hrnodup, hnodup', fun a ha b hb hab => ?_⟩
      subst hab
      obtain hold | ⟨hlt, hle'⟩ := hr a ha
      · obtain hold' | ⟨hlt', -⟩ := hnew a hb
        · exact hdisjoint a hold a hold' rfl
        · have := hle a (List.mem_append_left _ hold)
          omega
      · obtain hold' | ⟨hlt', -⟩ := hnew a hb
        · have := hle a (List.mem_append_right _ hold')
          omega
        · omega
    · intro id hid
      rw [idsOf, List.flatMap_cons] at hid
      rw [idsOf, List.flatMap_cons]
      obtain hid | hid := List.mem_append.mp hid
      · obtain hold | ⟨hlt, hle'⟩ := hr id hid
        · exact .inl (List.mem_append_left _ hold)
        · exact .inr ⟨hlt, hle'.trans hsecond⟩
      · obtain hold | ⟨hlt, hle'⟩ := hnew id hid
        · exact .inl (List.mem_append_right _ hold)
        · exact .inr ⟨hfirst.trans_lt hlt, hle'⟩

/-- No id is given twice, and none is above the counter. -/
structure Numbered (s : Lanes) : Prop where
  nodup : (idsOf s.lanes).Nodup
  le : ∀ id ∈ idsOf s.lanes, id ≤ s.activityIdCounter

theorem Numbered.ingest {s : Lanes} (h : Numbered s) (event : Units × ActivityFrame) :
    Numbered (s.ingest event) := by
  obtain ⟨hcounter, hnodup, hnew⟩ :=
    ids_ingestLanes event.1 event.2 (Nat.le_refl s.activityIdCounter) h.nodup h.le
  refine ⟨hnodup, fun id hid => ?_⟩
  obtain hold | ⟨-, hle⟩ := hnew id hid
  · exact (h.le id hold).trans hcounter
  · exact hle

/-- Lanes that have no activities yet. -/
def Lanes.opened (counter : Nat) (turnIds : List Units) : Lanes :=
  ⟨counter, turnIds.map fun turnId => (turnId, [])⟩

theorem echoes_exec {before : List (Units × ActivityFrame)} {s : Lanes}
    (h : ∀ l ∈ s.lanes, Echoes (framesOf l.1 before) l.2) (events : List (Units × ActivityFrame)) :
    ∀ l ∈ (Run.exec Lanes.ingest s events).lanes, Echoes (framesOf l.1 (before ++ events)) l.2 := by
  induction events generalizing before s with
  | nil =>
    rw [List.append_nil]
    exact h
  | cons event events ih =>
    have hnext := ih (echoes_ingest h event)
    rw [List.append_assoc, List.singleton_append] at hnext
    exact hnext

theorem echoes_opened (counter : Nat) (turnIds : List Units) :
    ∀ l ∈ (Lanes.opened counter turnIds).lanes, Echoes (framesOf l.1 []) l.2 := by
  intro l hl
  obtain ⟨turnId, -, rfl⟩ := List.mem_map.mp hl
  exact echoes_nil

theorem numbered_opened (counter : Nat) (turnIds : List Units) :
    Numbered (Lanes.opened counter turnIds) := by
  have hnone : idsOf (Lanes.opened counter turnIds).lanes = [] := by
    rw [idsOf, List.flatMap_eq_nil_iff]
    intro l hl
    obtain ⟨turnId, -, rfl⟩ := List.mem_map.mp hl
    rfl
  constructor
  · rw [hnone]
    exact List.nodup_nil
  · rw [hnone]
    nofun

theorem activities_spec (counter : Nat) (turnIds : List Units)
    (events : List (Units × ActivityFrame)) :
    ∀ l ∈ (Run.exec Lanes.ingest (Lanes.opened counter turnIds) events).lanes,
      Echoes (framesOf l.1 events) l.2 :=
  echoes_exec (echoes_opened counter turnIds) events

/-- Whatever order the frames of several turns come in, a lane shows for each tool the calls that
the frames of its turn for that tool make, and all their thinking in one; no id is given twice. -/
theorem activities_of_frames (counter : Nat) (turnIds : List Units)
    (events : List (Units × ActivityFrame)) :
    (∀ l ∈ (Run.exec Lanes.ingest (Lanes.opened counter turnIds) events).lanes,
      (∀ toolName, callsShown toolName l.2 = (toolCalls toolName (framesOf l.1 events)).shown) ∧
        thoughtShown l.2 = Thought.shown (thought (framesOf l.1 events))) ∧
      (idsOf (Run.exec Lanes.ingest (Lanes.opened counter turnIds) events).lanes).Nodup := by
  constructor
  · exact activities_spec counter turnIds events
  · have hnumbered : Run.Always Lanes.ingest Numbered (Lanes.opened counter turnIds) events :=
      Run.always_of_step (fun _ event h => h.ingest event) (numbered_opened counter turnIds) events
    exact hnumbered.exec.nodup

/-! The texts. -/

theorem delta?_ne {frame : ActivityFrame} {delta : Units} (h : frame.delta? = some delta) :
    frame.status = .delta ∧ delta ≠ [] := by
  rw [ActivityFrame.delta?] at h
  split at h
  · next hstatus => exact ⟨hstatus, by simpa using (Option.filter_eq_some_iff.mp h).2⟩
  · cases h

/-- A delta is lost while no call is in progress. -/
def Calls.heard (c : Calls) (frame : ActivityFrame) : Units :=
  if c.current.isSome then frame.delta?.getD [] else []

theorem text_step (c : Calls) (frame : ActivityFrame) :
    (c.step frame).text = c.text ++ c.heard frame := by
  rw [Calls.step, Calls.heard]
  cases hstatus : frame.status with
  | delta => cases hcurrent : c.current <;> simp [Calls.text, hcurrent]
  | _ =>
    have hdelta : frame.delta? = none := by
      rw [ActivityFrame.delta?, if_neg (by rw [hstatus]; nofun)]
    cases hcurrent : c.current <;> simp [Calls.text, hcurrent, hdelta]

def allDeltas (frames : List ActivityFrame) : Units :=
  frames.flatMap fun frame => frame.delta?.getD []

theorem length_text_le (c : Calls) (frames : List ActivityFrame) :
    (frames.foldl Calls.step c).text.length ≤ c.text.length + (allDeltas frames).length := by
  induction frames generalizing c with
  | nil => exact Nat.le_refl _
  | cons frame frames ih =>
    have hstep := ih (c.step frame)
    have hheard : (c.heard frame).length ≤ (frame.delta?.getD []).length := by
      rw [Calls.heard]
      split
      · exact Nat.le_refl _
      · exact Nat.zero_le _
    rw [text_step, List.length_append] at hstep
    rw [List.foldl_cons, allDeltas, List.flatMap_cons, List.length_append]
    rw [allDeltas] at hstep
    omega

/-- Each delta of a tool comes while a call of it is in progress. -/
def Attended (c : Calls) (frame : ActivityFrame) : Prop :=
  frame.delta?.isSome → c.current.isSome

instance (c : Calls) (frame : ActivityFrame) : Decidable (Attended c frame) :=
  inferInstanceAs (Decidable (_ → _))

theorem text_eq_iff (c : Calls) (frames : List ActivityFrame) :
    (frames.foldl Calls.step c).text = c.text ++ allDeltas frames ↔
      Run.Meets Calls.step Attended c frames := by
  induction frames generalizing c with
  | nil => simp [allDeltas, Run.Meets]
  | cons frame frames ih =>
    rw [List.foldl_cons, allDeltas, List.flatMap_cons, Run.Meets, ← ih, text_step, ← allDeltas]
    by_cases hattended : Attended c frame
    · have hheard : c.heard frame = frame.delta?.getD [] := by
        rw [Calls.heard]
        split
        · rfl
        · next hnone =>
          cases hdelta : frame.delta? with
          | none => rfl
          | some delta => exact absurd (hattended (by rw [hdelta]; rfl)) hnone
      rw [hheard, List.append_assoc]
      exact (and_iff_right hattended).symm
    · refine iff_of_false (fun hall => ?_) fun hboth => hattended hboth.1
      rw [Attended, Classical.not_imp] at hattended
      obtain ⟨delta, hdelta⟩ := Option.isSome_iff_exists.mp hattended.1
      have hlost : c.heard frame = [] := if_neg hattended.2
      have hle := length_text_le (c.step frame) frames
      have hpos := List.length_pos_iff.mpr (delta?_ne hdelta).2
      rw [hall, text_step, hlost, hdelta, List.append_nil, List.length_append, List.length_append,
        Option.getD_some] at hle
      omega

theorem shown_text (c : Calls) : (c.shown.flatMap fun s => s.1) = c.text := by
  rw [Calls.shown, List.flatMap_append, List.flatMap_map, List.flatMap_map, Calls.text]
  cases c.current <;> simp [List.flatMap_id']

theorem toolText_eq {counter : Nat} {turnIds : List Units}
    {events : List (Units × ActivityFrame)} {l : Units × List ActivityItem}
    (hl : l ∈ (Run.exec Lanes.ingest (Lanes.opened counter turnIds) events).lanes)
    (toolName : Units) :
    (callsShown toolName l.2).flatMap (fun s => s.1) =
      (toolCalls toolName (framesOf l.1 events)).text := by
  rw [((activities_spec counter turnIds events) l hl).1 toolName, shown_text]

/-- A lane shows every text that its turn sent for a tool, and in order, exactly if each came while
a call of the tool was in progress. -/
theorem tool_text_whole_iff (counter : Nat) (turnIds : List Units)
    (events : List (Units × ActivityFrame)) {l : Units × List ActivityItem}
    (hl : l ∈ (Run.exec Lanes.ingest (Lanes.opened counter turnIds) events).lanes)
    (toolName : Units) :
    (callsShown toolName l.2).flatMap (fun s => s.1) =
        allDeltas (toolFrames toolName (framesOf l.1 events)) ↔
      Run.Meets Calls.step Attended {} (toolFrames toolName (framesOf l.1 events)) := by
  rw [toolText_eq hl]
  exact text_eq_iff {} _

theorem tool_text_whole_iff_read :
    (callsShown (units "read") [⟨1, .toolUse, some (units "read"), .finish, units "ok",
        some false⟩]).flatMap (fun s => s.1) =
      allDeltas (toolFrames (units "read") (framesOf (units "t")
        [(units "t", ⟨.toolUse, .start, some (units "read"), none⟩),
          (units "t", ⟨.toolUse, .delta, some (units "read"), some (units "ok")⟩),
          (units "t", ⟨.toolUse, .finish, some (units "read"), none⟩)])) :=
  (tool_text_whole_iff 0 [units "t"]
    [(units "t", ⟨.toolUse, .start, some (units "read"), none⟩),
      (units "t", ⟨.toolUse, .delta, some (units "read"), some (units "ok")⟩),
      (units "t", ⟨.toolUse, .finish, some (units "read"), none⟩)]
    (l := (units "t", [⟨1, .toolUse, some (units "read"), .finish, units "ok", some false⟩]))
    (List.mem_singleton.mpr rfl) (units "read")).mpr (by decide)

/-! The events of `pi`. -/

/-- The activity frame that the bridge sends for an event, as it comes to the portal: the hub hands
its fields on by name. -/
def activityFrame? (evt : Host.Value) : Option ActivityFrame :=
  match Host.readEvent evt with
  | .activity kind status toolName delta =>
    some ⟨kind, status, toolName.bind Json.asStr?, delta⟩
  | _ => none

def framesFrom (events : List (Units × Host.Value)) : List (Units × ActivityFrame) :=
  events.filterMap fun e => (activityFrame? e.2).map fun frame => (e.1, frame)

/-- What a model writes of the arguments of a call, and the end of it. -/
def isToolcall (evt : Host.Value) : Bool :=
  let type := Host.str? ((evt.member "assistantMessageEvent").bind (Json.member "type"))
  Host.str? (evt.member "type") = some (units "message_update") &&
    (type = some (units "toolcall_delta") || type = some (units "toolcall_end"))

/-- A call that is not named is one of the tool `unknown`. -/
def ActivityFrame.isUnknown (frame : ActivityFrame) : Bool :=
  frame.kind = .toolUse && frame.name = units "unknown"

def startsUnknown (evt : Host.Value) : Bool :=
  (activityFrame? evt).any fun frame => frame.isUnknown && frame.status = .start

theorem activityFrame?_toolcall {evt : Host.Value} (h : isToolcall evt = true)
    {frame : ActivityFrame} (hframe : activityFrame? evt = some frame) :
    frame.isUnknown = true ∧ frame.status ≠ .start := by
  simp only [isToolcall, Bool.and_eq_true, Bool.or_eq_true, decide_eq_true_eq] at h
  obtain ⟨htype, htoolcall⟩ := h
  have hread : Host.readEvent evt = Host.readMessageUpdate evt := by
    have hne : some (units "message_update") ≠ some (units "response") := by decide
    rw [Host.readEvent]
    simp only [htype, if_neg hne, if_true]
  rw [activityFrame?, hread] at hframe
  obtain hdelta | hend := htoolcall
  · have hupdate : Host.readMessageUpdate evt =
        if (Host.str? ((evt.member "assistantMessageEvent").bind (Json.member "delta"))).isSome then
          .activity .toolUse .delta none
            (Host.str? ((evt.member "assistantMessageEvent").bind (Json.member "delta")))
        else .fullText (Host.extractAssistantText evt) := by
      rw [Host.readMessageUpdate]
      simp only [hdelta]
      rfl
    by_cases hsome :
        (Host.str? ((evt.member "assistantMessageEvent").bind (Json.member "delta"))).isSome = true
    · rw [hupdate, if_pos hsome] at hframe
      obtain rfl := Option.some.inj hframe
      exact ⟨rfl, nofun⟩
    · rw [hupdate, if_neg hsome] at hframe
      cases hframe
  · have hupdate : Host.readMessageUpdate evt = .activity .toolUse .finish none none := by
      rw [Host.readMessageUpdate]
      simp only [hend]
      rfl
    rw [hupdate] at hframe
    obtain rfl := Option.some.inj hframe
    exact ⟨rfl, nofun⟩

theorem ingest_unknown {activities : List ActivityItem}
    (h : callsShown (units "unknown") activities = []) {frame : ActivityFrame}
    (hunknown : frame.isUnknown = true) (hstatus : frame.status ≠ .start) (counter : Nat) :
    ingestActivityFrame counter activities frame = (counter, activities) := by
  simp only [ActivityFrame.isUnknown, Bool.and_eq_true, decide_eq_true_eq] at hunknown
  have hclosed : ∀ a ∈ activities, a.isOpen (units "unknown") = false := by
    have hany := any_isOpen (units "unknown") activities
    rw [h, List.any_nil, List.any_eq_false] at hany
    exact fun a ha => Bool.not_eq_true _ ▸ hany a ha
  have hsame : ∀ g : ActivityItem → ActivityItem,
      (activities.map fun a => if a.isOpen (units "unknown") then g a else a) = activities := by
    intro g
    refine (List.map_congr_left fun a ha => ?_).trans (List.map_id _)
    rw [hclosed a ha]
    rfl
  rw [ingestActivityFrame, hunknown.1]
  dsimp only
  rw [ingestTool, if_neg hstatus, hunknown.2]
  split
  · rw [hsame]
  · split
    · rw [hsame]
    · rfl

/-- A lane that has no tool `unknown` does not get one. -/
theorem callsShown_unknown {activities : List ActivityItem}
    (h : callsShown (units "unknown") activities = []) {frame : ActivityFrame}
    (hframe : frame.isUnknown = true → frame.status ≠ .start) (counter : Nat) :
    callsShown (units "unknown") (ingestActivityFrame counter activities frame).2 = [] := by
  cases hunknown : frame.isUnknown with
  | true => rw [ingest_unknown h hunknown (hframe hunknown), h]
  | false =>
    rw [callsShown_ingest (c := {}) h, if_neg]
    · rfl
    · intro hboth
      rw [ActivityFrame.isUnknown, decide_eq_true hboth.1, decide_eq_true hboth.2] at hunknown
      cases hunknown

theorem ingestLanes_unknown (turnId : Units) {frame : ActivityFrame}
    (hunknown : frame.isUnknown = true) (hstatus : frame.status ≠ .start) (counter : Nat)
    {lanes : List (Units × List ActivityItem)}
    (h : ∀ l ∈ lanes, callsShown (units "unknown") l.2 = []) :
    ingestLanes turnId frame counter lanes = (counter, lanes) := by
  induction lanes with
  | nil => rfl
  | cons lane lanes ih =>
    obtain ⟨turn, activities⟩ := lane
    obtain ⟨hlane, hlanes⟩ := List.forall_mem_cons.mp h
    rw [ingestLanes, ingest_unknown hlane hunknown hstatus, ite_self]
    dsimp only
    rw [ih hlanes]

/-- As long as no tool goes by the name `unknown`, what `pi` reports of the arguments and the ends
of calls while the model writes them is never to be seen. -/
theorem toolcalls_unseen (events : List (Units × Host.Value))
    (h : ∀ e ∈ events, startsUnknown e.2 = false) {s : Lanes}
    (hs : ∀ l ∈ s.lanes, callsShown (units "unknown") l.2 = []) :
    Run.exec Lanes.ingest s (framesFrom events) =
      Run.exec Lanes.ingest s (framesFrom (events.filter fun e => !isToolcall e.2)) := by
  induction events generalizing s with
  | nil => rfl
  | cons e events ih =>
    obtain ⟨hevent, hevents⟩ := List.forall_mem_cons.mp h
    cases hframe : activityFrame? e.2 with
    | none =>
      have hfrom : ∀ es, framesFrom (e :: es) = framesFrom es := fun es => by
        rw [framesFrom, List.filterMap_cons, hframe]
        rfl
      rw [hfrom, List.filter_cons]
      split
      · rw [hfrom, ih hevents hs]
      · exact ih hevents hs
    | some frame =>
      have hfrom : ∀ es, framesFrom (e :: es) = (e.1, frame) :: framesFrom es := fun es => by
        rw [framesFrom, List.filterMap_cons, hframe]
        rfl
      rw [hfrom, List.filter_cons]
      split
      · rw [hfrom]
        refine ih hevents (forall_ingestLanes
          (P := fun _ activities => callsShown (units "unknown") activities = [])
          (Q := fun _ activities => callsShown (units "unknown") activities = [])
          e.1 frame (fun counter activities hlane => ?_) (fun _ _ _ hlane => hlane) _ hs)
        refine callsShown_unknown hlane (fun hunknown hstart => ?_) counter
        rw [startsUnknown, hframe, Option.any_some, hunknown, hstart] at hevent
        cases hevent
      · next htoolcall =>
        rw [Bool.not_eq_true, Bool.not_eq_false'] at htoolcall
        obtain ⟨hunknown, hstatus⟩ := activityFrame?_toolcall htoolcall hframe
        have hstay : s.ingest (e.1, frame) = s := by
          rw [Lanes.ingest, ingestLanes_unknown e.1 hunknown hstatus _ hs]
        rw [Run.exec, hstay]
        exact ih hevents hs

def toolcallEvent (type : String) : Host.Value :=
  .obj [(units "type", .str (units "message_update")), (units "assistantMessageEvent",
    .obj [(units "type", .str (units type)), (units "toolName", .str (units "read")),
      (units "delta", .str (units "a.txt"))])]

theorem toolcalls_unseen_read :
    Run.exec Lanes.ingest (Lanes.opened 0 [units "t"]) (framesFrom
        [(units "t", toolcallEvent "toolcall_start"), (units "t", toolcallEvent "toolcall_delta"),
          (units "t", toolcallEvent "toolcall_end")]) =
      Run.exec Lanes.ingest (Lanes.opened 0 [units "t"]) (framesFrom
        [(units "t", toolcallEvent "toolcall_start")]) :=
  (toolcalls_unseen [(units "t", toolcallEvent "toolcall_start"),
    (units "t", toolcallEvent "toolcall_delta"), (units "t", toolcallEvent "toolcall_end")]
    (by decide +kernel) (s := Lanes.opened 0 [units "t"]) (by decide)).trans (by
      rw [List.filter_cons_of_pos (by decide +kernel), List.filter_cons_of_neg (by decide +kernel),
        List.filter_cons_of_neg (by decide +kernel), List.filter_nil])

end Eyot.Portal
