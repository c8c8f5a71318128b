import Eyot.Host.ChatBridge
import Eyot.Library.Run

/-! The children of the runner, one generation after the other. Their callbacks share the one
reference to a child, and come in whatever order. -/

namespace Eyot.Host

inductive Fate where
  | alive | exited | failed
  deriving DecidableEq

structure Child where
  fate : Fate
  stdinOpen : Bool
  deriving DecidableEq

/-- `current` is the child spawned last, unless it has been killed, and `spawnFailed` says that
a spawn has failed since. -/
structure Children where
  pi : PiRpc
  children : List Child
  current : Option Nat
  spawnFailed : Bool
  deriving DecidableEq

/-- An error comes with a spawn, thrown, or afterwards, as an event of the child. -/
inductive Happening where
  | start (thrown : Option Units)
  | chatRequest (r : ChatRequest) (thrown : Option Units)
  | prompt (message id : Units)
  | kill
  | exit (child : Nat)
  | spawnError (child : Nat)
  | stdinClose (child : Nat)

namespace Children

variable (s : Children)

def initial : Children := ⟨⟨none, false, 0, []⟩, [], none, false⟩

def fate? (c : Nat) : Option Fate := (s.children[c]?).map Child.fate

def currentAlive : Bool := s.current.any fun c => s.fate? c = some .alive

/-- `stdin.writable` of the child that is referred to. -/
def writable : Bool := s.pi.child.any fun c => (s.children[c]?).any Child.stdinOpen

def setFate (c : Nat) (fate : Fate) : List Child :=
  s.children.modify c fun child => { child with fate := fate }

def start (thrown : Option Units) : Children :=
  if s.pi.started then s
  else
    match thrown with
    | some _ => { s with pi := (s.pi.start thrown).1, spawnFailed := true }
    | none =>
      { pi := (s.pi.start none).1
        children := s.children ++ [⟨.alive, true⟩]
        current := some s.pi.spawned
        spawnFailed := false }

def prompt (message id : Units) : Children :=
  { s with pi := (s.pi.prompt s.writable message id).1 }

/-- `SIGTERM` is sent; the exit comes later, if it comes. -/
def kill : Children :=
  { s with pi := s.pi.kill, current := if s.pi.running then none else s.current }

/-- A child exits once. -/
def exits (c : Nat) : Bool := (s.fate? c).any (· ≠ .exited)

/-- The listeners of `exit` and `error` are the ones set up with the child, but the fields they
write are the runner's. -/
def onExit (c : Nat) : Children :=
  if s.exits c then { s with pi := s.pi.onExit, children := s.setFate c .exited } else s

def onError (c : Nat) : Children :=
  if s.fate? c = some .alive then
    { s with children := s.setFate c .failed, spawnFailed := s.spawnFailed || s.current = some c }
  else s

def onStdinClose (c : Nat) : Children :=
  { s with children := s.children.modify c fun child => { child with stdinOpen := false } }

/-- What a start throws keeps the request from being prompted. -/
def chatRequest (r : ChatRequest) (thrown : Option Units) : Children :=
  let s' := if s.pi.running then s else s.start thrown
  if s.pi.running = false ∧ s.pi.started = false ∧ thrown.isSome then s'
  else s'.prompt (if r.text = [] then units "(empty)" else r.text) r.turnId

def step : Happening → Children
  | .start thrown => s.start thrown
  | .chatRequest r thrown => s.chatRequest r thrown
  | .prompt message id => s.prompt message id
  | .kill => s.kill
  | .exit c => s.onExit c
  | .spawnError c => s.onError c
  | .stdinClose c => s.onStdinClose c

end Children

/-- The child an event comes from. -/
def Happening.source? : Happening → Option Nat
  | .exit c | .spawnError c | .stdinClose c => some c
  | _ => none

/-! What is to hold, and when it does. -/

structure Children.Lawful (s : Children) : Prop where
  running : s.pi.running = s.currentAlive
  restarts : s.spawnFailed = true → (s.pi.start none).1.child = some s.pi.spawned

structure Correct (s : Children) (h : Happening) : Prop where
  lawful : (s.step h).Lawful
  undisturbed : ∀ c current, h.source? = some c → s.current = some current → c ≠ current →
    (s.step h).pi.child = s.pi.child ∧ (s.step h).children[current]? = s.children[current]?

/-- No spawn fails, be it thrown or reported of the child that is referred to, and no child exits
while another one is referred to. -/
def Clean (s : Children) : Happening → Prop
  | .start thrown => s.pi.started = true ∨ thrown = none
  | .chatRequest _ thrown => s.pi.running = true ∨ s.pi.started = true ∨ thrown = none
  | .exit c => s.exits c = true → s.pi.child = none ∨ s.pi.child = some c
  | .spawnError c => s.fate? c = some .alive → s.pi.child ≠ some c
  | .prompt .. | .kill | .stdinClose _ => True

namespace Children

variable {s : Children}

theorem start_of_started {thrown : Option Units} (h : s.pi.started = true) :
    s.start thrown = s :=
  if_pos h

theorem start_of_throw {err : Units} (h : ¬ s.pi.started = true) :
    s.start (some err) = { s with pi := { s.pi with started := true }, spawnFailed := true } := by
  simp only [start, PiRpc.start, if_neg h]

theorem start_of_spawn (h : ¬ s.pi.started = true) : s.start none =
    { pi := { s.pi with child := some s.pi.spawned, started := true, spawned := s.pi.spawned + 1 }
      children := s.children ++ [⟨.alive, true⟩]
      current := some s.pi.spawned
      spawnFailed := false } := by
  simp only [start, PiRpc.start, if_neg h]

theorem pi_promptTurn (pi : PiRpc) (r : ChatRequest) (writable : Bool) :
    (promptTurn pi r writable).2.pi =
      (pi.prompt writable (if r.text = [] then units "(empty)" else r.text) r.turnId).1 := by
  cases hok : (pi.prompt writable (if r.text = [] then units "(empty)" else r.text) r.turnId).2 with
  | true => simp only [promptTurn, hok]
  | false => simp only [promptTurn, hok]

/-- A request does to the runner what the bridge does for it. -/
theorem pi_chatRequest (s : Children) (active : Option ActiveTurn) (r : ChatRequest)
    (thrown : Option Units) :
    (s.chatRequest r thrown).pi =
      (ChatBridge.onChatRequest ⟨s.pi, active⟩ r thrown
        (if s.pi.running then s else s.start thrown).writable).2.pi := by
  cases hrunning : s.pi.running with
  | true => simp [chatRequest, ChatBridge.onChatRequest, hrunning, pi_promptTurn, prompt]
  | false =>
    by_cases hstarted : s.pi.started = true
    · simp [chatRequest, ChatBridge.onChatRequest, hrunning, hstarted, pi_promptTurn, prompt,
        start_of_started, PiRpc.start]
    · cases thrown with
      | some err =>
        simp [chatRequest, ChatBridge.onChatRequest, hrunning, hstarted, start_of_throw,
          PiRpc.start]
      | none =>
        simp [chatRequest, ChatBridge.onChatRequest, hrunning, hstarted, start_of_spawn,
          PiRpc.start, pi_promptTurn, prompt]

/-! The bookkeeping, which every happening keeps. -/

structure Inv (s : Children) : Prop where
  length : s.children.length = s.pi.spawned
  child : ∀ c, s.pi.child = some c → s.current = some c ∧ s.pi.started = true
  bound : ∀ c, s.current = some c → c < s.pi.spawned

theorem inv_initial : initial.Inv := ⟨rfl, nofun, nofun⟩

theorem length_setFate (s : Children) (c : Nat) (fate : Fate) :
    (s.setFate c fate).length = s.children.length :=
  List.length_modify ..

theorem Inv.start (hi : s.Inv) (thrown : Option Units) : (s.start thrown).Inv := by
  by_cases hstarted : s.pi.started = true
  · rwa [start_of_started hstarted]
  · cases thrown with
    | some err =>
      rw [start_of_throw hstarted]
      exact ⟨hi.length, fun c hc => ⟨(hi.child c hc).1, rfl⟩, hi.bound⟩
    | none =>
      rw [start_of_spawn hstarted]
      exact ⟨by simp [hi.length], fun c hc => ⟨hc, rfl⟩, by simp⟩

theorem prompt_same (pi : PiRpc) (writable : Bool) (message id : Units) :
    (pi.prompt writable message id).1.child = pi.child ∧
      (pi.prompt writable message id).1.started = pi.started ∧
      (pi.prompt writable message id).1.spawned = pi.spawned := by
  cases hchild : pi.child with
  | none => simp [PiRpc.prompt, hchild]
  | some c =>
    cases writable with
    | true => simp [PiRpc.prompt, hchild]
    | false => simp [PiRpc.prompt, hchild]

theorem Inv.prompt (hi : s.Inv) (message id : Units) : (s.prompt message id).Inv := by
  obtain ⟨hchild, hstarted, hspawned⟩ := prompt_same s.pi s.writable message id
  refine ⟨?_, ?_, ?_⟩
  · exact hi.length.trans hspawned.symm
  · intro c hc
    obtain ⟨hcurrent, hs⟩ := hi.child c (hchild.symm.trans hc)
    exact ⟨hcurrent, hstarted.trans hs⟩
  · intro c hc
    exact (hi.bound c hc).trans_eq hspawned.symm

theorem Inv.chatRequest (hi : s.Inv) (r : ChatRequest) (thrown : Option Units) :
    (s.chatRequest r thrown).Inv := by
  have hstart : (if s.pi.running then s else s.start thrown).Inv := by
    split
    · exact hi
    · exact hi.start thrown
  rw [Children.chatRequest]
  split
  · exact hstart
  · exact hstart.prompt _ _

theorem Inv.step (hi : s.Inv) (h : Happening) : (s.step h).Inv := by
  cases h with
  | start thrown => exact hi.start thrown
  | chatRequest r thrown => exact hi.chatRequest r thrown
  | prompt message id => exact hi.prompt message id
  | kill =>
    rw [Children.step, Children.kill, PiRpc.kill]
    split
    · exact ⟨hi.length, nofun, nofun⟩
    · exact hi
  | exit c =>
    rw [Children.step, onExit]
    split
    · exact ⟨(length_setFate ..).trans hi.length, nofun, hi.bound⟩
    · exact hi
  | spawnError c =>
    rw [Children.step, onError]
    split
    · exact ⟨(length_setFate ..).trans hi.length, hi.child, hi.bound⟩
    · exact hi
  | stdinClose c => exact ⟨(List.length_modify ..).trans hi.length, hi.child, hi.bound⟩

/-! What each happening makes of a lawful state. -/

theorem lawful_iff_alive (hi : s.Inv) : s.Lawful ↔
    s.pi.running = s.currentAlive ∧ (s.spawnFailed = true → s.pi.started = false) := by
  constructor
  · intro h
    refine ⟨h.running, fun hfailed => ?_⟩
    rw [← Bool.not_eq_true]
    intro hstarted
    have hchild := h.restarts hfailed
    rw [PiRpc.start, if_pos hstarted] at hchild
    exact absurd (hi.bound _ (hi.child _ hchild).1) (lt_irrefl _)
  · rintro ⟨hrunning, hfailed⟩
    refine ⟨hrunning, fun h => ?_⟩
    simp [PiRpc.start, hfailed h]

theorem lawful_initial : initial.Lawful := ⟨rfl, nofun⟩

theorem fate?_of_mem (hi : s.Inv) {c : Nat} (hc : s.current = some c) :
    ∃ child, s.children[c]? = some child ∧ s.fate? c = some child.fate := by
  have hlt : c < s.children.length := (hi.bound c hc).trans_eq hi.length.symm
  refine ⟨s.children[c], List.getElem?_eq_getElem hlt, ?_⟩
  rw [fate?, List.getElem?_eq_getElem hlt, Option.map_some]

theorem currentAlive_setFate (s : Children) (pi : PiRpc) (c : Nat) (fate : Fate)
    (hfate : fate ≠ .alive) (spawnFailed : Bool) :
    (⟨pi, s.setFate c fate, s.current, spawnFailed⟩ : Children).currentAlive =
      (s.currentAlive && s.current ≠ some c) := by
  cases hcurrent : s.current with
  | none => simp [currentAlive, hcurrent]
  | some d =>
    by_cases hd : c = d
    · subst hd
      cases hchild : s.children[c]? with
      | none => simp [currentAlive, fate?, setFate, hcurrent, hchild]
      | some child => simp [currentAlive, fate?, setFate, hcurrent, hchild, hfate]
    · simp [currentAlive, fate?, setFate, hcurrent, hd, Ne.symm hd, List.getElem?_modify]

theorem lawful_start_iff (hi : s.Inv) (hl : s.Lawful) (thrown : Option Units) :
    (s.start thrown).Lawful ↔ s.pi.started = true ∨ thrown = none := by
  by_cases hstarted : s.pi.started = true
  · rw [start_of_started hstarted]
    exact iff_of_true hl (.inl hstarted)
  · rw [lawful_iff_alive (hi.start thrown)]
    cases thrown with
    | some err =>
      rw [start_of_throw hstarted]
      exact iff_of_false (fun h => nomatch h.2 rfl) (by simp [hstarted])
    | none =>
      rw [start_of_spawn hstarted]
      refine iff_of_true ⟨?_, nofun⟩ (.inr rfl)
      simp [PiRpc.running, currentAlive, fate?, ← hi.length]

theorem lawful_prompt_iff (hi : s.Inv) (message id : Units) :
    (s.prompt message id).Lawful ↔ s.Lawful := by
  obtain ⟨hchild, hstarted, -⟩ := prompt_same s.pi s.writable message id
  rw [lawful_iff_alive (hi.prompt message id), lawful_iff_alive hi]
  simp only [prompt, PiRpc.running, hchild, hstarted]
  rfl

theorem lawful_chatRequest_iff (hi : s.Inv) (hl : s.Lawful) (r : ChatRequest)
    (thrown : Option Units) : (s.chatRequest r thrown).Lawful ↔
      s.pi.running = true ∨ s.pi.started = true ∨ thrown = none := by
  rw [chatRequest]
  cases hrunning : s.pi.running with
  | true => simp [lawful_prompt_iff hi, hl]
  | false =>
    simp only [Bool.false_eq_true, if_false, false_or, true_and]
    split
    · exact lawful_start_iff hi hl thrown
    · rw [lawful_prompt_iff (hi.start thrown), lawful_start_iff hi hl]

theorem lawful_kill (hl : s.Lawful) : s.kill.Lawful := by
  by_cases hrunning : s.pi.running = true
  · rw [kill, PiRpc.kill, if_pos hrunning, if_pos hrunning]
    exact ⟨rfl, fun _ => rfl⟩
  · rw [kill, PiRpc.kill, if_neg hrunning, if_neg hrunning]
    exact hl

theorem lawful_onExit_iff (hi : s.Inv) (hl : s.Lawful) (c : Nat) : (s.onExit c).Lawful ↔
    (s.exits c = true → s.pi.child = none ∨ s.pi.child = some c) := by
  have hi' : (s.onExit c).Inv := hi.step (.exit c)
  by_cases hexits : s.exits c = true
  · rw [lawful_iff_alive hi', imp_iff_right hexits, onExit, if_pos hexits,
      currentAlive_setFate s _ c .exited nofun, ← hl.running]
    cases hchild : s.pi.child with
    | none => simp [PiRpc.onExit, PiRpc.running, hchild]
    | some d => simp [PiRpc.onExit, PiRpc.running, hchild, (hi.child d hchild).1]
  · rw [onExit, if_neg hexits]
    exact iff_of_true hl fun h => absurd h hexits

theorem lawful_onError_iff (hi : s.Inv) (hl : s.Lawful) (c : Nat) : (s.onError c).Lawful ↔
    (s.fate? c = some .alive → s.pi.child ≠ some c) := by
  have hi' : (s.onError c).Inv := hi.step (.spawnError c)
  by_cases halive : s.fate? c = some .alive
  · rw [lawful_iff_alive hi', imp_iff_right halive, onError, if_pos halive,
      currentAlive_setFate s _ c .failed nofun, ← hl.running]
    have hlawful := (lawful_iff_alive hi).mp hl
    cases hchild : s.pi.child with
    | none =>
      -- A live child is referred to, so the failed one has been replaced.
      have hother : s.current ≠ some c := by
        intro hcurrent
        have hrunning := hl.running
        simp [PiRpc.running, hchild, currentAlive, hcurrent, halive] at hrunning
      simpa [PiRpc.running, hchild, hother] using hlawful.2
    | some d =>
      obtain ⟨hcurrent, hstarted⟩ := hi.child d hchild
      have hfailed : s.spawnFailed = false := by
        by_contra hfailed
        have := hlawful.2 (by simpa using hfailed)
        simp [hstarted] at this
      simp [PiRpc.running, hchild, hcurrent, hstarted, hfailed]
  · rw [onError, if_neg halive]
    exact iff_of_true hl fun h => absurd h halive

theorem fate?_onStdinClose (s : Children) (c d : Nat) : (s.onStdinClose c).fate? d = s.fate? d := by
  by_cases hd : c = d
  · subst hd
    simp [fate?, onStdinClose, Function.comp_def]
  · simp [fate?, onStdinClose, hd]

theorem lawful_onStdinClose (hl : s.Lawful) (c : Nat) : (s.onStdinClose c).Lawful := by
  refine ⟨?_, hl.restarts⟩
  simp only [currentAlive, fate?_onStdinClose]
  exact hl.running

theorem lawful_step_iff (hi : s.Inv) (hl : s.Lawful) (h : Happening) :
    (s.step h).Lawful ↔ Clean s h := by
  cases h with
  | start thrown => exact lawful_start_iff hi hl thrown
  | chatRequest r thrown => exact lawful_chatRequest_iff hi hl r thrown
  | prompt message id => exact iff_of_true ((lawful_prompt_iff hi message id).mpr hl) trivial
  | kill => exact iff_of_true (lawful_kill hl) trivial
  | exit c => exact lawful_onExit_iff hi hl c
  | spawnError c => exact lawful_onError_iff hi hl c
  | stdinClose c => exact iff_of_true (lawful_onStdinClose hl c) trivial

/-- A clean event of another child leaves the current one to itself. -/
theorem undisturbed_of_clean (hi : s.Inv) {h : Happening} (hclean : Clean s h)
    {c current : Nat} (hsource : h.source? = some c) (hcurrent : s.current = some current)
    (hne : c ≠ current) :
    (s.step h).pi.child = s.pi.child ∧ (s.step h).children[current]? = s.children[current]? := by
  cases h with
  | exit d =>
    cases hsource
    rw [step, onExit]
    split
    · rename_i hexits
      refine ⟨?_, by simp [setFate, hne]⟩
      obtain hnone | hsome := hclean hexits
      · exact hnone.symm
      · rw [(hi.child c hsome).1] at hcurrent
        exact absurd (Option.some_inj.mp hcurrent) hne
    · exact ⟨rfl, rfl⟩
  | spawnError d =>
    cases hsource
    rw [step, onError]
    split
    · exact ⟨rfl, by simp [setFate, hne]⟩
    · exact ⟨rfl, rfl⟩
  | stdinClose d =>
    cases hsource
    exact ⟨rfl, by simp [step, onStdinClose, hne]⟩
  | start thrown => cases hsource
  | chatRequest r thrown => cases hsource
  | prompt message id => cases hsource
  | kill => cases hsource

theorem correct_iff_clean (hi : s.Inv) (hl : s.Lawful) (h : Happening) :
    Correct s h ↔ Clean s h := by
  constructor
  · intro hcorrect
    exact (lawful_step_iff hi hl h).mp hcorrect.lawful
  · intro hclean
    exact ⟨(lawful_step_iff hi hl h).mpr hclean,
      fun c current => undisturbed_of_clean hi hclean⟩

end Children

/-- However the calls and the events of the children come, all is correct if and only if all of
them are clean. -/
theorem correct_iff_clean_run (hs : List Happening) :
    Run.Meets Children.step Correct .initial hs ↔ Run.Meets Children.step Clean .initial hs := by
  apply Run.meets_iff_of_keeps (r := fun s => s.Inv ∧ s.Lawful)
  · rintro s h ⟨hi, hl⟩ hclean
    exact ⟨hi.step h, (Children.lawful_step_iff hi hl h).mpr hclean⟩
  · rintro s h ⟨hi, hl⟩
    exact Children.correct_iff_clean hi hl h
  · exact ⟨Children.inv_initial, Children.lawful_initial⟩

/-! The exit of a killed child comes when its successor has been started. -/

def lateExit : List Happening := [.start none, .kill, .start none, .exit 0]

theorem lateExit_not_correct :
    ¬ ∀ hs : List Happening, Run.Meets Children.step Correct .initial hs := by
  intro h
  have hrunning := (h lateExit).2.2.2.1.lawful.running
  revert hrunning
  decide

end Eyot.Host
