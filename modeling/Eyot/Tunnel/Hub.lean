import Eyot.Data.Rows
import Eyot.Library.Dict
import Eyot.Library.Run
import Mathlib.Logic.Function.Basic

/-! The registry of tunnel connections, and the tasks that take turns at it between two awaits. -/

namespace Eyot.Tunnel

open Function (update)

/-- A websocket object; the endpoint serves each in a task of its own. -/
abbrev Socket := Nat

@[ext]
structure TunnelConnection where
  instanceId : Id
  websocket : Socket
  deriving DecidableEq

abbrev Connections := List (Id × TunnelConnection)

/-- The connection that `register` closes first. -/
def superseded? (connections : Connections) (instanceId : Id) (websocket : Socket) :
    Option TunnelConnection :=
  (Dict.get? connections instanceId).filter fun old => old.websocket ≠ websocket

/-- The end of `register`. -/
def registerConnection (connections : Connections) (instanceId : Id) (websocket : Socket) :
    Connections :=
  Dict.set connections instanceId ⟨instanceId, websocket⟩

/-- `unregister`, once it has the lock. -/
def unregisterConnection (connections : Connections) (instanceId : Id)
    (websocket : Option Socket) : Connections :=
  match Dict.get? connections instanceId with
  | none => connections
  | some current =>
    if websocket.any fun w => current.websocket ≠ w then connections
    else Dict.erase connections instanceId

/-- How far `tunnel_connect` has come for a socket: before its `register`, waiting for the lock of
it, inside it while the old socket is closed, in the receive loop, and waiting for the lock of the
`unregister` at the end. -/
inductive Handler where
  | fresh
  | registering (instanceId : Id)
  | closing (instanceId : Id) (old : TunnelConnection)
  | serving (instanceId : Id)
  | unregistering (instanceId : Id)
  | ended

/-- It has the lock over an await. -/
def Handler.isClosing : Handler → Bool
  | .closing _ _ => true
  | _ => false

/-- Any other task: inside a `send`, with the connection it has found, or waiting for the lock of
an `unregister`. -/
inductive Caller where
  | idle
  | sending (instanceId : Id) (conn : TunnelConnection)
  | unregistering (instanceId : Id) (websocket : Option Socket)

/-- What has been carried out under the lock. -/
inductive Entry where
  | registered (instanceId : Id) (websocket : Socket)
  | unregistered (instanceId : Id) (websocket : Option Socket)
  deriving DecidableEq

/-- `lock` is the socket whose `register` holds the lock over an await; `log` has the newest entry
first. -/
structure Hub where
  connections : Connections
  lock : Option Socket
  handlers : Socket → Handler
  callers : Nat → Caller
  log : List Entry

def start : Hub where
  connections := []
  lock := none
  handlers := fun _ => .fresh
  callers := fun _ => .idle
  log := []

namespace Hub

variable (s : Hub)

def handle (w : Socket) (h : Handler) : Hub := { s with handlers := update s.handlers w h }

def call (n : Nat) (c : Caller) : Hub := { s with callers := update s.callers n c }

def register (instanceId : Id) (websocket : Socket) : Hub :=
  { s with
    connections := registerConnection s.connections instanceId websocket
    log := .registered instanceId websocket :: s.log }

def unregister (instanceId : Id) (websocket : Option Socket) : Hub :=
  { s with
    connections := unregisterConnection s.connections instanceId websocket
    log := .unregistered instanceId websocket :: s.log }

end Hub

/-- What one task does before it awaits again. Whoever waits for the lock may get it once it is
free. -/
inductive Event where
  /-- A verified socket calls `register`. -/
  | connect (websocket : Socket) (instanceId : Id)
  /-- It has the lock. -/
  | locked (websocket : Socket)
  /-- The superseded socket is closed, or could not be. -/
  | closed (websocket : Socket)
  /-- The receive loop ends, and `unregister` is called. -/
  | disconnect (websocket : Socket)
  | cleanup (websocket : Socket)
  | send (caller : Nat) (instanceId : Id)
  | sent (caller : Nat)
  | sendFails (caller : Nat)
  | unregister (caller : Nat) (instanceId : Id) (websocket : Option Socket)
  | unregistered (caller : Nat)

/-- What cannot happen in a state leaves it. -/
def step (s : Hub) : Event → Hub
  | .connect w i =>
    match s.handlers w with
    | .fresh => s.handle w (.registering i)
    | _ => s
  | .locked w =>
    match s.handlers w, s.lock with
    | .registering i, none =>
      match superseded? s.connections i w with
      | some old => { s.handle w (.closing i old) with lock := some w }
      | none => (s.register i w).handle w (.serving i)
    | _, _ => s
  | .closed w =>
    match s.handlers w with
    | .closing i _ => { (s.register i w).handle w (.serving i) with lock := none }
    | _ => s
  | .disconnect w =>
    match s.handlers w with
    | .serving i => s.handle w (.unregistering i)
    | _ => s
  | .cleanup w =>
    match s.handlers w, s.lock with
    | .unregistering i, none => (s.unregister i (some w)).handle w .ended
    | _, _ => s
  | .send n i =>
    match s.callers n, Dict.get? s.connections i with
    | .idle, some conn => s.call n (.sending i conn)
    | _, _ => s
  | .sent n =>
    match s.callers n with
    | .sending _ _ => s.call n .idle
    | _ => s
  | .sendFails n =>
    match s.callers n with
    | .sending i conn => s.call n (.unregistering i (some conn.websocket))
    | _ => s
  | .unregister n i w =>
    match s.callers n with
    | .idle => s.call n (.unregistering i w)
    | _ => s
  | .unregistered n =>
    match s.callers n, s.lock with
    | .unregistering i w, none => (s.unregister i w).call n .idle
    | _, _ => s

/-- What one event commits: nothing, a registration or the end of one. -/
theorem step_commits (s : Hub) (e : Event) :
    ((step s e).connections = s.connections ∧ (step s e).log = s.log) ∨
      (∃ i w, (step s e).connections = registerConnection s.connections i w ∧
        (step s e).log = .registered i w :: s.log) ∨
      ∃ i w, (step s e).connections = unregisterConnection s.connections i w ∧
        (step s e).log = .unregistered i w :: s.log := by
  cases e with
  | connect w i =>
    simp only [step]
    split
    · exact .inl ⟨rfl, rfl⟩
    · exact .inl ⟨rfl, rfl⟩
  | locked w =>
    simp only [step]
    split
    · split
      · exact .inl ⟨rfl, rfl⟩
      · exact .inr (.inl ⟨_, w, rfl, rfl⟩)
    · exact .inl ⟨rfl, rfl⟩
  | closed w =>
    simp only [step]
    split
    · exact .inr (.inl ⟨_, w, rfl, rfl⟩)
    · exact .inl ⟨rfl, rfl⟩
  | disconnect w =>
    simp only [step]
    split
    · exact .inl ⟨rfl, rfl⟩
    · exact .inl ⟨rfl, rfl⟩
  | cleanup w =>
    simp only [step]
    split
    · exact .inr (.inr ⟨_, some w, rfl, rfl⟩)
    · exact .inl ⟨rfl, rfl⟩
  | send n i =>
    simp only [step]
    split
    · exact .inl ⟨rfl, rfl⟩
    · exact .inl ⟨rfl, rfl⟩
  | sent n =>
    simp only [step]
    split
    · exact .inl ⟨rfl, rfl⟩
    · exact .inl ⟨rfl, rfl⟩
  | sendFails n =>
    simp only [step]
    split
    · exact .inl ⟨rfl, rfl⟩
    · exact .inl ⟨rfl, rfl⟩
  | unregister n i w =>
    simp only [step]
    split
    · exact .inl ⟨rfl, rfl⟩
    · exact .inl ⟨rfl, rfl⟩
  | unregistered n =>
    simp only [step]
    split
    · exact .inr (.inr ⟨_, _, rfl, rfl⟩)
    · exact .inl ⟨rfl, rfl⟩

/-! The connection the hub has for an instance is the newest, for as long as nobody has unregistered
it. -/

/-- No socket was registered for the instance after this one, and since then it has not been
unregistered, be it by name or as the current one. -/
def Newest (log : List Entry) (instanceId : Id) (websocket : Socket) : Prop :=
  ∃ since before, log = since ++ .registered instanceId websocket :: before ∧
    (∀ w, .registered instanceId w ∉ since) ∧
    .unregistered instanceId (some websocket) ∉ since ∧ .unregistered instanceId none ∉ since

theorem not_newest_nil (i : Id) (w : Socket) : ¬Newest [] i w := by
  rintro ⟨since, before, h, -⟩
  cases since <;> cases h

theorem newest_registered {log : List Entry} {i j : Id} {w v : Socket} :
    Newest (.registered j v :: log) i w ↔ if j = i then v = w else Newest log i w := by
  constructor
  · rintro ⟨since, before, hlog, hreg, hun, hany⟩
    cases since with
    | nil =>
      obtain ⟨rfl, rfl⟩ := Entry.registered.inj (List.cons.inj hlog).1
      rw [if_pos rfl]
    | cons e since =>
      obtain ⟨rfl, rfl⟩ := List.cons.inj hlog
      rw [List.mem_cons, not_or] at hun hany
      have hji : j ≠ i := by
        rintro rfl
        exact hreg v List.mem_cons_self
      rw [if_neg hji]
      exact ⟨since, before, rfl, fun w' h => hreg w' (List.mem_cons_of_mem _ h), hun.2, hany.2⟩
  · split
    · rename_i hji
      subst hji
      rintro rfl
      exact ⟨[], log, rfl, nofun, nofun, nofun⟩
    · rename_i hji
      rintro ⟨since, before, rfl, hreg, hun, hany⟩
      refine ⟨.registered j v :: since, before, rfl, fun w' h => ?_, ?_, ?_⟩
      · rcases List.mem_cons.mp h with h | h
        · exact hji (Entry.registered.inj h).1.symm
        · exact hreg w' h
      · rw [List.mem_cons, not_or]
        exact ⟨nofun, hun⟩
      · rw [List.mem_cons, not_or]
        exact ⟨nofun, hany⟩

theorem newest_unregistered {log : List Entry} {i j : Id} {w : Socket} {v : Option Socket} :
    Newest (.unregistered j v :: log) i w ↔
      Newest log i w ∧ (j = i → v ≠ none ∧ v ≠ some w) := by
  constructor
  · rintro ⟨since, before, hlog, hreg, hun, hany⟩
    cases since with
    | nil => cases (List.cons.inj hlog).1
    | cons e since =>
      obtain ⟨rfl, rfl⟩ := List.cons.inj hlog
      rw [List.mem_cons, not_or] at hun hany
      refine ⟨⟨since, before, rfl, fun w' h => hreg w' (List.mem_cons_of_mem _ h), hun.2,
        hany.2⟩, ?_⟩
      rintro rfl
      refine ⟨?_, ?_⟩
      · rintro rfl
        exact hany.1 rfl
      · rintro rfl
        exact hun.1 rfl
  · rintro ⟨⟨since, before, rfl, hreg, hun, hany⟩, hother⟩
    refine ⟨.unregistered j v :: since, before, rfl, fun w' h => ?_, ?_, ?_⟩
    · rcases List.mem_cons.mp h with h | h
      · cases h
      · exact hreg w' h
    · rw [List.mem_cons, not_or]
      refine ⟨fun h => ?_, hun⟩
      obtain ⟨rfl, rfl⟩ := Entry.unregistered.inj h
      exact (hother rfl).2 rfl
    · rw [List.mem_cons, not_or]
      refine ⟨fun h => ?_, hany⟩
      obtain ⟨rfl, rfl⟩ := Entry.unregistered.inj h
      exact (hother rfl).1 rfl

/-! The entry of an instance after the body of one call. -/

theorem get?_registerConnection (c : Connections) (i j : Id) (w : Socket) :
    Dict.get? (registerConnection c i w) j = if i = j then some ⟨i, w⟩ else Dict.get? c j :=
  Dict.get?_set

/-- Only the current connection of that instance goes, and only if it is the one named. -/
theorem get?_unregisterConnection (c : Connections) (i j : Id) (w : Option Socket)
    (conn : TunnelConnection) :
    Dict.get? (unregisterConnection c i w) j = some conn ↔
      Dict.get? c j = some conn ∧ (i = j → w ≠ none ∧ w ≠ some conn.websocket) := by
  unfold unregisterConnection
  cases hcurrent : Dict.get? c i with
  | none =>
    refine (and_iff_left_of_imp fun h => ?_).symm
    rintro rfl
    rw [hcurrent] at h
    cases h
  | some current =>
    dsimp only
    by_cases hnamed : (w.any fun w => current.websocket ≠ w) = true
    · rw [if_pos hnamed]
      refine (and_iff_left_of_imp fun h => ?_).symm
      rintro rfl
      obtain rfl : current = conn := Option.some.inj (hcurrent.symm.trans h)
      obtain ⟨v, rfl, hv⟩ := (Option.any_eq_true _ _).mp hnamed
      refine ⟨nofun, fun h => of_decide_eq_true hv (Option.some.inj h).symm⟩
    · rw [if_neg hnamed, Dict.get?_erase]
      by_cases hij : i = j
      · subst hij
        rw [if_pos rfl]
        refine iff_of_false nofun ?_
        rintro ⟨hconn, hother⟩
        obtain rfl : current = conn := Option.some.inj (hcurrent.symm.trans hconn)
        obtain ⟨hnone, hsome⟩ := hother rfl
        cases w with
        | none => exact hnone rfl
        | some v => exact hnamed (decide_eq_true fun h => hsome (congrArg some h.symm))
      · rw [if_neg hij]
        exact (and_iff_left fun h => absurd h hij).symm

theorem distinct_unregisterConnection {c : Connections} (hc : Dict.Distinct c) (i : Id)
    (w : Option Socket) : Dict.Distinct (unregisterConnection c i w) := by
  unfold unregisterConnection
  cases Dict.get? c i with
  | none => exact hc
  | some current =>
    dsimp only
    split
    · exact hc
    · exact Dict.distinct_erase hc i

/-- One connection an instance, and it is the newest that is still registered. -/
structure Sound (s : Hub) : Prop where
  distinct : Dict.Distinct s.connections
  newest : ∀ i conn, Dict.get? s.connections i = some conn ↔
    conn.instanceId = i ∧ Newest s.log i conn.websocket

theorem sound_start : Sound start where
  distinct := Dict.distinct_nil
  newest i conn := iff_of_false nofun fun h => not_newest_nil i conn.websocket h.2

theorem sound_step (s : Hub) (e : Event) (h : Sound s) : Sound (step s e) := by
  rcases step_commits s e with
    ⟨hconns, hlog⟩ | ⟨i, w, hconns, hlog⟩ | ⟨i, w, hconns, hlog⟩
  · refine ⟨hconns ▸ h.distinct, ?_⟩
    rw [hconns, hlog]
    exact h.newest
  · refine ⟨hconns ▸ Dict.distinct_set h.distinct, fun j conn => ?_⟩
    rw [hconns, hlog, get?_registerConnection, newest_registered]
    by_cases hij : i = j
    · subst hij
      rw [if_pos rfl, if_pos rfl, Option.some.injEq, TunnelConnection.ext_iff]
      exact ⟨fun hc => ⟨hc.1.symm, hc.2⟩, fun hc => ⟨hc.1.symm, hc.2⟩⟩
    · rw [if_neg hij, if_neg hij]
      exact h.newest j conn
  · refine ⟨hconns ▸ distinct_unregisterConnection h.distinct i w, fun j conn => ?_⟩
    rw [hconns, hlog, get?_unregisterConnection, newest_unregistered, h.newest, and_assoc]

theorem sound_exec (events : List Event) : Sound (Run.exec step start events) :=
  (Run.always_of_step sound_step sound_start events).exec

/-- To unregister any other socket leaves the connection of an instance. -/
theorem get?_unregister_of_ne {c : Connections} {i : Id} {newer : TunnelConnection}
    (h : Dict.get? c i = some newer) {w : Socket} (hw : w ≠ newer.websocket) (j : Id) :
    Dict.get? (unregisterConnection c j (some w)) i = some newer := by
  rw [get?_unregisterConnection]
  exact ⟨h, fun _ => ⟨nofun, fun heq => hw (Option.some.inj heq)⟩⟩

/-- The cleanup of a socket, in its handler or after a failed send, leaves what is registered for
another. -/
theorem cleanup_keeps (s : Hub) {i : Id} {newer : TunnelConnection}
    (h : Dict.get? s.connections i = some newer) {w : Socket} (hw : w ≠ newer.websocket) :
    Dict.get? (step s (.cleanup w)).connections i = some newer := by
  simp only [step]
  split
  · rename_i j _ _
    exact get?_unregister_of_ne h hw j
  · exact h

theorem unregistered_keeps (s : Hub) {i j : Id} {newer : TunnelConnection}
    (h : Dict.get? s.connections i = some newer) {w : Socket} (hw : w ≠ newer.websocket)
    {n : Nat} (hn : s.callers n = .unregistering j (some w)) :
    Dict.get? (step s (.unregistered n)).connections i = some newer := by
  simp only [step, hn]
  split
  · rename_i j' w' _ hcall _
    obtain ⟨rfl, rfl⟩ := Caller.unregistering.inj hcall
    exact get?_unregister_of_ne h hw j
  · exact h

/-- In whatever order the tasks take their turns: an instance has one connection at most, it is
the socket registered last, for as long as that one is not unregistered, and the cleanup of
another socket leaves it. -/
theorem registry_newest (events : List Event) :
    Dict.Distinct (Run.exec step start events).connections ∧
      (∀ i conn, Dict.get? (Run.exec step start events).connections i = some conn ↔
        conn.instanceId = i ∧ Newest (Run.exec step start events).log i conn.websocket) ∧
      ∀ i newer, Dict.get? (Run.exec step start events).connections i = some newer →
        ∀ w, w ≠ newer.websocket →
          Dict.get? (Run.exec step start (events ++ [.cleanup w])).connections i = some newer ∧
          ∀ n j, (Run.exec step start events).callers n = .unregistering j (some w) →
            Dict.get? (Run.exec step start (events ++ [.unregistered n])).connections i =
              some newer := by
  have hsound := sound_exec events
  refine ⟨hsound.distinct, hsound.newest, fun i newer h w hw => ⟨?_, fun n j hn => ?_⟩⟩
  · rw [Run.exec_append]
    exact cleanup_keeps _ h hw
  · rw [Run.exec_append]
    exact unregistered_keeps _ h hw hn

/-- Socket 1 supersedes socket 0, whose handler ends while it is being closed. -/
def reconnect : List Event :=
  [.connect 0 "i", .locked 0, .connect 1 "i", .locked 1, .disconnect 0, .closed 1]

theorem registry_newest_reconnect :
    Dict.get? (Run.exec step start (reconnect ++ [.cleanup 0])).connections "i" =
      some ⟨"i", 1⟩ := by
  have hnewer : Dict.get? (Run.exec step start reconnect).connections "i" = some ⟨"i", 1⟩ := by
    decide
  exact ((registry_newest reconnect).2.2 "i" ⟨"i", 1⟩ hnewer 0 (by decide)).1

/-! What the lock is for: between the close of a connection and its replacement nobody else gets at
the registry. -/

structure Guarded (s : Hub) : Prop where
  lock : ∀ w, s.lock = some w ↔ ∃ i old, s.handlers w = .closing i old
  current : ∀ w i old, s.handlers w = .closing i old → Dict.get? s.connections i = some old

theorem guarded_start : Guarded start where
  lock _ := iff_of_false nofun nofun
  current := nofun

theorem handlers_handle (s : Hub) (w v : Socket) (h : Handler) :
    (s.handle w h).handlers v = if v = w then h else s.handlers v :=
  Function.update_apply s.handlers w h v

/-- A task that is not inside a close, before and after. -/
theorem Guarded.handle {s : Hub} (hs : Guarded s) {w : Socket} {h : Handler}
    (hw : (s.handlers w).isClosing = false) (hh : h.isClosing = false) :
    Guarded (s.handle w h) where
  lock v := by
    rw [handlers_handle]
    split
    · rename_i hv
      subst hv
      refine iff_of_false (fun hlock => ?_) ?_
      · obtain ⟨i, old, hclosing⟩ := (hs.lock v).mp hlock
        rw [hclosing] at hw
        cases hw
      · rintro ⟨i, old, rfl⟩
        cases hh
    · exact hs.lock v
  current v i old := by
    rw [handlers_handle]
    split
    · rintro rfl
      cases hh
    · exact hs.current v i old

theorem Guarded.call {s : Hub} (hs : Guarded s) (n : Nat) (c : Caller) : Guarded (s.call n c) :=
  ⟨hs.lock, hs.current⟩

/-- The task that takes the lock to close the old connection. -/
theorem Guarded.close {s : Hub} (hs : Guarded s) (hlock : s.lock = none) {i : Id}
    {old : TunnelConnection} (hold : Dict.get? s.connections i = some old) (w : Socket) :
    Guarded { s.handle w (.closing i old) with lock := some w } := by
  have hfree : ∀ v i old, s.handlers v ≠ .closing i old := by
    intro v i old h
    have hheld := (hs.lock v).mpr ⟨i, old, h⟩
    rw [hlock] at hheld
    cases hheld
  constructor
  · intro v
    change some w = some v ↔ ∃ j old', (s.handle w (.closing i old)).handlers v = .closing j old'
    rw [handlers_handle]
    split
    · rename_i hv
      exact iff_of_true (congrArg some hv.symm) ⟨i, old, rfl⟩
    · rename_i hv
      refine iff_of_false (fun h => hv (Option.some.inj h).symm) ?_
      exact not_exists.mpr fun j => not_exists.mpr fun old' => hfree v j old'
  · intro v j old'
    change (s.handle w (.closing i old)).handlers v = .closing j old' →
      Dict.get? s.connections j = some old'
    rw [handlers_handle]
    split
    · intro h
      obtain ⟨rfl, rfl⟩ := Handler.closing.inj h
      exact hold
    · exact fun h => absurd h (hfree v j old')

/-- The task that has closed it, and lets the lock go. -/
theorem Guarded.release {s : Hub} (hs : Guarded s) {w : Socket} {i : Id} {old : TunnelConnection}
    (hw : s.handlers w = .closing i old) (c : Connections) (log : List Entry) :
    Guarded { s.handle w (.serving i) with connections := c, log := log, lock := none } := by
  have hheld := (hs.lock w).mpr ⟨i, old, hw⟩
  have hfree : ∀ v j old', (s.handle w (.serving i)).handlers v ≠ .closing j old' := by
    intro v j old'
    rw [handlers_handle]
    split
    · nofun
    · rename_i hv
      intro h
      have hother := (hs.lock v).mpr ⟨j, old', h⟩
      exact hv (Option.some.inj (hother.symm.trans hheld))
  constructor
  · intro v
    exact iff_of_false nofun (not_exists.mpr fun j => not_exists.mpr fun old' => hfree v j old')
  · intro v j old' h
    exact absurd h (hfree v j old')

/-- While nobody has the lock, the registry may change. -/
theorem Guarded.commit {s : Hub} (hs : Guarded s) (hlock : s.lock = none) (c : Connections)
    (log : List Entry) : Guarded { s with connections := c, log := log } where
  lock := hs.lock
  current w i old h := by
    have hheld := (hs.lock w).mpr ⟨i, old, h⟩
    rw [hlock] at hheld
    cases hheld

theorem guarded_step (s : Hub) (e : Event) (hs : Guarded s) : Guarded (step s e) := by
  cases e with
  | connect w i =>
    simp only [step]
    split
    · rename_i h
      exact hs.handle (by rw [h]; rfl) rfl
    · exact hs
  | locked w =>
    simp only [step]
    split
    · rename_i i h hlock
      split
      · rename_i old hold
        exact hs.close hlock (Option.filter_eq_some_iff.mp hold).1 w
      · exact (hs.commit hlock _ _).handle (by rw [h]; rfl) rfl
    · exact hs
  | closed w =>
    simp only [step]
    split
    · rename_i i old h
      exact hs.release h _ _
    · exact hs
  | disconnect w =>
    simp only [step]
    split
    · rename_i i h
      exact hs.handle (by rw [h]; rfl) rfl
    · exact hs
  | cleanup w =>
    simp only [step]
    split
    · rename_i i h hlock
      exact (hs.commit hlock _ _).handle (by rw [h]; rfl) rfl
    · exact hs
  | send n i =>
    simp only [step]
    split
    · exact hs.call n _
    · exact hs
  | sent n =>
    simp only [step]
    split
    · exact hs.call n _
    · exact hs
  | sendFails n =>
    simp only [step]
    split
    · exact hs.call n _
    · exact hs
  | unregister n i w =>
    simp only [step]
    split
    · exact hs.call n _
    · exact hs
  | unregistered n =>
    simp only [step]
    split
    · rename_i i w _ hlock
      exact (hs.commit hlock _ _).call n _
    · exact hs

/-- What `register` replaces is what it has closed. -/
theorem closed_until_replaced (events : List Event) {w : Socket} {i : Id}
    {old : TunnelConnection} (h : (Run.exec step start events).handlers w = .closing i old) :
    Dict.get? (Run.exec step start events).connections i = some old :=
  (Run.always_of_step guarded_step guarded_start events).exec.current w i old h

end Eyot.Tunnel
