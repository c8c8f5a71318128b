import Eyot.Composer.Turn

/-! The event streams of one turn: each replays the history as it finds it, and then takes from
the one queue of the turn. -/

namespace Eyot.Composer

inductive Reading where
  | replaying (rest : List Nat) (terminalSeen : Bool)
  | live
  | ended
  | gone
  deriving DecidableEq

/-- A client of `composer_stream`; frames are known by their position in the history. -/
structure Subscriber where
  id : Id
  received : List Nat
  reading : Reading

structure Streams where
  turn : Turn
  /-- How many frames have been taken from the queue, by whomever. -/
  taken : Nat
  subscribers : Table Subscriber.id

inductive Event where
  | act (a : Action)
  | connect (id : Id)
  | replay (id : Id)
  | get (id : Id)
  /-- Nothing has come for half a minute. -/
  | timeout (id : Id)
  | disconnect (id : Id)

def Turn.isTerminalAt (t : Turn) (n : Nat) : Bool := t.history[n]?.any fun f => f.type.isTerminal

namespace Subscriber

def receive (s : Subscriber) (n : Nat) : Subscriber := { s with received := s.received ++ [n] }

def replay (t : Turn) (s : Subscriber) : Subscriber :=
  match s.reading with
  | .replaying (n :: rest) seen =>
    { s.receive n with reading := .replaying rest (seen || t.isTerminalAt n) }
  | .replaying [] seen => { s with reading := if seen then .ended else .live }
  | _ => s

/-- The queue gives a frame, or the end mark. -/
def take (t : Turn) (item : Option Nat) (s : Subscriber) : Subscriber :=
  match item with
  | some n => { s.receive n with reading := if t.isTerminalAt n then .ended else .live }
  | none => { s with reading := .ended }

def timeout (t : Turn) (s : Subscriber) : Subscriber :=
  if s.reading = .live && t.queue = [] && t.status ≠ .responding then { s with reading := .ended }
  else s

def disconnect (s : Subscriber) : Subscriber :=
  if s.reading = .ended then s else { s with reading := .gone }

theorem replay_id (t : Turn) (s : Subscriber) : (s.replay t).id = s.id := by
  rw [replay]
  split <;> rfl

theorem take_id (t : Turn) (item : Option Nat) (s : Subscriber) : (s.take t item).id = s.id := by
  cases item with
  | none => rfl
  | some n => rfl

theorem timeout_id (t : Turn) (s : Subscriber) : (s.timeout t).id = s.id := by
  rw [timeout]
  split <;> rfl

theorem disconnect_id (s : Subscriber) : s.disconnect.id = s.id := by
  rw [disconnect]
  split <;> rfl

end Subscriber

namespace Streams

def connect (s : Streams) (id : Id) : Streams :=
  let client : Subscriber := ⟨id, [], .replaying (List.range s.turn.history.length) false⟩
  { s with subscribers := (s.subscribers.insert? client).getD s.subscribers }

def isLive (s : Streams) (id : Id) : Bool :=
  (s.subscribers.find? id).any fun c => c.reading = .live

def get : Streams → Id → Streams
  | ⟨turn, taken, subscribers⟩, id =>
    match turn.queue with
    | [] => ⟨turn, taken, subscribers⟩
    | item :: rest =>
      ⟨{ turn with queue := rest }, taken + item.toList.length,
        subscribers.update id (Subscriber.take turn item) (Subscriber.take_id turn item)⟩

def step (repr : Value → PyStr) : Streams → Event → Streams
  | s, .act a => { s with turn := s.turn.act repr a }
  | s, .connect id => s.connect id
  | ⟨turn, taken, subscribers⟩, .replay id =>
    ⟨turn, taken, subscribers.update id (Subscriber.replay turn) (Subscriber.replay_id turn)⟩
  | s, .get id => if s.isLive id then s.get id else s
  | ⟨turn, taken, subscribers⟩, .timeout id =>
    ⟨turn, taken, subscribers.update id (Subscriber.timeout turn) (Subscriber.timeout_id turn)⟩
  | ⟨turn, taken, subscribers⟩, .disconnect id =>
    ⟨turn, taken, subscribers.update id Subscriber.disconnect Subscriber.disconnect_id⟩

end Streams

/-- What the client has got are the frames from the first on, each once and in their order; and
its stream does not end before a terminal frame. -/
structure Delivered (t : Turn) (c : Subscriber) : Prop where
  received : c.reading ≠ .gone → c.received = List.range c.received.length
  finished : c.reading = .ended → ∃ n ∈ c.received, t.isTerminalAt n = true

structure Sound (t : Turn) (c : Subscriber) : Prop where
  replays : ∀ rest seen, c.reading = .replaying rest seen →
    c.received ++ rest = List.range (c.received ++ rest).length ∧
      (seen = true ↔ ∃ n ∈ c.received, t.isTerminalAt n = true)
  awaits : c.reading = .live → ∀ n ∈ c.received, t.isTerminalAt n = false
  known : c.reading ≠ .gone → ∀ n ∈ c.received, n < t.history.length
  pending : ∀ rest seen, c.reading = .replaying rest seen → ∀ n ∈ rest, n < t.history.length

/-- The frames in the queue are the last ones of the history, in order. -/
structure Backlog (t : Turn) (taken : Nat) : Prop where
  le : taken ≤ t.history.length
  frames : t.queue.filterMap id = List.range' taken (t.history.length - taken)

section Growing

variable {t t' : Turn} {fs : List Frame} (h : t'.history = t.history ++ fs)

include h

theorem isTerminalAt_grown {n : Nat} (hn : n < t.history.length) :
    t'.isTerminalAt n = t.isTerminalAt n := by
  rw [Turn.isTerminalAt, Turn.isTerminalAt, h, List.getElem?_append_left hn]

theorem isTerminalAt_of_grown {n : Nat} (hn : t.isTerminalAt n = true) :
    t'.isTerminalAt n = true := by
  rw [Turn.isTerminalAt, Option.any_eq_true] at hn
  obtain ⟨f, hf, hterminal⟩ := hn
  obtain ⟨hlt, -⟩ := List.getElem?_eq_some_iff.mp hf
  rw [isTerminalAt_grown h hlt, Turn.isTerminalAt, hf]
  exact hterminal

theorem Sound.grown {c : Subscriber} (hc : Sound t c) : Sound t' c where
  replays rest seen hr := by
    obtain ⟨hrange, hseen⟩ := hc.replays rest seen hr
    have hlt := hc.known (by rw [hr]; exact Reading.noConfusion)
    refine ⟨hrange, hseen.trans (exists_congr fun n => and_congr_right fun hn => ?_)⟩
    rw [isTerminalAt_grown h (hlt n hn)]
  awaits hr n hn := by
    rw [isTerminalAt_grown h (hc.known (by rw [hr]; exact Reading.noConfusion) n hn)]
    exact hc.awaits hr n hn
  known hr n hn := by
    rw [h, List.length_append]
    exact Nat.lt_add_right _ (hc.known hr n hn)
  pending rest seen hr n hn := by
    rw [h, List.length_append]
    exact Nat.lt_add_right _ (hc.pending rest seen hr n hn)

theorem Delivered.grown {c : Subscriber} (hc : Delivered t c) : Delivered t' c where
  received := hc.received
  finished hr := by
    obtain ⟨n, hn, hterminal⟩ := hc.finished hr
    exact ⟨n, hn, isTerminalAt_of_grown h hterminal⟩

end Growing

/-! One client. -/

section Client

variable {t : Turn} {c : Subscriber}

end Client

/-! The queue. -/

theorem Backlog.act (repr : Value → PyStr) {t : Turn} {taken : Nat} (h : Backlog t taken)
    (a : Action) : Backlog (t.act repr a) taken := by
  cases hputs : t.puts a with
  | true =>
    obtain ⟨f, he⟩ := Turn.emitted_of_puts repr hputs
    have hlen : (t.act repr a).history.length = t.history.length + 1 := by
      rw [he.history, List.length_append, List.length_singleton]
    refine ⟨hlen ▸ Nat.le_succ_of_le h.le, ?_⟩
    have hlast : taken + 1 * (t.history.length - taken) = t.history.length := by
      rw [Nat.one_mul, Nat.add_sub_cancel' h.le]
    rw [he.queue, List.filterMap_append, h.frames, hlen, Nat.succ_sub h.le, List.range'_concat,
      hlast]
    rfl
  | false =>
    have hquiet := Turn.quiet_of_not_puts repr hputs
    have hlen := congrArg List.length hquiet.still.history
    refine ⟨hlen ▸ h.le, ?_⟩
    rw [hlen, ← h.frames]
    obtain hqueue | hqueue := hquiet.queue
    · rw [hqueue]
    · rw [hqueue, List.filterMap_append]
      exact List.append_nil _

theorem Backlog.next {t : Turn} {taken n : Nat} {rest : List (Option Nat)} (h : Backlog t taken)
    (hq : t.queue = some n :: rest) : n = taken ∧ taken < t.history.length ∧
      rest.filterMap id = List.range' (taken + 1) (t.history.length - (taken + 1)) := by
  have hframes := h.frames
  have hcons : (some n :: rest).filterMap id = n :: rest.filterMap id := rfl
  rw [hq, hcons] at hframes
  cases hk : t.history.length - taken with
  | zero =>
    rw [hk] at hframes
    cases hframes
  | succ k =>
    rw [hk, List.range'_succ, List.cons.injEq] at hframes
    have hrest : t.history.length - (taken + 1) = k := by omega
    rw [hrest]
    exact ⟨hframes.1, by omega, hframes.2⟩

theorem Backlog.get {t : Turn} {taken : Nat} {item : Option Nat} {rest : List (Option Nat)}
    (h : Backlog t taken) (hq : t.queue = item :: rest) :
    Backlog { t with queue := rest } (taken + item.toList.length) := by
  cases item with
  | none =>
    have hcons : (none :: rest).filterMap id = rest.filterMap id := rfl
    have hframes := h.frames
    rw [hq, hcons] at hframes
    exact ⟨h.le, hframes⟩
  | some n =>
    obtain ⟨-, hlt, hrest⟩ := h.next hq
    exact ⟨hlt, hrest⟩

/-! All clients of a turn. -/

structure Consistent (s : Streams) : Prop where
  backlog : Backlog s.turn s.taken
  sound : ∀ c ∈ s.subscribers.rows, Sound s.turn c

def Streams.start (t : Turn) : Streams := ⟨t, 0, .empty⟩

end Eyot.Composer
