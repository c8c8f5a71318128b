import Eyot.Data.Text
import Eyot.Library.LazyPurge
import Mathlib.Algebra.Order.Floor.Ring
import Mathlib.Tactic.Linarith
import Mathlib.Tactic.NormNum

/-! The rate limiter of the backend: fixed windows, one for each client, over an exact clock. -/

namespace Eyot.RateLimit

def WINDOW_SECONDS : Nat := 60

def MAX_REQUESTS_PER_WINDOW : Nat := 600

def CLEANUP_AGE_SECONDS : Nat := 120

def COUNTED_PATH_PREFIX : Str := "/api/".toList

/-- A request with what the clock shows when it is checked: at first, and when an entry is made for
its client. -/
structure Request (K : Type) where
  path : Str
  client : Option Str
  now : K
  later : K

structure Entry (K : Type) where
  count : Nat
  windowStart : K

abbrev Counters (K : Type) := List (Str × Entry K)

/-- The response to a request over the limit. -/
structure Rejection where
  statusCode : Nat
  retryAfter : Int
  remaining : Nat
  errorCode : String
  messageKey : String
  message : String

def rejection (retryAfter : Int) : Rejection where
  statusCode := 429
  retryAfter := retryAfter
  remaining := 0
  errorCode := "rate_limit_exceeded"
  messageKey := "errors.rate_limit_exceeded"
  message := "Rate limit exceeded"

inductive Outcome where
  | admitted (remaining : Nat)
  | rejected (response : Rejection)

def Outcome.isAdmitted : Outcome → Bool
  | .admitted _ => true
  | .rejected _ => false

variable {K : Type} [Field K] [LinearOrder K] [FloorRing K]

def clientIp (request : Request K) : Str := request.client.getD "unknown".toList

/-- `_cleanup_expired` -/
def cleanupExpired (now : K) (counters : Counters K) : Counters K :=
  counters.filter fun kv => !decide (kv.2.windowStart < now - (CLEANUP_AGE_SECONDS : K))

/-- A client without an entry gets one, and a window that is over gives way to one that starts with
the request. -/
def currentEntry (entry : Option (Entry K)) (request : Request K) : Entry K :=
  let entry := entry.getD ⟨0, request.later⟩
  if request.now - entry.windowStart ≥ (WINDOW_SECONDS : K) then ⟨0, request.now⟩ else entry

/-- `_check_rate_limit`, with a way of cleaning up; no outcome for what is not counted. -/
def checkRateLimit (cleanup : K → Counters K → Counters K) (counters : Counters K)
    (request : Request K) : Counters K × Option Outcome :=
  if COUNTED_PATH_PREFIX.isPrefixOf request.path then
    let counters := cleanup request.now counters
    let entry := currentEntry (Dict.get? counters (clientIp request)) request
    if entry.count ≥ MAX_REQUESTS_PER_WINDOW then
      (Dict.set counters (clientIp request) entry, some (.rejected (rejection
        ⌈entry.windowStart + (WINDOW_SECONDS : K) - request.now⌉)))
    else
      (Dict.set counters (clientIp request) { entry with count := entry.count + 1 },
        some (.admitted (MAX_REQUESTS_PER_WINDOW - (entry.count + 1))))
  else (counters, none)

/-- The limiter without cleanup. -/
def keepAll (_ : K) (counters : Counters K) : Counters K := counters

/-- A run from the start, with what is answered to each request. -/
def decisions (cleanup : K → Counters K → Counters K) (requests : List (Request K)) :
    List (Request K × Option Outcome) :=
  LazyPurge.outputs (checkRateLimit cleanup) [] requests

end Eyot.RateLimit

/-! What the rate limiter decides. -/

namespace Eyot.RateLimit

open LazyPurge (Machine)

variable {K : Type}

/-- The client that a request is counted for. -/
def countedClient (request : Request K) : Option Str :=
  if COUNTED_PATH_PREFIX.isPrefixOf request.path then some (clientIp request) else none

section

variable [LinearOrder K] {requests : List (Request K)}

/-- The clock never goes back, within a request and from one to the next. -/
structure Clock (requests : List (Request K)) : Prop where
  later : ∀ r ∈ requests, r.now ≤ r.later
  sorted : requests.Pairwise fun r s => r.later ≤ s.now

theorem Clock.times (h : Clock requests) : requests.Pairwise fun r s => r.now ≤ s.now :=
  h.sorted.imp_of_mem fun hr _ hle => (h.later _ hr).trans hle

/-- How much of a window has been used, once it or a later one is under way. -/
def used (s : K) : Option (Entry K) → Nat
  | none => 0
  | some e =>
    if s < e.windowStart then MAX_REQUESTS_PER_WINDOW else if s = e.windowStart then e.count else 0

def Bounded (e : Option (Entry K)) : Prop := ∀ x, e = some x → x.count ≤ MAX_REQUESTS_PER_WINDOW

theorem used_le (s : K) {e : Option (Entry K)} (h : Bounded e) :
    used s e ≤ MAX_REQUESTS_PER_WINDOW := by
  cases e with
  | none => exact Nat.zero_le _
  | some e =>
    rw [used]
    split
    · exact Nat.le_refl _
    · split
      · exact h e rfl
      · exact Nat.zero_le _

theorem used_of_lt {s : K} {e : Entry K} (h : e.windowStart < s) : used s (some e) = 0 := by
  rw [used, if_neg h.not_gt, if_neg h.ne']

/-- A request is admitted in the window that starts at `s`. -/
def admittedAt (s : K) (outcome : Option Outcome) (entry : Option (Entry K)) : Bool :=
  outcome.any Outcome.isAdmitted && entry.map Entry.windowStart = some s

/-- A request more in the window that is under way. -/
theorem used_succ (s : K) (e : Entry K) (o : Option Outcome) :
    used s (some e) + (if admittedAt s o (some ⟨e.count + 1, e.windowStart⟩) then 1 else 0) ≤
      used s (some ⟨e.count + 1, e.windowStart⟩) := by
  by_cases hs : s = e.windowStart
  · have hone : ∀ b : Bool, (if b then 1 else 0) ≤ 1 := by decide
    rw [hs, used, if_neg (lt_irrefl _), if_pos rfl, used, if_neg (lt_irrefl _), if_pos rfl]
    exact Nat.add_le_add_left (hone _) _
  · have hnot : admittedAt s o (some ⟨e.count + 1, e.windowStart⟩) = false := by
      rw [admittedAt, Option.map_some, decide_eq_false fun h => hs (Option.some.inj h).symm,
        Bool.and_false]
    rw [hnot, if_neg Bool.false_ne_true, Nat.add_zero, used, used, if_neg hs, if_neg hs]

end

/-! The entry that a request is counted in. -/

section

variable [Field K] [LinearOrder K] [IsStrictOrderedRing K] {e : Entry K} {r : Request K}

theorem isOver_iff : r.now - e.windowStart ≥ (WINDOW_SECONDS : K) ↔ e.windowStart + 60 ≤ r.now := by
  have hseconds : ((WINDOW_SECONDS : Nat) : K) = 60 := by norm_num [WINDOW_SECONDS]
  rw [hseconds]
  constructor
  · intro h
    linarith
  · intro h
    linarith

theorem currentEntry_none (h : r.now ≤ r.later) : currentEntry none r = ⟨0, r.later⟩ := by
  refine if_neg fun hover => ?_
  have hover := isOver_iff.mp hover
  dsimp only [Option.getD] at hover
  linarith

theorem currentEntry_over (h : e.windowStart + 60 ≤ r.now) : currentEntry (some e) r = ⟨0, r.now⟩ :=
  if_pos (isOver_iff.mpr h)

theorem currentEntry_open (h : ¬ e.windowStart + 60 ≤ r.now) : currentEntry (some e) r = e :=
  if_neg fun hover => h (isOver_iff.mp hover)

end

/-! The check as a machine with a cell for each client. -/

section

variable [Field K] [LinearOrder K] [FloorRing K]

/-- What is done with one entry. -/
def checkEntry (entry : Option (Entry K)) (request : Request K) : Entry K × Outcome :=
  let entry := currentEntry entry request
  if entry.count ≥ MAX_REQUESTS_PER_WINDOW then
    (entry, .rejected (rejection ⌈entry.windowStart + (WINDOW_SECONDS : K) - request.now⌉))
  else
    ({ entry with count := entry.count + 1 },
      .admitted (MAX_REQUESTS_PER_WINDOW - (entry.count + 1)))

variable (K) in
def limiter : Machine Str (Entry K) (Request K) Outcome K where
  key := countedClient
  time := Request.now
  dead now entry := decide (entry.windowStart < now - (CLEANUP_AGE_SECONDS : K))
  step := checkEntry

theorem cellStep_eq (c : Option (Entry K)) (r : Request K) : (limiter K).cellStep c r =
    (some (checkEntry (c.filter ((limiter K).alive r.now)) r).1,
      some (checkEntry (c.filter ((limiter K).alive r.now)) r).2) := rfl

theorem checkRateLimit_eq_step (cleanup : K → Counters K → Counters K) (counters : Counters K)
    (request : Request K) :
    checkRateLimit cleanup counters request =
      match countedClient request with
      | none => (counters, none)
      | some k =>
        let (e, o) := checkEntry (Dict.get? (cleanup request.now counters) k) request
        (Dict.set (cleanup request.now counters) k e, some o) := by
  unfold checkRateLimit countedClient checkEntry
  dsimp only
  cases COUNTED_PATH_PREFIX.isPrefixOf request.path with
  | false => rfl
  | true =>
    rw [if_pos rfl, if_pos rfl]
    dsimp only
    split <;> rfl

theorem checkRateLimit_cleanupExpired :
    checkRateLimit cleanupExpired = (limiter K).tableStep := by
  funext counters request
  rw [checkRateLimit_eq_step]
  unfold Machine.tableStep limiter
  dsimp only
  cases countedClient request <;> rfl

theorem checkRateLimit_keepAll : checkRateLimit keepAll = (limiter K).plain.tableStep := by
  funext counters request
  rw [checkRateLimit_eq_step]
  unfold Machine.tableStep
  rw [LazyPurge.purge_plain]
  unfold Machine.plain limiter keepAll
  dsimp only
  cases countedClient request <;> rfl

theorem checkEntry_cases (e : Option (Entry K)) (r : Request K) :
    (MAX_REQUESTS_PER_WINDOW ≤ (currentEntry e r).count ∧
      checkEntry e r = (currentEntry e r, .rejected (rejection
        ⌈(currentEntry e r).windowStart + (WINDOW_SECONDS : K) - r.now⌉))) ∨
    ((currentEntry e r).count < MAX_REQUESTS_PER_WINDOW ∧
      checkEntry e r = (⟨(currentEntry e r).count + 1, (currentEntry e r).windowStart⟩,
        .admitted (MAX_REQUESTS_PER_WINDOW - ((currentEntry e r).count + 1)))) := by
  unfold checkEntry
  dsimp only
  split
  · exact .inl ⟨‹_›, rfl⟩
  · exact .inr ⟨Nat.lt_of_not_le ‹_›, rfl⟩

theorem checkEntry_fresh {e : Option (Entry K)} {r : Request K} (h : (currentEntry e r).count = 0) :
    (checkEntry e r).2.isAdmitted = true := by
  rcases checkEntry_cases e r with ⟨hfull, -⟩ | ⟨-, heq⟩
  · rw [h] at hfull
    exact absurd hfull (by decide)
  · rw [heq]
    rfl

end

/-! One client. -/

variable [Field K] [LinearOrder K] [IsStrictOrderedRing K] [FloorRing K]

theorem limiter_mono : (limiter K).Mono := by
  intro t t' e ht hdead
  have hdead : e.windowStart < t - (CLEANUP_AGE_SECONDS : K) := of_decide_eq_true hdead
  exact decide_eq_true (by linarith)

/-- The window of an entry that is dropped is over. -/
theorem over_of_dead {e : Entry K} {r : Request K} (h : (limiter K).dead r.now e = true) :
    e.windowStart + 60 ≤ r.now := by
  have hdead : e.windowStart < r.now - ((CLEANUP_AGE_SECONDS : Nat) : K) := of_decide_eq_true h
  have hseconds : ((CLEANUP_AGE_SECONDS : Nat) : K) = 120 := by norm_num [CLEANUP_AGE_SECONDS]
  rw [hseconds] at hdead
  linarith

/-- A request is counted in the entry there is, or in one of its own whose window starts later. -/
theorem currentEntry_cases {c : Option (Entry K)} {r : Request K} (hlater : r.now ≤ r.later) :
    (∃ e, c = some e ∧ ¬ e.windowStart + 60 ≤ r.now ∧
        currentEntry (c.filter ((limiter K).alive r.now)) r = e) ∨
      (∀ e, c = some e → e.windowStart + 60 ≤ r.now) ∧
        ∃ start, currentEntry (c.filter ((limiter K).alive r.now)) r = ⟨0, start⟩ ∧
          ∀ e, c = some e → e.windowStart < start := by
  cases c with
  | none =>
    refine .inr ⟨nofun, r.later, ?_, nofun⟩
    rw [Option.filter_none, currentEntry_none hlater]
  | some e =>
    rw [Option.filter_some]
    split
    · by_cases hover : e.windowStart + 60 ≤ r.now
      · refine .inr ⟨fun x hx => Option.some.inj hx ▸ hover, r.now, currentEntry_over hover, ?_⟩
        intro x hx
        obtain rfl := Option.some.inj hx
        linarith
      · exact .inl ⟨e, rfl, hover, currentEntry_open hover⟩
    · rename_i hdead
      rw [Machine.alive, Bool.not_eq_true, Bool.not_eq_false'] at hdead
      have hover := over_of_dead hdead
      refine .inr ⟨fun x hx => Option.some.inj hx ▸ hover, r.later, currentEntry_none hlater, ?_⟩
      intro x hx
      obtain rfl := Option.some.inj hx
      linarith

end Eyot.RateLimit
