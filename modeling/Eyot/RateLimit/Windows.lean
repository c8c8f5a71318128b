import Eyot.RateLimit.Limiter
import Mathlib.Algebra.Order.Ring.Rat
import Mathlib.Data.Rat.Floor

/-! The windows of a client, and a client that waits. -/

namespace Eyot.RateLimit

open LazyPurge (Machine trace outputs)

variable {K : Type} [Field K] [LinearOrder K] [IsStrictOrderedRing K] [FloorRing K]

/-! The windows. -/

/-- One request uses at most one more of a window, and none of those that are over. -/
theorem used_cellStep (s : K) {c : Option (Entry K)} {r : Request K} (hb : Bounded c)
    (hlater : r.now ≤ r.later) :
    Bounded ((limiter K).cellStep c r).1 ∧
      used s c + (if admittedAt s ((limiter K).cellStep c r).2 ((limiter K).cellStep c r).1 then 1
        else 0) ≤ used s ((limiter K).cellStep c r).1 := by
  have hentry : Bounded (some (currentEntry (c.filter ((limiter K).alive r.now)) r)) ∧
      used s c ≤ used s (some (currentEntry (c.filter ((limiter K).alive r.now)) r)) := by
    rcases currentEntry_cases (c := c) hlater with
      ⟨e, rfl, -, hcurrent⟩ | ⟨-, start, hcurrent, hbefore⟩
    · rw [hcurrent]
      exact ⟨hb, le_rfl⟩
    · rw [hcurrent]
      refine ⟨fun x hx => Option.some.inj hx ▸ Nat.zero_le _, ?_⟩
      by_cases hs : s < start
      · have hall : used s (some ⟨0, start⟩) = MAX_REQUESTS_PER_WINDOW := if_pos hs
        rw [hall]
        exact used_le s hb
      · cases c with
        | none => exact Nat.zero_le _
        | some e =>
          rw [used_of_lt ((hbefore e rfl).trans_le (not_lt.mp hs))]
          exact Nat.zero_le _
  rw [cellStep_eq]
  rcases checkEntry_cases (c.filter ((limiter K).alive r.now)) r with ⟨-, heq⟩ | ⟨hcount, heq⟩
  · rw [heq]
    exact hentry
  · rw [heq]
    refine ⟨fun x hx => Option.some.inj hx ▸ hcount, ?_⟩
    exact (Nat.add_le_add_right hentry.2 _).trans (used_succ s _ _)

theorem countP_admittedAt (s : K) {c : Option (Entry K)} {rs : List (Request K)} (hb : Bounded c)
    (hlater : ∀ r ∈ rs, r.now ≤ r.later) :
    used s c + (trace (limiter K).cellStep c rs).countP (fun x => admittedAt s x.2.1 x.2.2) ≤
      MAX_REQUESTS_PER_WINDOW := by
  induction rs generalizing c with
  | nil => exact used_le s hb
  | cons r rs ih =>
    rw [List.forall_mem_cons] at hlater
    obtain ⟨hb', hused⟩ := used_cellStep s hb hlater.1
    have hrest := ih hb' hlater.2
    rw [trace, List.countP_cons]
    dsimp only
    omega

/-! A client that waits. -/

/-- The second of two requests in a row is admitted if the first is rejected and its client waits as
long as it is told. -/
def WaitsWell (x y : Request K × Option Outcome) : Prop :=
  ∀ response, x.2 = some (.rejected response) → x.1.now + response.retryAfter ≤ y.1.now →
    y.2.any Outcome.isAdmitted = true

theorem waitsWell_cellStep {c : Option (Entry K)} {r r' : Request K} (hlater : r'.now ≤ r'.later) :
    WaitsWell (r, ((limiter K).cellStep c r).2)
      (r', ((limiter K).cellStep ((limiter K).cellStep c r).1 r').2) := by
  intro response hout hwait
  rw [cellStep_eq c r] at hout
  have hout := Option.some.inj hout
  rw [cellStep_eq _ r']
  change (checkEntry _ r').2.isAdmitted = true
  rcases checkEntry_cases (c.filter ((limiter K).alive r.now)) r with ⟨-, heq⟩ | ⟨-, heq⟩
  · have hcell : ((limiter K).cellStep c r).1 =
        some (currentEntry (c.filter ((limiter K).alive r.now)) r) := by
      rw [cellStep_eq, heq]
    have hresponse := Outcome.rejected.inj ((congrArg Prod.snd heq).symm.trans hout)
    have hseconds : ((WINDOW_SECONDS : Nat) : K) = 60 := by norm_num [WINDOW_SECONDS]
    have hceil := Int.le_ceil ((currentEntry (c.filter ((limiter K).alive r.now)) r).windowStart +
      ((WINDOW_SECONDS : Nat) : K) - r.now)
    have hafter : response.retryAfter =
        ⌈(currentEntry (c.filter ((limiter K).alive r.now)) r).windowStart +
          ((WINDOW_SECONDS : Nat) : K) - r.now⌉ := hresponse ▸ rfl
    rw [hafter] at hwait
    rw [hseconds] at hceil hwait
    rcases currentEntry_cases (c := ((limiter K).cellStep c r).1) hlater with
      ⟨e, he, hopen, -⟩ | ⟨-, start, hcurrent, -⟩
    · rw [hcell] at he
      obtain rfl := Option.some.inj he
      exact absurd (by linarith) hopen
    · exact checkEntry_fresh (congrArg Entry.count hcurrent)
  · have hadmitted := (congrArg Prod.snd heq).symm.trans hout
    cases hadmitted

theorem isChain_waitsWell {c : Option (Entry K)} {rs : List (Request K)}
    (hlater : ∀ r ∈ rs, r.now ≤ r.later) :
    (outputs (limiter K).cellStep c rs).IsChain WaitsWell := by
  induction rs generalizing c with
  | nil => exact .nil
  | cons r rs ih =>
    rw [List.forall_mem_cons] at hlater
    cases rs with
    | nil => exact .singleton _
    | cons r' rs =>
      exact .cons_cons (waitsWell_cellStep (hlater.2 r' List.mem_cons_self)) (ih hlater.2)

/-! All clients. -/

variable {requests : List (Request K)}

/-- How many requests of a client are admitted in the window of its that starts at `s`. -/
def admittedIn (client : Str) (s : K) (requests : List (Request K)) : Nat :=
  (trace (checkRateLimit cleanupExpired) [] requests).countP fun x =>
    countedClient x.1 = some client && admittedAt s x.2.1 (Dict.get? x.2.2 client)

/-- An entry that the limiter without cleanup still has, but the other one has dropped, is replaced
at a moment when the clock stands still. -/
def Steady (requests : List (Request K)) : Prop :=
  Run.Meets (fun counters r => (checkRateLimit keepAll counters r).1)
    (fun counters r => ∀ client e, countedClient r = some client →
      Dict.get? counters client = some e → e.windowStart < r.now - (CLEANUP_AGE_SECONDS : K) →
        r.later = r.now) [] requests

theorem unseen_of_steady {counters : Counters K} {r : Request K} (hlater : r.now ≤ r.later)
    (h : ∀ client e, countedClient r = some client → Dict.get? counters client = some e →
      e.windowStart < r.now - (CLEANUP_AGE_SECONDS : K) → r.later = r.now) :
    LazyPurge.Unseen (limiter K) counters r := by
  intro client e hclient he hdead
  have heq : r.later = r.now := h client e hclient he (of_decide_eq_true hdead)
  have hcurrent : currentEntry none r = currentEntry (some e) r := by
    rw [currentEntry_none hlater, currentEntry_over (over_of_dead hdead), heq]
  change checkEntry none r = checkEntry (some e) r
  unfold checkEntry
  rw [hcurrent]

theorem meets_unseen {counters : Counters K} (hlater : ∀ r ∈ requests, r.now ≤ r.later)
    (h : Run.Meets (fun counters r => (checkRateLimit keepAll counters r).1)
      (fun counters r => ∀ client e, countedClient r = some client →
        Dict.get? counters client = some e → e.windowStart < r.now - (CLEANUP_AGE_SECONDS : K) →
          r.later = r.now) counters requests) :
    Run.Meets (fun counters r => (checkRateLimit keepAll counters r).1)
      (LazyPurge.Unseen (limiter K)) counters requests := by
  induction requests generalizing counters with
  | nil => exact trivial
  | cons r rs ih =>
    rw [List.forall_mem_cons] at hlater
    exact ⟨unseen_of_steady hlater.1 h.1, ih hlater.2 h.2⟩

/-- Each client has its own windows, none of them over full, and one that waits as it is told is
admitted; and cleaning up shows only if the clock moves while an entry is replaced. -/
theorem limiter_correct (hclock : Clock requests) :
    (∀ client, (decisions cleanupExpired requests).filter (fun x => countedClient x.1 = some client) =
        decisions cleanupExpired (requests.filter fun r => countedClient r = some client)) ∧
      (∀ client s, admittedIn client s requests ≤ MAX_REQUESTS_PER_WINDOW) ∧
      (∀ client, ((decisions cleanupExpired requests).filter fun x =>
        countedClient x.1 = some client).IsChain WaitsWell) ∧
      (Steady requests → decisions cleanupExpired requests = decisions keepAll requests) := by
  have hlater (client : Str) : ∀ r ∈ requests.filter fun r => countedClient r = some client,
      r.now ≤ r.later := fun r hr => hclock.later r (List.mem_filter.mp hr).1
  unfold decisions admittedIn
  rw [checkRateLimit_cleanupExpired]
  refine ⟨fun client => ?_, fun client s => ?_, fun client => ?_, fun hsteady => ?_⟩
  · exact LazyPurge.outputs_filter limiter_mono Dict.distinct_nil hclock.times client
  · have hcell : ((trace (limiter K).tableStep [] requests).filter
        fun x => countedClient x.1 = some client).map
          (fun x => (x.1, x.2.1, Dict.get? x.2.2 client)) =
        trace (limiter K).cellStep none (requests.filter fun r => countedClient r = some client) :=
      LazyPurge.trace_cell_self limiter_mono Dict.distinct_nil hclock.times client
    have hbounded : Bounded (none : Option (Entry K)) := nofun
    have hcount := (Nat.le_add_left _ _).trans (countP_admittedAt s hbounded (hlater client))
    rw [← hcell, List.countP_map, List.countP_filter] at hcount
    refine le_trans (List.countP_mono_left fun x _ hx => ?_) hcount
    rw [Bool.and_comm] at hx
    exact hx
  · have hcell := LazyPurge.outputs_cell limiter_mono Dict.distinct_nil hclock.times client
    exact hcell ▸ isChain_waitsWell (hlater client)
  · have hunseen := meets_unseen hclock.later hsteady
    rw [checkRateLimit_keepAll] at hunseen ⊢
    exact LazyPurge.outputs_plain_self limiter_mono Dict.distinct_nil hclock.times hunseen

/-! One client over a clock of rational seconds. -/

def poll (now later : ℚ) : Request ℚ where
  path := "/api/v1/status".toList
  client := some "10.0.0.1".toList
  now := now
  later := later

@[simp] theorem poll_now (now later : ℚ) : (poll now later).now = now := rfl

@[simp] theorem poll_later (now later : ℚ) : (poll now later).later = later := rfl

theorem clock_polls : Clock [poll 0 0, poll 3 3, poll 200 200] := by
  refine ⟨?_, ?_⟩
  · simp
  · norm_num

theorem limiter_correct_polls : Clock [poll 0 0, poll 3 3, poll 200 200] ∧
    admittedIn "10.0.0.1".toList 0 [poll 0 0, poll 3 3, poll 200 200] ≤ MAX_REQUESTS_PER_WINDOW :=
  ⟨clock_polls, (limiter_correct clock_polls).2.1 "10.0.0.1".toList 0⟩

/-- The clock moves while the entry of a client is replaced, which then uses up its window. -/
def replaced : List (Request ℚ) :=
  poll 0 0 :: poll 200 201 :: (List.replicate 599 (poll 202 202) ++ [poll 260 260])

theorem clock_replaced : Clock replaced := by
  refine ⟨?_, ?_⟩
  · intro r hr
    simp only [replaced, List.mem_cons, List.mem_append, List.mem_replicate, List.not_mem_nil,
      or_false] at hr
    obtain rfl | rfl | ⟨-, rfl⟩ | rfl := hr
    all_goals norm_num
  · simp only [replaced, List.pairwise_cons, List.pairwise_append, List.pairwise_replicate,
      List.mem_cons, List.mem_append, List.mem_replicate, List.not_mem_nil, or_false]
    norm_num

def lastAdmitted (cleanup : ℚ → Counters ℚ → Counters ℚ) (requests : List (Request ℚ)) :
    Option Bool :=
  ((decisions cleanup requests).getLast?.bind Prod.snd).map Outcome.isAdmitted

set_option maxRecDepth 20000 in
/-- With cleanup the window starts a second later, so that the last request is still in it. -/
theorem cleanup_shows : Clock replaced ∧
    decisions cleanupExpired replaced ≠ decisions keepAll replaced := by
  refine ⟨clock_replaced, fun heq => ?_⟩
  have hlast : lastAdmitted cleanupExpired replaced = some false ∧
      lastAdmitted keepAll replaced = some true := by decide +kernel
  rw [lastAdmitted, heq] at hlast
  exact absurd (hlast.1.symm.trans hlast.2) (by decide)

end Eyot.RateLimit
