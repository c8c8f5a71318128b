import Eyot.Host.Js
import Eyot.Library.Pattern
import Mathlib.Data.List.Infix

/-! The steps of a subagent call that run one after the other, each on what the one before it has
said, and what is shown of what a subagent has said. -/

namespace Eyot.Subagents

open Scan (Pattern)

inductive Part where
  | text (s : Units)
  | toolCall (name : Units)
  | other (type : Units)
  deriving DecidableEq

structure Message where
  role : Units
  content : List Part
  deriving DecidableEq

structure SingleResult where
  agent : Units
  task : Units
  exitCode : Int
  messages : List Message
  stderr : Units
  stopReason : Option Units
  errorMessage : Option Units
  step : Option Nat
  deriving DecidableEq

def Part.text? : Part → Option Units
  | .text s => some s
  | .toolCall _ | .other _ => none

def getFinalOutput (messages : List Message) : Units :=
  (messages.reverse.findSome? fun msg =>
    if msg.role = units "assistant" then msg.content.findSome? Part.text? else none).getD []

def isFailedResult (result : SingleResult) : Bool :=
  result.exitCode ≠ 0 || result.stopReason = some (units "error") ||
    result.stopReason = some (units "aborted")

/-- `a || b` on texts. -/
def orElse (a b : Units) : Units := if a = [] then b else a

def noOutput : Units := units "(no output)"

def getResultOutput (result : SingleResult) : Units :=
  if isFailedResult result then
    orElse (result.errorMessage.getD []) <| orElse result.stderr <|
      orElse (getFinalOutput result.messages) noOutput
  else orElse (getFinalOutput result.messages) noOutput

/-! `{previous}` in the task of a step. -/

def dollar : UInt16 := 36

/-- What `replace` makes of the text that it is given for a match. -/
def getSubstitution (before matched after : Units) : Units → Units
  | [] => []
  | [u] => [u]
  | u :: v :: rest =>
    if u = dollar then
      if v = dollar then dollar :: getSubstitution before matched after rest
      else if v = 38 then matched ++ getSubstitution before matched after rest
      else if v = 96 then before ++ getSubstitution before matched after rest
      else if v = 39 then after ++ getSubstitution before matched after rest
      else u :: getSubstitution before matched after (v :: rest)
    else u :: getSubstitution before matched after (v :: rest)

def previous : Units := units "\x7bprevious\x7d"

theorem previous_takes {l : Units} {g : Unit} {n : Nat}
    (h : (if previous.isPrefixOf l then some ((), previous.length) else none) = some (g, n)) :
    0 < n ∧ n ≤ l.length := by
  split at h
  · next hp =>
    obtain rfl := (Prod.mk.inj (Option.some.inj h)).2
    exact ⟨by decide, (List.isPrefixOf_iff_prefix.mp hp).length_le⟩
  · cases h

/-- `/\{previous\}/g` -/
def PREVIOUS : Pattern UInt16 Unit where
  atHead l := if previous.isPrefixOf l then some ((), previous.length) else none
  takes h := previous_takes h

/-- `template.replace(/\{previous\}/g, previousOutput)` -/
def withContext (template previousOutput : Units) : Units :=
  PREVIOUS.replace (fun m => getSubstitution m.before m.text m.after previousOutput) template

/-- The previous output itself, in every place it is asked for. -/
def withContextLiterally (template previousOutput : Units) : Units :=
  PREVIOUS.replace (fun _ => previousOutput) template

/-- How often a text asks for more than itself. -/
def patterns : Units → Nat
  | [] => 0
  | [_] => 0
  | u :: v :: rest =>
    if u = dollar then
      if v = dollar ∨ v = 38 ∨ v = 96 ∨ v = 39 then patterns rest + 1 else patterns (v :: rest)
    else patterns (v :: rest)

theorem getSubstitution_of_patterns {before matched after out : Units} (h : patterns out = 0) :
    getSubstitution before matched after out = out := by
  fun_induction getSubstitution before matched after out with
  | case1 => rfl
  | case2 u => rfl
  | case3 rest _ | case4 rest _ _ | case5 rest _ _ _ | case6 rest _ _ _ _ =>
    simp [patterns] at h
  | case7 v rest h₁ h₂ h₃ h₄ ih =>
    rw [ih]
    simpa [patterns, h₁, h₂, h₃, h₄] using h
  | case8 u v rest hu ih =>
    rw [ih]
    simpa [patterns, hu] using h

/-- An opening brace. -/
def brace : UInt16 := 123

theorem count_previous : previous.count brace = 1 := by decide +kernel

theorem length_previous : previous.length = 10 := by decide +kernel

/-- In the place of a whole task every pattern either brings a brace with it, or makes the text
shorter. -/
theorem weight_getSubstitution (out : Units) :
    10 * out.count brace + (getSubstitution [] previous [] out).length + patterns out ≤
      10 * (getSubstitution [] previous [] out).count brace + out.length := by
  have hdollar : (dollar == brace) = false := by decide
  have hamp : ((38 : UInt16) == brace) = false := by decide
  have hback : ((96 : UInt16) == brace) = false := by decide
  have hquote : ((39 : UInt16) == brace) = false := by decide
  fun_induction getSubstitution [] previous [] out with
  | case1 => exact Nat.le_refl _
  | case2 u => simp [patterns]
  | case3 rest ih =>
    simp [patterns, List.count_cons, hdollar]
    omega
  | case4 rest h₁ ih =>
    simp [patterns, List.count_cons, hdollar, hamp, count_previous, length_previous]
    omega
  | case5 rest h₁ h₂ ih =>
    simp [patterns, List.count_cons, hdollar, hback]
    omega
  | case6 rest h₁ h₂ h₃ ih =>
    simp [patterns, List.count_cons, hdollar, hquote]
    omega
  | case7 v rest h₁ h₂ h₃ h₄ ih =>
    have hne : dollar ≠ brace := by decide
    rw [patterns, if_pos rfl, if_neg (by simp [h₁, h₂, h₃, h₄]), List.count_cons_of_ne hne,
      List.count_cons_of_ne hne]
    simp only [List.length_cons] at ih ⊢
    omega
  | case8 u v rest hu ih =>
    rw [patterns, if_neg hu, List.count_cons, List.count_cons (b := u)]
    simp only [List.length_cons] at ih ⊢
    omega

theorem atHead_previous : PREVIOUS.atHead previous = some ((), previous.length) := by
  have hself : previous.isPrefixOf previous = true :=
    List.isPrefixOf_iff_prefix.mpr (List.prefix_refl previous)
  change (if previous.isPrefixOf previous then some ((), previous.length) else none) = _
  rw [if_pos hself]

theorem withContext_previous (out : Units) :
    withContext previous out = getSubstitution [] previous [] out :=
  Pattern.replace_of_whole _ atHead_previous

theorem withContextLiterally_previous (out : Units) : withContextLiterally previous out = out :=
  Pattern.replace_of_whole _ atHead_previous

/-- A previous output is put in as it is, in any task, exactly if it asks for nothing else. -/
theorem withContext_eq_iff (out : Units) :
    (∀ template, withContext template out = withContextLiterally template out) ↔
      patterns out = 0 := by
  constructor
  · intro h
    have heq : getSubstitution [] previous [] out = out := by
      rw [← withContext_previous, h, withContextLiterally_previous]
    have hweight := weight_getSubstitution out
    rw [heq] at hweight
    omega
  · intro h template
    exact Pattern.replace_congr fun m _ => getSubstitution_of_patterns h

/-! The chain. -/

structure ChainItem where
  agent : Units
  task : Units
  cwd : Option Units

/-- How a chain ends; `step` is the number of the step that has failed. -/
inductive ChainEnd where
  | stopped (step : Nat) (agent text : Units) (results : List SingleResult)
  | finished (text : Units) (results : List SingleResult)

variable {ε : Type} (fill : Units → Units → Units)
  (runSingleAgent : ChainItem → Units → Nat → Except ε SingleResult)

def runChain (i : Nat) (results : List SingleResult) (previousOutput : Units) :
    List ChainItem → Except ε ChainEnd
  | [] =>
    let last := (results.getLast?.map SingleResult.messages).getD []
    .ok (.finished (orElse (getFinalOutput last) noOutput) results)
  | step :: steps => do
    let result ← runSingleAgent step (fill step.task previousOutput) (i + 1)
    if isFailedResult result then
      .ok (.stopped (i + 1) step.agent (getResultOutput result) (results ++ [result]))
    else runChain (i + 1) (results ++ [result]) (getFinalOutput result.messages) steps

/-- A chain, with `previousOutput` put into the tasks by `fill`. -/
def chain (steps : List ChainItem) : Except ε ChainEnd := runChain fill runSingleAgent 0 [] [] steps

theorem runChain_congr {fill' : Units → Units → Units}
    (hrun : ∀ step task i result, runSingleAgent step task i = .ok result →
      isFailedResult result = false → ∀ template,
        fill template (getFinalOutput result.messages) =
          fill' template (getFinalOutput result.messages))
    (i : Nat) (results : List SingleResult) {previousOutput : Units}
    (h : ∀ template, fill template previousOutput = fill' template previousOutput)
    (steps : List ChainItem) :
    runChain fill runSingleAgent i results previousOutput steps =
      runChain fill' runSingleAgent i results previousOutput steps := by
  induction steps generalizing i results previousOutput with
  | nil => rfl
  | cons step steps ih =>
    rw [runChain, runChain, h]
    cases hresult : runSingleAgent step (fill' step.task previousOutput) (i + 1) with
    | error e => rfl
    | ok result =>
      simp only [bind, Except.bind]
      split
      · rfl
      · next hfailed =>
        exact ih _ _ (hrun _ _ _ _ hresult (Bool.eq_false_of_not_eq_true hfailed))

/-- The result of an agent that has said one thing. -/
def saying (out task : Units) : SingleResult where
  agent := []
  task := task
  exitCode := 0
  messages := [⟨units "assistant", [.text out]⟩]
  stderr := []
  stopReason := none
  errorMessage := none
  step := none

theorem isFailedResult_saying (out task : Units) : isFailedResult (saying out task) = false := rfl

theorem getFinalOutput_saying (out task : Units) :
    getFinalOutput (saying out task).messages = out := by
  simp [getFinalOutput, saying, Part.text?]

/-- Whatever the agents may say: all chains hand it on as it is exactly if none of it asks for
anything else. -/
theorem chain_literal_iff (said : Units → Prop) :
    (∀ (ε : Type) (runSingleAgent : ChainItem → Units → Nat → Except ε SingleResult)
      (steps : List ChainItem),
      (∀ step task i result, runSingleAgent step task i = .ok result →
        isFailedResult result = false → said (getFinalOutput result.messages)) →
      chain withContext runSingleAgent steps = chain withContextLiterally runSingleAgent steps) ↔
    ∀ out, said out → patterns out = 0 := by
  constructor
  · intro h out hsaid
    rw [← withContext_eq_iff]
    intro template
    have hchain := h Empty (fun _ task _ => .ok (saying out task))
      [⟨[], [], none⟩, ⟨[], template, none⟩]
      (by
        intro step task i result hresult _
        obtain rfl := Except.ok.inj hresult
        rw [getFinalOutput_saying]
        exact hsaid)
    simp only [chain, runChain, bind, Except.bind, isFailedResult_saying, Bool.false_eq_true,
      if_false, getFinalOutput_saying] at hchain
    obtain ⟨-, hresults⟩ := ChainEnd.finished.inj (Except.ok.inj hchain)
    have hlast := congrArg List.getLast? hresults
    simp only [List.nil_append, List.cons_append, List.getLast?_cons_cons, List.getLast?_singleton,
      Option.some.injEq] at hlast
    exact congrArg SingleResult.task hlast
  · intro h ε runSingleAgent steps hsaid
    have hnil : patterns [] = 0 := rfl
    apply runChain_congr
    · intro step task i result hresult hfailed
      exact (withContext_eq_iff _).mpr (h _ (hsaid step task i result hresult hfailed))
    · exact (withContext_eq_iff []).mpr hnil

/-! What is shown of a long output. -/

open Host (isHighSurrogate isLowSurrogate)

def PER_TASK_OUTPUT_CAP : Nat := 50 * 1024

def unitBytes (u : UInt16) : Nat := if u < 0x80 then 1 else if u < 0x800 then 2 else 3

/-- `Buffer.byteLength(text, "utf8")`; half of a surrogate pair becomes a replacement character. -/
def byteLength : Units → Nat
  | [] => 0
  | [u] => unitBytes u
  | u :: v :: rest =>
    if isHighSurrogate u && isLowSurrogate v then 4 + byteLength rest
    else unitBytes u + byteLength (v :: rest)

/-- `while (byteLength(t) > cap) t = t.slice(0, -1)` -/
def shrink (cap : Nat) : Nat → Units → Units
  | 0, t => t
  | fuel + 1, t => if cap < byteLength t then shrink cap fuel t.dropLast else t

def omittedNotice (omitted : Nat) : Units :=
  units "\n\n[Output truncated: " ++ units (toString omitted) ++
    units " bytes omitted. Full output preserved in tool details.]"

def truncateParallelOutput (output : Units) : Units :=
  if byteLength output ≤ PER_TASK_OUTPUT_CAP then output
  else
    let head := output.take PER_TASK_OUTPUT_CAP
    let truncated := shrink PER_TASK_OUTPUT_CAP head.length head
    truncated ++ omittedNotice (byteLength output - byteLength truncated)

theorem unitBytes_bounds (u : UInt16) : 1 ≤ unitBytes u ∧ unitBytes u ≤ 3 := by
  rw [unitBytes]
  split
  · decide
  · split <;> decide

theorem unitBytes_of_high {u : UInt16} (h : isHighSurrogate u = true) : unitBytes u = 3 := by
  have hhigh : 0xD800 ≤ u.toNat := by
    rw [isHighSurrogate, Bool.and_eq_true, decide_eq_true_eq] at h
    exact h.1
  rw [unitBytes, if_neg, if_neg]
  · intro hlt
    have hlt : u.toNat < 0x800 := hlt
    omega
  · intro hlt
    have hlt : u.toNat < 0x80 := hlt
    omega

/-- One more unit makes one to three more bytes. -/
theorem byteLength_concat (l : Units) (u : UInt16) :
    byteLength l + 1 ≤ byteLength (l ++ [u]) ∧ byteLength (l ++ [u]) ≤ byteLength l + 3 := by
  fun_induction byteLength l with
  | case1 =>
    have := unitBytes_bounds u
    rw [List.nil_append, byteLength]
    omega
  | case2 v =>
    have hu := unitBytes_bounds u
    have hv := unitBytes_bounds v
    rw [List.singleton_append, byteLength]
    split
    · next h =>
      have := unitBytes_of_high (Bool.and_eq_true_iff.mp h).1
      rw [byteLength]
      omega
    · rw [byteLength]
      omega
  | case3 v w rest h ih =>
    rw [List.cons_append, List.cons_append, byteLength, if_pos h]
    omega
  | case4 v w rest h ih =>
    rw [List.cons_append, List.cons_append, byteLength, if_neg h, ← List.cons_append]
    omega

theorem byteLength_take_lt (l : Units) {j k : Nat} (hjk : j < k) (hk : k ≤ l.length) :
    byteLength (l.take j) < byteLength (l.take k) := by
  induction k with
  | zero => cases hjk
  | succ k ih =>
    have hlt := hk
    have hconcat := byteLength_concat (l.take k) (l.get ⟨k, hlt⟩)
    have htake : l.take k ++ [l.get ⟨k, hlt⟩] = l.take (k + 1) := List.take_concat_get' l k hlt
    rw [htake] at hconcat
    obtain hj | rfl := Nat.lt_or_eq_of_le (Nat.le_of_lt_succ hjk)
    · have := ih hj (Nat.le_of_succ_le hk)
      omega
    · omega

/-- As many units as fit. -/
structure Longest (cap : Nat) (t : Units) (k : Nat) : Prop where
  within : k ≤ t.length
  fits : byteLength (t.take k) ≤ cap
  last : ∀ j, k < j → j ≤ t.length → cap < byteLength (t.take j)

theorem shrink_spec (cap fuel : Nat) {t : Units} (h : t.length ≤ fuel) :
    ∃ k, shrink cap fuel t = t.take k ∧ Longest cap t k := by
  induction fuel generalizing t with
  | zero =>
    obtain rfl := List.length_eq_zero_iff.mp (Nat.le_zero.mp h)
    exact ⟨0, rfl, Nat.le_refl 0, Nat.zero_le cap, fun j hj hlen => absurd hlen (Nat.not_le.mpr hj)⟩
  | succ fuel ih =>
    rw [shrink]
    split
    · next hlong =>
      have hlen : t.dropLast.length = t.length - 1 := List.length_dropLast
      obtain ⟨k, hk, hwithin, hfits, hlast⟩ := ih (t := t.dropLast) (by omega)
      have htake : ∀ j ≤ t.length - 1, t.dropLast.take j = t.take j := by
        intro j hj
        rw [List.dropLast_eq_take, List.take_take, Nat.min_eq_left hj]
      rw [htake k (hlen ▸ hwithin)] at hk hfits
      refine ⟨k, hk, by omega, hfits, fun j hkj hj => ?_⟩
      obtain hlt | rfl := Nat.lt_or_eq_of_le hj
      · have := hlast j hkj (by omega)
        rwa [htake j (by omega)] at this
      · rwa [List.take_length]
    · next hfits =>
      rw [Nat.not_lt] at hfits
      refine ⟨t.length, List.take_length.symm, Nat.le_refl _, ?_, fun j hlt hle => ?_⟩
      · rwa [List.take_length]
      · exact absurd hle (Nat.not_le.mpr hlt)

theorem length_le_byteLength (l : Units) : l.length ≤ byteLength l := by
  fun_induction byteLength l with
  | case1 => exact Nat.le_refl 0
  | case2 u => exact (unitBytes_bounds u).1
  | case3 u v rest _ ih =>
    rw [List.length_cons, List.length_cons]
    omega
  | case4 u v rest _ ih =>
    have := unitBytes_bounds u
    rw [List.length_cons]
    omega

/-- What fits of the head that is cut off first is what fits of the whole. -/
theorem Longest.of_take {cap : Nat} {t : Units} {k : Nat} (h : Longest cap (t.take cap) k) :
    Longest cap t k := by
  have hlen := List.length_take (i := cap) (l := t)
  have hk : k ≤ cap := by
    have := h.within
    omega
  have htake : ∀ j ≤ cap, (t.take cap).take j = t.take j := by
    intro j hj
    rw [List.take_take, Nat.min_eq_left hj]
  refine ⟨?_, ?_, fun j hkj hj => ?_⟩
  · have := h.within
    omega
  · rw [← htake k hk]
    exact h.fits
  · obtain hjc | hjc := Nat.lt_or_ge cap j
    · have hbytes := length_le_byteLength (t.take j)
      rw [List.length_take] at hbytes
      omega
    · rw [← htake j hjc]
      exact h.last j hkj (by omega)

/-- An output that fits is shown whole. Of any other the longest start that fits is shown, which
leaves at most two bytes of the room, and the number of bytes that are missing. -/
theorem truncateParallelOutput_spec (output : Units) :
    (byteLength output ≤ PER_TASK_OUTPUT_CAP → truncateParallelOutput output = output) ∧
    (PER_TASK_OUTPUT_CAP < byteLength output → ∃ kept, kept <+: output ∧
      truncateParallelOutput output =
        kept ++ omittedNotice (byteLength output - byteLength kept) ∧
      byteLength kept ≤ PER_TASK_OUTPUT_CAP ∧ PER_TASK_OUTPUT_CAP ≤ byteLength kept + 2 ∧
      ∀ longer, longer <+: output → kept.length < longer.length →
        PER_TASK_OUTPUT_CAP < byteLength longer) := by
  refine ⟨fun h => if_pos h, fun h => ?_⟩
  obtain ⟨k, hshrink, hlongest⟩ := shrink_spec PER_TASK_OUTPUT_CAP _
    (Nat.le_refl (output.take PER_TASK_OUTPUT_CAP).length)
  have hlongest' := hlongest.of_take
  have hkept : (output.take PER_TASK_OUTPUT_CAP).take k = output.take k := by
    have hwithin := hlongest.within
    rw [List.length_take] at hwithin
    rw [List.take_take, Nat.min_eq_left (by omega)]
  have hlt : k < output.length := by
    refine Nat.lt_of_le_of_ne hlongest'.within fun heq => ?_
    have hfits := hlongest'.fits
    rw [heq, List.take_length] at hfits
    omega
  refine ⟨output.take k, List.take_prefix k output, ?_, hlongest'.fits, ?_,
    fun longer hp hlen => ?_⟩
  · rw [truncateParallelOutput, if_neg (Nat.not_le.mpr h)]
    dsimp only
    rw [hshrink, hkept]
  · have hnext := hlongest'.last (k + 1) (Nat.lt_succ_self k) hlt
    have hconcat := (byteLength_concat (output.take k) (output.get ⟨k, hlt⟩)).2
    have htake : output.take k ++ [output.get ⟨k, hlt⟩] = output.take (k + 1) :=
      List.take_concat_get' output k hlt
    rw [htake] at hconcat
    omega
  · rw [List.prefix_iff_eq_take.mp hp]
    rw [List.length_take, Nat.min_eq_left (Nat.le_of_lt hlt)] at hlen
    exact hlongest'.last _ hlen hp.length_le

end Eyot.Subagents
