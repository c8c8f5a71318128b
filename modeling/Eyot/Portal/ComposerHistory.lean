import Eyot.Data.JsonDumps
import Eyot.Library.Dict
import Eyot.Library.Run

/-! The commands that were sent from the composer of a workspace: kept in the storage of the
browser, and recalled with the arrow keys. -/

namespace Eyot.Portal

open Host (Value stringify stringifyAll quoteUnit quoteUnits hexDigit hexEscape isHighSurrogate
  isLowSurrogate)
open JsonParse (parse readValue readItems readString skipSpace unit escapes)
open JsonDumps (spells_nil spells_plain spells_escape skipSpace_cons readItems_bracket
  readValue_array)

/-! `JSON.stringify` and `JSON.parse`. -/

theorem hexValue?_hexDigit : ∀ n : Fin 16,
    JsonParse.hexValue? (hexDigit n.val.toUInt16) = some n.val.toUInt16 := by decide

theorem hexValue?_of_lt {n : UInt16} (h : n < 16) :
    JsonParse.hexValue? (hexDigit n) = some n := by
  have hlt : n.toNat < 16 := UInt16.lt_iff_toNat_lt.mp h
  have := hexValue?_hexDigit ⟨n.toNat, hlt⟩
  rwa [show n.toNat.toUInt16 = n from UInt16.ofNat_toNat] at this

theorem toNat_digit (u : UInt16) : (u &&& 15).toNat = u.toNat % 16 := by
  rw [UInt16.toNat_and]
  exact Nat.and_two_pow_sub_one_eq_mod u.toNat 4

theorem digit_lt (u : UInt16) : u &&& 15 < 16 := by
  rw [UInt16.lt_iff_toNat_lt, toNat_digit]
  exact Nat.mod_lt _ (by decide)

theorem toNat_shift (u : UInt16) {k : UInt16} (hk : k < 16) :
    (u >>> k).toNat = u.toNat / 2 ^ k.toNat := by
  have hk' : k.toNat < 16 := UInt16.lt_iff_toNat_lt.mp hk
  rw [UInt16.toNat_shiftRight, Nat.mod_eq_of_lt hk', Nat.shiftRight_eq_div_pow]

theorem hex_value (u : UInt16) {a b c d : UInt16} (ha : a.toNat = u.toNat / 4096)
    (hb : b.toNat = u.toNat / 256 % 16) (hc : c.toNat = u.toNat / 16 % 16)
    (hd : d.toNat = u.toNat % 16) : (a * 16 + b) * 256 + c * 16 + d = u := by
  have := u.toNat_lt
  apply UInt16.toNat_inj.mp
  simp only [UInt16.toNat_add, UInt16.toNat_mul, ha, hb, hc, hd, UInt16.reduceToNat]
  omega

theorem spells_hexEscape (u : UInt16) : JsonDumps.Spells (hexEscape u) [u] := by
  intro l
  have hquote : unit '\\' ≠ unit '"' := by decide
  have hlt := u.toNat_lt
  have htop : (u >>> 12).toNat = u.toNat / 4096 := toNat_shift u (by decide)
  have hhigh : (u >>> 8).toNat = u.toNat / 256 := toNat_shift u (by decide)
  have hlow : (u >>> 4).toNat = u.toNat / 16 := toNat_shift u (by decide)
  have hvalue := hex_value u htop ((toNat_digit _).trans (congrArg (· % 16) hhigh))
    ((toNat_digit _).trans (congrArg (· % 16) hlow)) (toNat_digit u)
  have h₃ : u >>> 12 < 16 := by
    rw [UInt16.lt_iff_toNat_lt, htop]
    exact Nat.div_lt_of_lt_mul hlt
  have h₂ : u >>> 8 &&& 15 < 16 := digit_lt _
  have h₁ : u >>> 4 &&& 15 < 16 := digit_lt _
  have h₀ : u &&& 15 < 16 := digit_lt u
  change readString (unit '\\' :: unit 'u' :: hexDigit _ :: hexDigit _ :: hexDigit _ ::
    hexDigit _ :: l) = _
  rw [JsonParse.readString.eq_def]
  simp only [if_neg hquote, if_true, hexValue?_of_lt h₃, hexValue?_of_lt h₂, hexValue?_of_lt h₁,
    hexValue?_of_lt h₀, Option.bind_eq_bind, Option.bind_some, hvalue, List.singleton_append]

/-- A unit that is no half of a pair, or that is written as it is. -/
theorem spells_quoteUnit (u : UInt16) : JsonDumps.Spells (quoteUnit u) [u] := by
  rw [quoteUnit]
  split_ifs with h8 h9 h10 h12 h13 h34 h92 hescape
  · rw [h8]; exact spells_escape (by decide) (by decide)
  · rw [h9]; exact spells_escape (by decide) (by decide)
  · rw [h10]; exact spells_escape (by decide) (by decide)
  · rw [h12]; exact spells_escape (by decide) (by decide)
  · rw [h13]; exact spells_escape (by decide) (by decide)
  · rw [h34]; exact spells_escape (by decide) (by decide)
  · rw [h92]; exact spells_escape (by decide) (by decide)
  · exact spells_hexEscape u
  · simp only [Bool.or_eq_true, decide_eq_true_eq, not_or] at hescape
    exact spells_plain h34 h92 hescape.1.1

theorem spells_surrogate {u : UInt16} (h : 0xD800 ≤ u) : JsonDumps.Spells [u] [u] := by
  simp only [UInt16.le_iff_toNat_le, UInt16.reduceToNat] at h
  have hne : ∀ v : UInt16, v.toNat < 128 → u ≠ v := by
    rintro v hv rfl
    omega
  refine spells_plain (hne _ (by decide)) (hne _ (by decide)) ?_
  rw [UInt16.lt_iff_toNat_lt]
  exact fun hlt => absurd (hlt.trans (by decide : (unit ' ').toNat < 128)) (by omega)

theorem spells_quoteUnits (s : Units) : JsonDumps.Spells (quoteUnits s) s := by
  induction s using Host.quoteUnits.induct with
  | case1 => exact spells_nil
  | case2 u => exact spells_quoteUnit u
  | case3 u v rest hpair ih =>
    rw [quoteUnits, if_pos hpair]
    simp only [isHighSurrogate, isLowSurrogate, Bool.and_eq_true, decide_eq_true_eq] at hpair
    have hlow : (0xD800 : UInt16) ≤ v := UInt16.le_trans (by decide) hpair.2.1
    exact ((spells_surrogate hpair.1.1).append (spells_surrogate hlow)).append ih
  | case4 u v rest hpair ih =>
    rw [quoteUnits, if_neg hpair]
    exact (spells_quoteUnit u).append ih

theorem readString_quoteUnits (s rest : Units) :
    readString (quoteUnits s ++ unit '"' :: rest) = some (s, rest) := by
  rw [spells_quoteUnits, JsonParse.readString.eq_def]
  simp

section Strings

variable (number : Units → Units)

theorem readValue_quote (s rest : Units) (n : Nat) :
    readValue number (n + 1) (Host.quote s ++ rest) = some (.str s, rest) := by
  have hquote : Host.quote s ++ rest = unit '"' :: (quoteUnits s ++ unit '"' :: rest) := by
    rw [Host.quote, List.append_assoc, List.append_assoc]
    rfl
  rw [hquote]
  change (readString _).map _ = _
  rw [readString_quoteUnits]
  rfl

theorem readItems_quotes (s : Units) (ss : List Units) {n : Nat} (hn : ss.length + 1 < n)
    (rest : Units) :
    readItems number n ((units ",").intercalate ((s :: ss).map Host.quote) ++ unit ']' :: rest) =
      some ((s :: ss).map .str, rest) := by
  induction ss generalizing s n with
  | nil =>
    match n with
    | n + 2 =>
      rw [List.map_cons, List.map_nil, List.intercalate_singleton, readItems, readValue_quote]
      rfl
  | cons t ss ih =>
    match n with
    | n + 2 =>
      have hitems := ih t (n := n + 1) (Nat.lt_of_succ_lt_succ hn)
      rw [List.map_cons, List.map_cons, List.intercalate_cons_cons, List.append_assoc,
        List.append_assoc, readItems, readValue_quote]
      change (readItems number (n + 1) ((units ",").intercalate ((t :: ss).map Host.quote) ++
        unit ']' :: rest)).map _ = _
      rw [hitems]
      rfl

theorem stringifyAll_str (ss : List Units) : stringifyAll (ss.map .str) = ss.map Host.quote := by
  induction ss with
  | nil => rfl
  | cons s ss ih =>
    rw [List.map_cons, stringifyAll, ih]
    rfl

theorem length_intercalate_quotes (ss : List Units) :
    ss.length ≤ ((units ",").intercalate (ss.map Host.quote)).length := by
  induction ss with
  | nil => exact Nat.le_refl _
  | cons s ss ih =>
    have hquote : 0 < (Host.quote s).length := by
      rw [Host.quote, List.append_assoc, List.length_append]
      exact Nat.add_pos_left (by decide) _
    cases ss with
    | nil =>
      rw [List.map_cons, List.map_nil, List.intercalate_singleton]
      exact hquote
    | cons t ss =>
      rw [List.map_cons, List.map_cons, List.intercalate_cons_cons, ← List.map_cons,
        List.length_append, List.length_append]
      rw [List.length_cons]
      omega

/-- A list of strings is read back as it was written. -/
theorem parse_stringify_strs (ss : List Units) :
    parse number (stringify (.arr (ss.map .str))) = some (.arr (ss.map .str)) := by
  cases ss with
  | nil => rfl
  | cons s ss =>
    have hlen := length_intercalate_quotes (s :: ss)
    have htext : stringify (.arr ((s :: ss).map .str)) =
        unit '[' :: ((units ",").intercalate ((s :: ss).map Host.quote) ++ [unit ']']) := by
      rw [stringify, stringifyAll_str, List.append_assoc]
      rfl
    rw [List.length_cons] at hlen
    rw [htext, parse, skipSpace_cons (by decide), List.length_cons, List.length_append,
      List.length_singleton]
    have hitems := readItems_quotes number s ss (n := 2 * (((units ",").intercalate
      ((s :: ss).map Host.quote)).length + 1 + 1)) (by omega) []
    have hopen : (skipSpace ((units ",").intercalate ((s :: ss).map Host.quote) ++
        [unit ']'])).head? ≠ some (unit ']') := by
      intro h
      rw [readItems_bracket number h] at hitems
      cases hitems
    rw [readValue_array, if_neg hopen, hitems]
    rfl

end Strings

/-! The history of a workspace. -/

def COMPOSER_HISTORY_MAX : Nat := 50

def composerHistoryStorageKey (workspaceId : Units) : Units :=
  units "eyot-composer-history:" ++ workspaceId

/-- `slice(-COMPOSER_HISTORY_MAX)` -/
def newest (entries : List Units) : List Units :=
  entries.drop (entries.length - COMPOSER_HISTORY_MAX)

abbrev Storage := List (Units × Units)

def nonEmptyStr? : Value → Option Units
  | .str s => if s = [] then none else some s
  | _ => none

/-- A storage that cannot be read has no history. -/
def loadComposerHistory (number : Units → Units) (workspaceId : Units) (readable : Bool)
    (storage : Storage) : List Units :=
  if !readable then []
  else match Dict.get? storage (composerHistoryStorageKey workspaceId) with
    | none | some [] => []
    | some raw => match parse number raw with
      | some (.arr items) => newest (items.filterMap nonEmptyStr?)
      | _ => []

/-- A failure to write is no failure to send. -/
def persistComposerHistory (workspaceId : Units) (entries : List Units) (written : Bool)
    (storage : Storage) : Storage :=
  if written then Dict.set storage (composerHistoryStorageKey workspaceId)
    (stringify (.arr ((newest entries).map .str)))
  else storage

def pushComposerHistory (entries : List Units) (command : Units) : List Units :=
  if command = [] then entries
  else if entries.getLast? = some command then entries
  else
    let next := entries ++ [command]
    if next.length > COMPOSER_HISTORY_MAX then newest next else next

def isCursorOnFirstLine (text : Units) (cursor : Nat) : Bool :=
  !(text.take (min cursor text.length)).contains (unit '\n')

def isCursorOnLastLine (text : Units) (cursor : Nat) : Bool :=
  !(text.drop (min cursor text.length)).contains (unit '\n')

structure ComposerHistoryBrowse where
  entries : List Units
  browseIndex : Option Nat
  draft : Units

inductive HistoryRecall where
  | apply (text : Units) (session : ComposerHistoryBrowse)
  | stay
  | ignore

def recallOlder (session : ComposerHistoryBrowse) (currentText : Units) : HistoryRecall :=
  if session.entries.length = 0 then .ignore
  else if session.browseIndex = some 0 then .stay
  else
    let browseIndex := match session.browseIndex with
      | none => session.entries.length - 1
      | some i => i - 1
    match session.entries[browseIndex]? with
    | none => .ignore
    | some text =>
      .apply text ⟨session.entries, some browseIndex,
        if session.browseIndex = none then currentText else session.draft⟩

def recallNewer (session : ComposerHistoryBrowse) : HistoryRecall :=
  match session.browseIndex with
  | none => .ignore
  | some i =>
    if i ≥ session.entries.length - 1 then .apply session.draft { session with browseIndex := none }
    else match session.entries[i + 1]? with
      | none => .ignore
      | some text => .apply text { session with browseIndex := some (i + 1) }

/-- What `useComposerCommandHistory` and the text area of the composer hold. -/
structure Composer where
  storage : Storage
  workspaceId : Units
  session : ComposerHistoryBrowse
  text : Units

/-- What happens to the composer.  A message that is sent is committed when the request comes back,
in the workspace it was sent from. -/
inductive ComposerEvent where
  | type (text : Units)
  | arrowUp (cursor : Nat)
  | arrowDown (cursor : Nat)
  | sent (workspaceId command : Units) (written : Bool)
  | switch (workspaceId : Units) (readable : Bool)

namespace Composer

section Machine

variable (number : Units → Units)

def mount (storage : Storage) (workspaceId : Units) (readable : Bool) : Composer where
  storage := storage
  workspaceId := workspaceId
  session := ⟨loadComposerHistory number workspaceId readable storage, none, []⟩
  text := []

def applyRecalled (c : Composer) : HistoryRecall → Composer
  | .apply text session => { c with session := session, text := text }
  | _ => c

def commit (c : Composer) (workspaceId command : Units) (written : Bool) : Composer :=
  let next := pushComposerHistory c.session.entries command
  { c with
    storage := persistComposerHistory workspaceId next written c.storage
    session := ⟨next, none, []⟩ }

def step (c : Composer) : ComposerEvent → Composer
  | .type text => { c with text := text }
  | .arrowUp cursor =>
    if isCursorOnFirstLine c.text cursor then c.applyRecalled (recallOlder c.session c.text) else c
  | .arrowDown cursor =>
    if c.session.browseIndex.isSome && isCursorOnLastLine c.text cursor then
      c.applyRecalled (recallNewer c.session)
    else c
  | .sent workspaceId command written =>
    { c.commit workspaceId command written with text := [] }
  | .switch workspaceId readable =>
    { c with
      workspaceId := workspaceId
      session := ⟨loadComposerHistory number workspaceId readable c.storage, none, []⟩ }

end Machine

end Composer

/-! What the history is for: each workspace has a log of all its commands, the newest first, and the
arrow keys go back and forth in the newest of them. -/

def record (log : List Units) (command : Units) : List Units :=
  if command = [] ∨ log.head? = some command then log else command :: log

structure Logbook where
  logs : Units → List Units
  workspaceId : Units
  log : List Units
  /-- How many commands the text area is back from the draft. -/
  back : Nat
  draft : Units
  text : Units

namespace Logbook

def recent (log : List Units) : List Units := log.take COMPOSER_HISTORY_MAX

def shown (b : Logbook) : Units :=
  match b.back with
  | 0 => b.draft
  | n + 1 => (b.log[n]?).getD b.text

def go (b : Logbook) (back : Nat) (draft : Units) : Logbook :=
  { b with back := back, draft := draft, text := { b with back := back, draft := draft }.shown }

def step (b : Logbook) : ComposerEvent → Logbook
  | .type text => { b with text := text }
  | .arrowUp cursor =>
    if isCursorOnFirstLine b.text cursor ∧ b.back < (recent b.log).length then
      b.go (b.back + 1) (if b.back = 0 then b.text else b.draft)
    else b
  | .arrowDown cursor =>
    if 0 < b.back ∧ isCursorOnLastLine b.text cursor then b.go (b.back - 1) b.draft else b
  | .sent workspaceId command written =>
    let log := record b.log command
    { b with
      logs := if written then Function.update b.logs workspaceId log else b.logs
      log := log, back := 0, draft := [], text := [] }
  | .switch workspaceId readable =>
    { b with
      workspaceId := workspaceId, log := if readable then b.logs workspaceId else []
      back := 0, draft := [] }

end Logbook

open Logbook (recent)

theorem newest_reverse (l : List Units) : newest l.reverse = (recent l).reverse := by
  rw [newest, recent, List.length_reverse, List.reverse_take]

theorem length_recent (log : List Units) : (recent log).length ≤ COMPOSER_HISTORY_MAX :=
  List.length_take_le _ _

theorem head?_recent (log : List Units) : (recent log).head? = log.head? := by
  cases log <;> rfl

theorem newest_of_length_le {l : List Units} (h : l.length ≤ COMPOSER_HISTORY_MAX) :
    newest l = l := by
  rw [newest, Nat.sub_eq_zero_of_le h, List.drop_zero]

theorem push_recent (log : List Units) (command : Units) :
    pushComposerHistory (recent log).reverse command = (recent (record log command)).reverse := by
  rw [pushComposerHistory, record, List.getLast?_reverse, head?_recent]
  by_cases hempty : command = []
  · rw [if_pos hempty, if_pos (.inl hempty)]
  · rw [if_neg hempty]
    by_cases hlast : log.head? = some command
    · rw [if_pos hlast, if_pos (.inr hlast)]
    · have hrecord : ¬ (command = [] ∨ log.head? = some command) := not_or.mpr ⟨hempty, hlast⟩
      have hcons : recent (command :: recent log) = recent (command :: log) := by
        simp [recent, COMPOSER_HISTORY_MAX, List.take_take]
      rw [if_neg hlast, if_neg hrecord, ← List.reverse_cons]
      change (if _ then _ else _) = _
      split
      · rw [newest_reverse, hcons]
      · next hlen =>
        rw [List.length_reverse, Nat.not_lt] at hlen
        have hself : recent (command :: recent log) = command :: recent log :=
          List.take_of_length_le hlen
        rw [← hcons, hself]

section Storing

variable (number : Units → Units)

theorem key_injective : Function.Injective composerHistoryStorageKey :=
  List.append_right_injective _

theorem load_spec (workspaceId : Units) (readable : Bool) (storage : Storage) :
    (loadComposerHistory number workspaceId readable storage).length ≤ COMPOSER_HISTORY_MAX ∧
      ∀ e ∈ loadComposerHistory number workspaceId readable storage, e ≠ [] := by
  have hnil : ([] : List Units).length ≤ COMPOSER_HISTORY_MAX ∧ ∀ e ∈ ([] : List Units), e ≠ [] :=
    ⟨Nat.zero_le _, nofun⟩
  rw [loadComposerHistory]
  split
  · exact hnil
  · split
    · exact hnil
    · exact hnil
    · split
      · next items _ =>
        constructor
        · rw [newest, List.length_drop]
          omega
        · intro e he
          obtain ⟨v, -, hv⟩ := List.mem_filterMap.mp (List.mem_of_mem_drop he)
          cases v with
          | str s =>
            rw [nonEmptyStr?] at hv
            split at hv
            · cases hv
            · next hne => exact Option.some.inj hv ▸ hne
          | _ => cases hv
      · exact hnil

/-- What is persisted is loaded again, and the other workspaces are left alone. -/
theorem load_persist {entries : List Units} (hlen : entries.length ≤ COMPOSER_HISTORY_MAX)
    (hne : ∀ e ∈ entries, e ≠ []) (workspaceId workspaceId' : Units) (storage : Storage) :
    loadComposerHistory number workspaceId' true
        (persistComposerHistory workspaceId entries true storage) =
      if workspaceId = workspaceId' then entries
      else loadComposerHistory number workspaceId' true storage := by
  rw [persistComposerHistory, if_pos rfl, newest_of_length_le hlen, loadComposerHistory,
    Dict.get?_set]
  by_cases hws : workspaceId = workspaceId'
  · have hparse := parse_stringify_strs number entries
    have hitems : (entries.map Json.str).filterMap nonEmptyStr? = entries := by
      rw [List.filterMap_map]
      refine (List.filterMap_congr fun e he => ?_).trans List.filterMap_some
      exact if_neg (hne e he)
    rw [if_neg (by decide), if_pos hws, if_pos (congrArg _ hws)]
    split
    · next heq => cases heq
    · next heq =>
      rw [Option.some.inj heq] at hparse
      cases hparse
    · next raw _ heq =>
      rw [← Option.some.inj heq, hparse]
      dsimp only
      rw [hitems, newest_of_length_le hlen]
  · rw [if_neg hws, if_neg (key_injective.ne hws), loadComposerHistory]

/-- The composer holds the newest commands of the logbook, and is as far back in them. -/
structure Corresponds (c : Composer) (b : Logbook) : Prop where
  loads : ∀ workspaceId, loadComposerHistory number workspaceId true c.storage =
    (recent (b.logs workspaceId)).reverse
  workspaceId : c.workspaceId = b.workspaceId
  entries : c.session.entries = (recent b.log).reverse
  nonempty : ∀ e ∈ recent b.log, e ≠ []
  back_le : b.back ≤ (recent b.log).length
  browseIndex : c.session.browseIndex =
    if b.back = 0 then none else some ((recent b.log).length - b.back)
  draft : c.session.draft = b.draft
  text : c.text = b.text

def Logbook.mount (storage : Storage) (workspaceId : Units) (readable : Bool) : Logbook where
  logs workspaceId := (loadComposerHistory number workspaceId true storage).reverse
  workspaceId := workspaceId
  log := (loadComposerHistory number workspaceId readable storage).reverse
  back := 0
  draft := []
  text := []

variable {number}

theorem recent_load (workspaceId : Units) (readable : Bool) (storage : Storage) :
    recent (loadComposerHistory number workspaceId readable storage).reverse =
      (loadComposerHistory number workspaceId readable storage).reverse := by
  refine List.take_of_length_le ?_
  rw [List.length_reverse]
  exact (load_spec number workspaceId readable storage).1

theorem corresponds_mount (storage : Storage) (workspaceId : Units) (readable : Bool) :
    Corresponds number (.mount number storage workspaceId readable)
      (.mount number storage workspaceId readable) where
  loads ws := by
    rw [Logbook.mount, recent_load, List.reverse_reverse]
    rfl
  workspaceId := rfl
  entries := by
    rw [Logbook.mount, recent_load, List.reverse_reverse]
    rfl
  nonempty e he := by
    rw [Logbook.mount, recent_load, List.mem_reverse] at he
    exact (load_spec number workspaceId readable storage).2 e he
  back_le := Nat.zero_le _
  browseIndex := rfl
  draft := rfl
  text := rfl

namespace Corresponds

variable {c : Composer} {b : Logbook}

theorem length_entries (h : Corresponds number c b) :
    c.session.entries.length = (recent b.log).length := by
  rw [h.entries, List.length_reverse]

/-- The entry that is `n + 1` back. -/
theorem entry (h : Corresponds number c b) {n : Nat} (hn : n < (recent b.log).length) :
    ∃ e, b.log[n]? = some e ∧
      c.session.entries[(recent b.log).length - (n + 1)]? = some e := by
  obtain ⟨e, he⟩ : ∃ e, (recent b.log)[n]? = some e := ⟨_, List.getElem?_eq_getElem hn⟩
  refine ⟨e, ?_, ?_⟩
  · rw [recent, List.getElem?_take] at he
    split at he
    · exact he
    · cases he
  · rw [h.entries, List.getElem?_reverse (by omega), ← he]
    congr 1
    omega

theorem older (h : Corresponds number c b) (hback : b.back < (recent b.log).length) {e : Units}
    (he : c.session.entries[(recent b.log).length - (b.back + 1)]? = some e) (text : Units) :
    recallOlder c.session text = .apply e ⟨c.session.entries,
      some ((recent b.log).length - (b.back + 1)), if b.back = 0 then text else b.draft⟩ := by
  have hempty : ¬ c.session.entries.length = 0 := by
    rw [h.length_entries]
    omega
  rw [recallOlder, if_neg hempty, h.browseIndex, h.draft, h.length_entries]
  by_cases hzero : b.back = 0
  · rw [if_pos hzero]
    rw [hzero] at he
    dsimp only
    rw [he, hzero]
    simp
  · have htop : (recent b.log).length - b.back ≠ 0 := by omega
    have hindex : (recent b.log).length - b.back - 1 = (recent b.log).length - (b.back + 1) := by
      omega
    rw [if_neg hzero, if_neg (by simpa using htop)]
    dsimp only
    rw [hindex, he]
    simp [hzero]

theorem not_older (h : Corresponds number c b) (hback : ¬ b.back < (recent b.log).length)
    (text : Units) : c.applyRecalled (recallOlder c.session text) = c := by
  have heq : b.back = (recent b.log).length := Nat.le_antisymm h.back_le (Nat.not_lt.mp hback)
  rw [recallOlder, h.length_entries]
  split
  · rfl
  · next hempty =>
    have hzero : ¬ b.back = 0 := heq ▸ hempty
    have hbrowse : c.session.browseIndex = some 0 := by
      rw [h.browseIndex, if_neg hzero, heq, Nat.sub_self]
    rw [if_pos hbrowse]
    rfl

theorem newer (h : Corresponds number c b) (hback : 0 < b.back) :
    recallNewer c.session = .apply ({ b with back := b.back - 1 }.shown)
      { c.session with
        browseIndex := if b.back - 1 = 0 then none else some ((recent b.log).length - (b.back - 1)) } := by
  have hle := h.back_le
  rw [recallNewer, h.browseIndex, if_neg (by omega)]
  dsimp only
  rw [h.length_entries]
  obtain hone | hmore : b.back = 1 ∨ 2 ≤ b.back := by omega
  · rw [if_pos (by omega), if_pos (by omega), h.draft]
    simp [hone, Logbook.shown]
  · obtain ⟨n, hn⟩ := Nat.exists_eq_add_of_le' hmore
    obtain ⟨e, hlog, hentry⟩ := h.entry (n := n) (by omega)
    have hindex : (recent b.log).length - b.back + 1 = (recent b.log).length - (n + 1) := by omega
    rw [if_neg (by omega), if_neg (by omega), hindex, hentry]
    simp [hn, Logbook.shown, hlog]

theorem arrowUp (h : Corresponds number c b) (cursor : Nat) :
    Corresponds number (c.step number (.arrowUp cursor)) (b.step (.arrowUp cursor)) := by
  rw [Composer.step, Logbook.step, h.text]
  by_cases hline : isCursorOnFirstLine b.text cursor = true
  · rw [if_pos hline]
    by_cases hback : b.back < (recent b.log).length
    · obtain ⟨e, hlog, hentry⟩ := h.entry hback
      rw [if_pos ⟨hline, hback⟩, h.older hback hentry]
      exact ⟨h.loads, h.workspaceId, h.entries, h.nonempty, hback, rfl, rfl,
        (by simp [Composer.applyRecalled, Logbook.go, Logbook.shown, hlog])⟩
    · rw [if_neg fun hboth => hback hboth.2, h.not_older hback]
      exact h
  · rw [if_neg hline, if_neg fun hboth => hline hboth.1]
    exact h

theorem arrowDown (h : Corresponds number c b) (cursor : Nat) :
    Corresponds number (c.step number (.arrowDown cursor)) (b.step (.arrowDown cursor)) := by
  have hsome : c.session.browseIndex.isSome = true ↔ 0 < b.back := by
    rw [h.browseIndex]
    split
    · next hzero => simp [hzero]
    · next hne => simpa using Nat.pos_of_ne_zero hne
  rw [Composer.step, Logbook.step, h.text]
  by_cases hboth : 0 < b.back ∧ isCursorOnLastLine b.text cursor = true
  · rw [if_pos hboth, if_pos (by rw [hsome.mpr hboth.1, hboth.2]; rfl), h.newer hboth.1]
    have hle := h.back_le
    exact ⟨h.loads, h.workspaceId, h.entries, h.nonempty,
      (Nat.sub_le _ _).trans hle, rfl, h.draft, rfl⟩
  · rw [if_neg hboth, if_neg (by rwa [Bool.and_eq_true, hsome])]
    exact h

theorem mem_record {log : List Units} {command e : Units} (he : e ∈ recent (record log command))
    (h : ∀ e ∈ recent log, e ≠ []) : e ≠ [] := by
  rw [record] at he
  split at he
  · exact h e he
  · next hne =>
    rw [recent, COMPOSER_HISTORY_MAX, List.take_succ_cons] at he
    obtain rfl | he := List.mem_cons.mp he
    · exact fun hnil => hne (.inl hnil)
    · exact h e (List.take_subset_take_left _ (by decide) he)

theorem sent (h : Corresponds number c b) (workspaceId command : Units) (written : Bool) :
    Corresponds number (c.step number (.sent workspaceId command written))
      (b.step (.sent workspaceId command written)) where
  loads ws := by
    have hlen : (recent (record b.log command)).reverse.length ≤ COMPOSER_HISTORY_MAX := by
      rw [List.length_reverse]
      exact length_recent _
    have hne : ∀ e ∈ (recent (record b.log command)).reverse, e ≠ [] := fun e he =>
      mem_record (List.mem_reverse.mp he) h.nonempty
    change loadComposerHistory number ws true (persistComposerHistory workspaceId
      (pushComposerHistory c.session.entries command) written c.storage) = (recent ((if written
      then Function.update b.logs workspaceId (record b.log command) else b.logs) ws)).reverse
    rw [h.entries, push_recent]
    cases written with
    | false => exact h.loads ws
    | true =>
      rw [load_persist number hlen hne, if_pos rfl, Function.update_apply]
      by_cases hws : workspaceId = ws
      · rw [if_pos hws, if_pos hws.symm]
      · rw [if_neg hws, if_neg (Ne.symm hws), h.loads]
  workspaceId := h.workspaceId
  entries := by
    change pushComposerHistory c.session.entries command = _
    rw [h.entries, push_recent]
    rfl
  nonempty e he := mem_record he h.nonempty
  back_le := Nat.zero_le _
  browseIndex := rfl
  draft := rfl
  text := rfl

theorem switch (h : Corresponds number c b) (workspaceId : Units) (readable : Bool) :
    Corresponds number (c.step number (.switch workspaceId readable))
      (b.step (.switch workspaceId readable)) := by
  have hload : loadComposerHistory number workspaceId readable c.storage =
      (recent (if readable then b.logs workspaceId else [])).reverse := by
    cases readable with
    | true => exact h.loads workspaceId
    | false => rfl
  refine ⟨h.loads, rfl, hload, fun e he => ?_, Nat.zero_le _, rfl, rfl, h.text⟩
  exact (load_spec number workspaceId readable c.storage).2 e
    (hload ▸ List.mem_reverse.mpr he)

theorem step (h : Corresponds number c b) (event : ComposerEvent) :
    Corresponds number (c.step number event) (b.step event) := by
  cases event with
  | type text =>
    exact ⟨h.loads, h.workspaceId, h.entries, h.nonempty, h.back_le, h.browseIndex, h.draft, rfl⟩
  | arrowUp cursor => exact h.arrowUp cursor
  | arrowDown cursor => exact h.arrowDown cursor
  | sent workspaceId command written => exact h.sent workspaceId command written
  | switch workspaceId readable => exact h.switch workspaceId readable

end Corresponds

variable (number) in
/-- In every run the composer is a logbook of all commands, of which it keeps the newest. -/
theorem composer_refines_logbook (storage : Storage) (workspaceId : Units) (readable : Bool)
    (events : List ComposerEvent) :
    Corresponds number
      (Run.exec (Composer.step number) (.mount number storage workspaceId readable) events)
      (Run.exec Logbook.step (.mount number storage workspaceId readable) events) :=
  Run.exec_rel (fun _ _ event h => h.step event)
    (corresponds_mount storage workspaceId readable) events

/-! Going back and forth. -/

def ComposerEvent.isArrow : ComposerEvent → Bool
  | .arrowUp _ | .arrowDown _ => true
  | _ => false

/-- The draft is in the text area or put by. -/
def Logbook.Drafts (draft : Units) (b : Logbook) : Prop :=
  (if b.back = 0 then b.text else b.draft) = draft

theorem drafts_step {draft : Units} {b : Logbook} (h : b.Drafts draft) {event : ComposerEvent}
    (harrow : event.isArrow = true) : (b.step event).Drafts draft := by
  cases event with
  | arrowUp cursor =>
    rw [Logbook.step]
    split
    · exact h
    · exact h
  | arrowDown cursor =>
    rw [Logbook.step]
    split
    · next hback =>
      have hdraft : b.draft = draft := by
        rw [← h, if_neg (Nat.pos_iff_ne_zero.mp hback.1)]
      rw [Logbook.Drafts]
      split
      · next hzero =>
        have hzero : b.back - 1 = 0 := hzero
        rw [Logbook.go, hzero]
        exact hdraft
      · exact hdraft
    · exact h
  | _ => cases harrow

theorem drafts_exec {draft : Units} {b : Logbook} (h : b.Drafts draft) {arrows : List ComposerEvent}
    (harrows : ∀ event ∈ arrows, event.isArrow = true) :
    (Run.exec Logbook.step b arrows).Drafts draft := by
  induction arrows generalizing b with
  | nil => exact h
  | cons event arrows ih =>
    obtain ⟨harrow, harrows⟩ := List.forall_mem_cons.mp harrows
    exact ih (drafts_step h harrow) harrows

theorem Corresponds.back_eq_zero {c : Composer} {b : Logbook} (h : Corresponds number c b) :
    c.session.browseIndex = none ↔ b.back = 0 := by
  rw [h.browseIndex]
  split
  · next hzero => simp [hzero]
  · next hne => simp [hne]

variable (number) in
/-- The arrow keys that come back from the history bring back the draft they left. -/
theorem arrows_keep_draft (storage : Storage) (workspaceId : Units) (readable : Bool)
    (events arrows : List ComposerEvent) (harrows : ∀ event ∈ arrows, event.isArrow = true)
    {c c' : Composer}
    (hc : Run.exec (Composer.step number) (.mount number storage workspaceId readable) events = c)
    (hc' : Run.exec (Composer.step number) c arrows = c')
    (hlive : c.session.browseIndex = none) (hlive' : c'.session.browseIndex = none) :
    c'.text = c.text := by
  have h := composer_refines_logbook number storage workspaceId readable events
  rw [hc] at h
  have h' : Corresponds number (Run.exec (Composer.step number) c arrows) _ :=
    Run.exec_rel (fun _ _ event h => h.step event) h arrows
  rw [hc'] at h'
  have hdrafts := drafts_exec (if_pos (h.back_eq_zero.mp hlive)) harrows
  rw [Logbook.Drafts, if_pos (h'.back_eq_zero.mp hlive')] at hdrafts
  rw [h'.text, hdrafts, h.text]

/-! The commands of a workspace. -/

/-- The storage works, and what was sent comes back to the workspace it was sent from. -/
def Steady (c : Composer) : ComposerEvent → Prop
  | .sent workspaceId _ written => workspaceId = c.workspaceId ∧ written = true
  | .switch _ readable => readable = true
  | _ => True

instance (c : Composer) : (event : ComposerEvent) → Decidable (Steady c event)
  | .sent workspaceId _ written =>
    inferInstanceAs (Decidable (workspaceId = c.workspaceId ∧ written = true))
  | .switch _ readable => inferInstanceAs (Decidable (readable = true))
  | .type _ | .arrowUp _ | .arrowDown _ => .isTrue trivial

def commandFrom? (workspaceId : Units) : ComposerEvent → Option Units
  | .sent ws command _ => if ws = workspaceId then some command else none
  | _ => none

def commandsOf (workspaceId : Units) (events : List ComposerEvent) : List Units :=
  events.filterMap (commandFrom? workspaceId)

def Logbook.Settled (b : Logbook) : Prop := b.log = b.logs b.workspaceId

theorem settled_step {c : Composer} {b : Logbook} (h : Corresponds number c b) (hb : b.Settled)
    {event : ComposerEvent} (hevent : Steady c event) :
    (b.step event).Settled ∧ ∀ workspaceId, (b.step event).logs workspaceId =
      (commandsOf workspaceId [event]).foldl record (b.logs workspaceId) := by
  cases event with
  | type text => exact ⟨hb, fun _ => rfl⟩
  | arrowUp cursor =>
    rw [Logbook.step]
    split
    · exact ⟨hb, fun _ => rfl⟩
    · exact ⟨hb, fun _ => rfl⟩
  | arrowDown cursor =>
    rw [Logbook.step]
    split
    · exact ⟨hb, fun _ => rfl⟩
    · exact ⟨hb, fun _ => rfl⟩
  | sent ws command written =>
    obtain ⟨hws, rfl⟩ := hevent
    rw [h.workspaceId] at hws
    rw [Logbook.Settled] at hb
    refine ⟨?_, fun workspaceId => ?_⟩
    · rw [Logbook.Settled, Logbook.step, hws]
      exact (Function.update_self b.workspaceId _ b.logs).symm
    · change Function.update b.logs ws (record b.log command) workspaceId = _
      by_cases heq : ws = workspaceId
      · subst heq
        have hfrom : commandFrom? ws (.sent ws command true) = some command := if_pos rfl
        rw [Function.update_self, hb, ← hws, commandsOf, List.filterMap_cons, hfrom]
        rfl
      · have hfrom : commandFrom? workspaceId (.sent ws command true) = none := if_neg heq
        rw [Function.update_of_ne (Ne.symm heq), commandsOf, List.filterMap_cons, hfrom]
        rfl
  | switch ws readable =>
    have hread : readable = true := hevent
    rw [hread]
    exact ⟨rfl, fun _ => rfl⟩

theorem commandsOf_cons (workspaceId : Units) (event : ComposerEvent)
    (events : List ComposerEvent) : commandsOf workspaceId (event :: events) =
      commandsOf workspaceId [event] ++ commandsOf workspaceId events := by
  rw [commandsOf, commandsOf, commandsOf, ← List.filterMap_append, List.singleton_append]

theorem logs_exec {c : Composer} {b : Logbook} (h : Corresponds number c b) (hb : b.Settled)
    {events : List ComposerEvent} (hsteady : Run.Meets (Composer.step number) Steady c events)
    (workspaceId : Units) :
    (Run.exec Logbook.step b events).logs workspaceId =
      (commandsOf workspaceId events).foldl record (b.logs workspaceId) := by
  induction events generalizing c b with
  | nil => rfl
  | cons event events ih =>
    obtain ⟨hsettled, hlogs⟩ := settled_step h hb hsteady.1
    rw [commandsOf_cons, List.foldl_append, ← hlogs]
    exact ih (h.step event) hsettled hsteady.2

variable (number) in
/-- A workspace has the newest of the commands it had and of those that were sent from it. -/
theorem history_of_workspace (storage : Storage) (workspaceId : Units) {events : List ComposerEvent}
    (hsteady : Run.Meets (Composer.step number) Steady (.mount number storage workspaceId true)
      events) (workspaceId' : Units) :
    loadComposerHistory number workspaceId' true (Run.exec (Composer.step number)
        (.mount number storage workspaceId true) events).storage =
      (recent ((commandsOf workspaceId' events).foldl record
        (loadComposerHistory number workspaceId' true storage).reverse)).reverse := by
  have h := composer_refines_logbook number storage workspaceId true events
  rw [h.loads, logs_exec (corresponds_mount storage workspaceId true) rfl hsteady]
  rfl

/-- In a workspace with one command, the draft is left and found again. -/
theorem arrows_keep_draft_hello :
    (Run.exec (Composer.step id) (.mount id [] (units "w") true)
      [.sent (units "w") (units "/status") true, .type (units "hello"), .arrowUp 0,
        .arrowDown 7]).text = units "hello" :=
  arrows_keep_draft id [] (units "w") true
    [.sent (units "w") (units "/status") true, .type (units "hello")]
    [.arrowUp 0, .arrowDown 7] (by decide) rfl rfl (by decide +kernel) (by decide +kernel)

theorem history_of_workspace_two :
    loadComposerHistory id (units "v") true (Run.exec (Composer.step id)
      (.mount id [] (units "v") true) [.sent (units "v") (units "a") true,
        .sent (units "v") (units "a") true, .switch (units "w") true,
        .sent (units "w") (units "b") true]).storage = [units "a"] :=
  (history_of_workspace id [] (units "v") (by decide +kernel) (units "v")).trans
    (by decide +kernel)

end Storing

end Eyot.Portal
