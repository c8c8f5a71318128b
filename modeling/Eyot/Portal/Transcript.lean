import Eyot.Host.Js
import Mathlib.Data.List.Forall2
import Mathlib.Data.List.Nodup
import Mathlib.Data.List.Pairwise

/-! The transcript in the portal: the bubbles it made itself and those the server has of them. -/

namespace Eyot.Portal

def colon : UInt16 := 58

/-- `user`, `assistant` and `system` are all that the transcript has. -/
structure Role where
  word : Units
  plain : colon ∉ word
deriving DecidableEq

def Role.assistant : Role := ⟨units "assistant", by decide⟩

/-- What is undefined is null here. -/
structure TranscriptMessage where
  id : Units
  role : Role
  content : Units
  targetEntity : Option Units
  targetEntityName : Option Units
  turnId : Option Units
  status : Units
  authorUserId : Option Units
  authorUsername : Option Units
  authorNickname : Option Units
  authorDisplayName : Option Units
  recipientUsername : Option Units
  recipientNickname : Option Units
  recipientDisplayName : Option Units
  createdAt : Option Units

inductive LaneStatus where
  | responding
  | completed
  | failed
deriving DecidableEq

def LaneStatus.word : LaneStatus → Units
  | .responding => units "responding"
  | .failed => units "failed"
  | .completed => units "completed"

structure StreamLane where
  turnId : Units
  target : Units
  targetName : Option Units
  recipientUsername : Option Units
  recipientDisplayName : Option Units
  status : LaneStatus
  text : Units
  error : Option Units

def trimmedLength (content : Units) : Nat := (portalText.strip content).length

def roleTurnKey (role : Role) (turnId : Units) : Units := role.word ++ colon :: turnId

namespace TranscriptMessage

variable (m : TranscriptMessage)

/-- The empty text is no turn. -/
def turn? : Option Units := m.turnId.filter fun turnId => !turnId.isEmpty

def key? : Option Units := m.turn?.map (roleTurnKey m.role)

def speaks : Bool := trimmedLength m.content ≠ 0

end TranscriptMessage

def localByKey (messages : List TranscriptMessage) : Units → Option TranscriptMessage :=
  messages.foldl (fun map m =>
    match m.key? with
    | none => map
    | some key => if m.speaks then Function.update map key (some m) else map) fun _ => none

def merge (map : Units → Option TranscriptMessage) (m : TranscriptMessage) : TranscriptMessage :=
  match m.key?.bind map with
  | none => m
  | some l =>
    if trimmedLength l.content ≤ trimmedLength m.content then m
    else { m with content := l.content, status := if m.status.isEmpty then l.status else m.status }

def isNew (server : List TranscriptMessage) (m : TranscriptMessage) : Bool :=
  !(server.map TranscriptMessage.id).contains m.id &&
    m.key?.all fun key => !(server.filterMap TranscriptMessage.key?).contains key &&
      !server.any fun s => decide (s.role = m.role) && decide (s.turnId = m.turnId)

def reconcileTranscript (server messages : List TranscriptMessage) : List TranscriptMessage :=
  server.map (merge (localByKey messages)) ++ messages.filter (isNew server)

namespace StreamLane

variable (lane : StreamLane)

def content : Units := (lane.error.filter fun error => trimmedLength error ≠ 0).getD lane.text

def ownsBubble (m : TranscriptMessage) : Bool :=
  decide (m.role = .assistant) && decide (m.turnId = some lane.turnId)

def fill (m : TranscriptMessage) : TranscriptMessage :=
  { m with
    content :=
      if trimmedLength m.content ≤ trimmedLength lane.content then lane.content else m.content
    status := lane.status.word
    targetEntity := if lane.target.isEmpty then m.targetEntity else some lane.target
    targetEntityName := lane.targetName.or m.targetEntityName
    recipientUsername := lane.recipientUsername.or m.recipientUsername
    recipientDisplayName := lane.recipientDisplayName.or m.recipientDisplayName }

def bubble (now : Units) : TranscriptMessage where
  id := units "local-assistant-" ++ lane.turnId
  role := .assistant
  content := lane.content
  targetEntity := some lane.target
  targetEntityName := lane.targetName
  turnId := some lane.turnId
  status := lane.status.word
  authorUserId := none
  authorUsername := none
  authorNickname := none
  authorDisplayName := none
  recipientUsername := lane.recipientUsername
  recipientNickname := none
  recipientDisplayName := lane.recipientDisplayName
  createdAt := some now

end StreamLane

/-- `now` is the clock. -/
def upsertAssistantBubble (now : Units) (prev : List TranscriptMessage) (lane : StreamLane) :
    List TranscriptMessage :=
  match prev.findIdx? lane.ownsBubble with
  | some i => prev.modify i lane.fill
  | none => prev ++ [lane.bubble now]

/-! What the transcript should be. -/

def TranscriptMessage.roleTurn? (m : TranscriptMessage) : Option (Role × Units) :=
  m.turn?.map fun turnId => (m.role, turnId)

def DistinctTurns (messages : List TranscriptMessage) : Prop :=
  (messages.filterMap TranscriptMessage.roleTurn?).Nodup

instance (messages : List TranscriptMessage) : Decidable (DistinctTurns messages) :=
  inferInstanceAs (Decidable (List.Nodup _))

structure Distinct (messages : List TranscriptMessage) : Prop where
  ids : (messages.map TranscriptMessage.id).Nodup
  turns : DistinctTurns messages

/-- The same bubble, whatever it says by now. -/
def SameBubble (m m' : TranscriptMessage) : Prop :=
  m' = { m with content := m'.content, status := m'.status }

def Counterpart (m s : TranscriptMessage) : Prop :=
  s.id = m.id ∨ ∃ key, m.roleTurn? = some key ∧ s.roleTurn? = some key

def longer (shown other : Units) : Units :=
  if trimmedLength other ≤ trimmedLength shown then shown else other

structure Reconciles (server messages out : List TranscriptMessage) : Prop where
  keeps : ∃ merged added, out = merged ++ added ∧ List.Forall₂ SameBubble server merged
  loses : ∀ m ∈ messages, (∀ s ∈ server, ¬ Counterpart m s) → m ∈ out
  distinct : Distinct out
  longer : ∀ s ∈ server, ∀ m ∈ messages, ∀ key, s.roleTurn? = some key → m.roleTurn? = some key →
    ∃ o ∈ out, o.roleTurn? = some key ∧ o.content = longer s.content m.content
  idempotent : reconcileTranscript server out = out

/-- The same bubble, with at least as much in it. -/
def Grows (m m' : TranscriptMessage) : Prop :=
  m'.id = m.id ∧ m'.role = m.role ∧ m'.turnId = m.turnId ∧
    trimmedLength m.content ≤ trimmedLength m'.content

structure Upserts (prev out : List TranscriptMessage) : Prop where
  turns : DistinctTurns out
  grows : ∃ grown added, out = grown ++ added ∧ List.Forall₂ Grows prev grown

/-- Elements of one key are one element. -/
theorem eq_of_filterMap_nodup {α β : Type} {f : α → Option β} {l : List α}
    (h : (l.filterMap f).Nodup) {a b : α} (ha : a ∈ l) (hb : b ∈ l) {k : β} (hka : f a = some k)
    (hkb : f b = some k) : a = b := by
  have hne : l.Pairwise fun a b => ∀ k ∈ f a, ∀ k' ∈ f b, k ≠ k' := List.pairwise_filterMap.mp h
  have hsymm : Std.Symm fun a b => ∀ k ∈ f a, ∀ k' ∈ f b, k ≠ k' :=
    ⟨fun _ _ hxy k hk k' hk' heq => hxy k' hk' k hk heq.symm⟩
  by_contra hab
  exact hne.forall ha hb hab k hka k hkb rfl

theorem roleTurnKey_injective :
    Function.Injective fun key : Role × Units => roleTurnKey key.1 key.2 := by
  rintro ⟨⟨word, hword⟩, turnId⟩ ⟨⟨word', hword'⟩, turnId'⟩ heq
  have hhead : ∀ (w t : Units), colon ∉ w → (w ++ colon :: t).takeWhile (· ≠ colon) = w := by
    intro w t hw
    rw [List.takeWhile_append_of_pos fun u hu => by
      simpa using fun h : u = colon => hw (h ▸ hu)]
    simp
  have hwords : word = word' := by
    rw [← hhead word turnId hword, ← hhead word' turnId' hword']
    exact congrArg (List.takeWhile _) heq
  subst hwords
  obtain rfl : turnId = turnId' := List.cons_injective (List.append_cancel_left heq)
  rfl

namespace TranscriptMessage

variable {m m' s : TranscriptMessage}

theorem key?_eq (m : TranscriptMessage) :
    m.key? = m.roleTurn?.map fun key => roleTurnKey key.1 key.2 := by
  rw [key?, roleTurn?, Option.map_map]
  rfl

theorem key?_eq_some {key : Units} (h : m.key? = some key) (h' : m'.key? = some key) :
    m.roleTurn? = m'.roleTurn? := by
  rw [key?_eq] at h h'
  exact Option.map_injective roleTurnKey_injective (h.trans h'.symm)

theorem key?_congr (h : m.roleTurn? = m'.roleTurn?) : m.key? = m'.key? := by
  rw [key?_eq, key?_eq, h]

theorem roleTurn?_eq_some {key : Role × Units} :
    m.roleTurn? = some key ↔ m.role = key.1 ∧ m.turnId = some key.2 ∧ key.2 ≠ [] := by
  obtain ⟨role, turnId⟩ := key
  simp only [roleTurn?, turn?, Option.map_eq_some_iff, Option.filter_eq_some_iff, Prod.mk.injEq]
  constructor
  · rintro ⟨_, ⟨hturn, hne⟩, hrole, rfl⟩
    exact ⟨hrole, hturn, by simpa using hne⟩
  · rintro ⟨hrole, hturn, hne⟩
    exact ⟨turnId, ⟨hturn, by simpa using hne⟩, hrole, rfl⟩

end TranscriptMessage

open TranscriptMessage

theorem distinctTurns_iff {messages : List TranscriptMessage} :
    DistinctTurns messages ↔ (messages.filterMap key?).Nodup := by
  have hkeys : messages.filterMap key? =
      (messages.filterMap roleTurn?).map fun key => roleTurnKey key.1 key.2 := by
    rw [List.map_filterMap]
    exact List.filterMap_congr fun m _ => key?_eq m
  rw [DistinctTurns, hkeys, List.nodup_map_iff roleTurnKey_injective]

section LocalByKey

variable {messages : List TranscriptMessage} {m : TranscriptMessage} {key : Units}

theorem localByKey_concat (messages : List TranscriptMessage) (m : TranscriptMessage)
    (key : Units) :
    localByKey (messages ++ [m]) key =
      if m.key? = some key ∧ m.speaks = true then some m else localByKey messages key := by
  rw [localByKey, List.foldl_append]
  change (match m.key? with
    | none => localByKey messages
    | some k =>
      if m.speaks then Function.update (localByKey messages) k (some m)
      else localByKey messages) key = _
  cases hkey : m.key? with
  | none => simp
  | some k =>
    by_cases hspeaks : m.speaks = true
    · simp [hspeaks, Function.update_apply, eq_comm]
    · simp [hspeaks]

theorem localByKey_eq_some (h : localByKey messages key = some m) :
    m ∈ messages ∧ m.key? = some key ∧ m.speaks = true := by
  induction messages using List.reverseRecOn with
  | nil => cases h
  | append_singleton messages l ih =>
    rw [localByKey_concat] at h
    split at h
    · cases h
      exact ⟨List.mem_append_right _ (List.mem_singleton_self m), ‹_›⟩
    · obtain ⟨hm, hrest⟩ := ih h
      exact ⟨List.mem_append_left _ hm, hrest⟩

theorem localByKey_isSome (hm : m ∈ messages) (hkey : m.key? = some key)
    (hspeaks : m.speaks = true) : (localByKey messages key).isSome = true := by
  induction messages using List.reverseRecOn with
  | nil => cases hm
  | append_singleton messages l ih =>
    rw [localByKey_concat]
    split
    · rfl
    · rename_i hnot
      obtain hm | hm := List.mem_append.mp hm
      · exact ih hm
      · rw [List.mem_singleton.mp hm] at hkey hspeaks
        exact absurd ⟨hkey, hspeaks⟩ hnot

/-- A turn of its own is found if and only if it says something. -/
theorem localByKey_eq (h : DistinctTurns messages) (hm : m ∈ messages) (hkey : m.key? = some key) :
    localByKey messages key = if m.speaks = true then some m else none := by
  have hunique : ∀ l, localByKey messages key = some l → l = m := fun l hl =>
    eq_of_filterMap_nodup (distinctTurns_iff.mp h) (localByKey_eq_some hl).1 hm
      (localByKey_eq_some hl).2.1 hkey
  cases hl : localByKey messages key with
  | none =>
    rw [if_neg]
    intro hspeaks
    simpa [hl] using localByKey_isSome hm hkey hspeaks
  | some l =>
    obtain rfl := hunique l hl
    rw [if_pos (localByKey_eq_some hl).2.2]

end LocalByKey

section Merge

variable {map : Units → Option TranscriptMessage} {server messages : List TranscriptMessage}
  {m s : TranscriptMessage} {key : Units}

theorem merge_of_key (hkey : s.key? = some key) :
    merge map s = match map key with
      | none => s
      | some l =>
        if trimmedLength l.content ≤ trimmedLength s.content then s
        else { s with
          content := l.content, status := if s.status.isEmpty then l.status else s.status } := by
  rw [merge, hkey, Option.bind_some]

theorem sameBubble_merge (map : Units → Option TranscriptMessage) (s : TranscriptMessage) :
    SameBubble s (merge map s) := by
  rw [merge]
  split
  · rfl
  · split <;> rfl

theorem SameBubble.id_eq (h : SameBubble s m) : m.id = s.id := by rw [h]

theorem SameBubble.roleTurn?_eq (h : SameBubble s m) : m.roleTurn? = s.roleTurn? := by
  rw [h]
  rfl

theorem map_merge_id (map : Units → Option TranscriptMessage) (server : List TranscriptMessage) :
    (server.map (merge map)).map TranscriptMessage.id = server.map TranscriptMessage.id := by
  rw [List.map_map]
  exact List.map_congr_left fun s _ => (sameBubble_merge map s).id_eq

theorem filterMap_merge (map : Units → Option TranscriptMessage)
    (server : List TranscriptMessage) :
    (server.map (merge map)).filterMap roleTurn? = server.filterMap roleTurn? := by
  rw [List.filterMap_map]
  exact List.filterMap_congr fun s _ => (sameBubble_merge map s).roleTurn?_eq

/-- A message is new when the server has nothing of it. -/
theorem isNew_iff : isNew server m = true ↔ ∀ s ∈ server, ¬ Counterpart m s := by
  have hid : (server.map TranscriptMessage.id).contains m.id = false ↔
      ∀ s ∈ server, s.id ≠ m.id := by
    rw [Bool.eq_false_iff, ne_eq, List.contains_iff_mem, List.mem_map]
    exact ⟨fun h s hs heq => h ⟨s, hs, heq⟩, fun h ⟨s, hs, heq⟩ => h s hs heq⟩
  rw [isNew, Bool.and_eq_true, Bool.not_eq_true', hid]
  cases hturn : m.roleTurn? with
  | none =>
    rw [key?_eq, hturn]
    simp [Counterpart, hturn]
  | some key =>
    obtain ⟨hrole, hid, hne⟩ := roleTurn?_eq_some.mp hturn
    have hkey : m.key? = some (roleTurnKey key.1 key.2) := by rw [key?_eq, hturn]; rfl
    have hsame : ∀ s : TranscriptMessage, s.key? = some (roleTurnKey key.1 key.2) ↔
        s.roleTurn? = some key := fun s =>
      ⟨fun h => (key?_eq_some h hkey).trans hturn, fun h => key?_congr (h.trans hturn.symm) ▸ hkey⟩
    have honServer : ∀ s : TranscriptMessage, s.role = m.role ∧ s.turnId = m.turnId ↔
        s.roleTurn? = some key := by
      intro s
      rw [hrole, hid, roleTurn?_eq_some]
      exact ⟨fun h => ⟨h.1, h.2, hne⟩, fun h => ⟨h.1, h.2.1⟩⟩
    rw [hkey, Option.all_some]
    simp only [Bool.and_eq_true, Bool.not_eq_true', Bool.eq_false_iff, ne_eq, List.contains_iff_mem,
      List.mem_filterMap, List.any_eq_true, decide_eq_true_eq, hsame, honServer, Counterpart, hturn,
      Option.some.injEq, exists_eq_left', not_or, not_exists, not_and]
    exact ⟨fun h s hs => ⟨h.1 s hs, h.2.1 s hs⟩,
      fun h => ⟨fun s hs => (h s hs).1, fun s hs => (h s hs).2, fun s hs => (h s hs).2⟩⟩

theorem distinct_reconcile (hserver : Distinct server) (hmessages : Distinct messages) :
    Distinct (reconcileTranscript server messages) := by
  have hnew : ∀ m ∈ messages.filter (isNew server), ∀ s ∈ server, ¬ Counterpart m s :=
    fun m hm => isNew_iff.mp (List.mem_filter.mp hm).2
  constructor
  · rw [reconcileTranscript, List.map_append, map_merge_id]
    refine hserver.ids.append (hmessages.ids.sublist (List.filter_sublist.map _)) ?_
    intro id hs hm
    obtain ⟨s, hs', rfl⟩ := List.mem_map.mp hs
    obtain ⟨m, hm', hid⟩ := List.mem_map.mp hm
    exact hnew m hm' s hs' (.inl hid.symm)
  · rw [DistinctTurns, reconcileTranscript, List.filterMap_append, filterMap_merge]
    refine List.Nodup.append hserver.turns
      (hmessages.turns.sublist (List.filter_sublist.filterMap _)) ?_
    intro key hs hm
    obtain ⟨s, hs', hskey⟩ := List.mem_filterMap.mp hs
    obtain ⟨m, hm', hmkey⟩ := List.mem_filterMap.mp hm
    exact hnew m hm' s hs' (.inr ⟨key, hmkey, hskey⟩)

theorem merge_content (h : DistinctTurns messages) (hm : m ∈ messages) (hkey : s.key? = some key)
    (hmkey : m.key? = some key) :
    (merge (localByKey messages) s).content = longer s.content m.content := by
  rw [merge_of_key hkey, localByKey_eq h hm hmkey, longer]
  by_cases hspeaks : m.speaks = true
  · rw [if_pos hspeaks]
    by_cases hle : trimmedLength m.content ≤ trimmedLength s.content <;> simp [hle]
  · have hzero : trimmedLength m.content = 0 := by simpa [speaks] using hspeaks
    rw [if_neg hspeaks, hzero, if_pos (Nat.zero_le _)]

/-- What has been merged wins again over what the server has. -/
theorem merge_merge {out : List TranscriptMessage} (h : DistinctTurns out)
    (hmem : merge map s ∈ out) : merge (localByKey out) s = merge map s := by
  cases hkey : s.key? with
  | none => rw [merge, merge, hkey]; rfl
  | some key =>
    have hkey' : (merge map s).key? = some key :=
      (key?_congr (sameBubble_merge map s).roleTurn?_eq).trans hkey
    rw [merge_of_key hkey, localByKey_eq h hmem hkey']
    rw [merge_of_key hkey]
    cases hmap : map key with
    | none => by_cases hspeaks : s.speaks = true <;> simp [hspeaks]
    | some l =>
      by_cases hle : trimmedLength l.content ≤ trimmedLength s.content
      · by_cases hspeaks : s.speaks = true <;> simp [hle, hspeaks]
      · have hne : trimmedLength l.content ≠ 0 := by omega
        by_cases hstatus : s.status.isEmpty = true <;> simp [hle, speaks, hne, hstatus]

theorem mem_reconcile (messages : List TranscriptMessage) (hs : s ∈ server) :
    merge (localByKey messages) s ∈ reconcileTranscript server messages :=
  List.mem_append_left _ (List.mem_map_of_mem hs)

theorem reconcile_reconcile (hserver : Distinct server) (hmessages : Distinct messages) :
    reconcileTranscript server (reconcileTranscript server messages) =
      reconcileTranscript server messages := by
  have hturns := (distinct_reconcile hserver hmessages).turns
  have hmerged : ∀ s ∈ server, merge (localByKey (reconcileTranscript server messages)) s =
      merge (localByKey messages) s := fun s hs => merge_merge hturns (mem_reconcile messages hs)
  have hold : (server.map (merge (localByKey messages))).filter (isNew server) = [] := by
    rw [List.filter_eq_nil_iff]
    intro o ho hnew
    obtain ⟨s, hs, rfl⟩ := List.mem_map.mp ho
    exact isNew_iff.mp hnew s hs (.inl (sameBubble_merge _ s).id_eq.symm)
  have hnew : (reconcileTranscript server messages).filter (isNew server) =
      messages.filter (isNew server) := by
    rw [reconcileTranscript, List.filter_append, hold, List.nil_append, List.filter_filter]
    simp only [Bool.and_self]
  calc reconcileTranscript server (reconcileTranscript server messages)
      = server.map (merge (localByKey messages)) ++
          (reconcileTranscript server messages).filter (isNew server) :=
        congrArg (· ++ _) (List.map_congr_left hmerged)
    _ = reconcileTranscript server messages := by rw [hnew, reconcileTranscript]

theorem reconciles (hserver : Distinct server) (hmessages : Distinct messages) :
    Reconciles server messages (reconcileTranscript server messages) where
  keeps := ⟨_, _, rfl, List.forall₂_map_right_iff.mpr
    (List.forall₂_same.mpr fun s _ => sameBubble_merge _ s)⟩
  loses m hm h := List.mem_append_right _ (List.mem_filter.mpr ⟨hm, isNew_iff.mpr h⟩)
  distinct := distinct_reconcile hserver hmessages
  longer s hs m hm key hskey hmkey :=
    ⟨_, mem_reconcile messages hs, (sameBubble_merge _ s).roleTurn?_eq.trans hskey,
      merge_content hmessages.turns hm (by rw [key?_eq, hskey]; rfl)
        (by rw [key?_eq, hmkey]; rfl)⟩
  idempotent := reconcile_reconcile hserver hmessages

end Merge

section Upsert

variable {now : Units} {prev grown : List TranscriptMessage} {lane : StreamLane}

theorem Grows.refl (m : TranscriptMessage) : Grows m m := ⟨rfl, rfl, rfl, Nat.le_refl _⟩

theorem grows_fill (lane : StreamLane) (m : TranscriptMessage) : Grows m (lane.fill m) := by
  refine ⟨rfl, rfl, rfl, ?_⟩
  by_cases h : trimmedLength m.content ≤ trimmedLength lane.content <;> simp [StreamLane.fill, h]

theorem grows_modify (lane : StreamLane) (i : Nat) (prev : List TranscriptMessage) :
    List.Forall₂ Grows prev (prev.modify i lane.fill) := by
  induction prev generalizing i with
  | nil => simp
  | cons m prev ih =>
    cases i with
    | zero => exact .cons (grows_fill lane m) (List.forall₂_same.mpr fun m _ => .refl m)
    | succ i => exact .cons (.refl m) (ih i)

theorem filterMap_of_grows (h : List.Forall₂ Grows prev grown) :
    grown.filterMap roleTurn? = prev.filterMap roleTurn? := by
  induction h with
  | nil => rfl
  | @cons m m' prev grown hgrows _ ih =>
    have hturn : m'.roleTurn? = m.roleTurn? := by
      rw [roleTurn?, roleTurn?, turn?, turn?, hgrows.2.1, hgrows.2.2.1]
    rw [List.filterMap_cons, List.filterMap_cons, hturn, ih]

theorem upserts (now : Units) (lane : StreamLane) (h : DistinctTurns prev) :
    Upserts prev (upsertAssistantBubble now prev lane) := by
  rw [upsertAssistantBubble]
  cases hidx : prev.findIdx? lane.ownsBubble with
  | some i =>
    have hgrows := grows_modify lane i prev
    refine ⟨?_, _, [], (List.append_nil _).symm, hgrows⟩
    rw [DistinctTurns, filterMap_of_grows hgrows]
    exact h
  | none =>
    refine ⟨?_, prev, _, rfl, List.forall₂_same.mpr fun m _ => .refl m⟩
    rw [DistinctTurns, List.filterMap_append]
    cases hkey : (lane.bubble now).roleTurn? with
    | none =>
      rw [List.filterMap_cons_none hkey, List.filterMap_nil, List.append_nil]
      exact h
    | some key =>
      rw [List.filterMap_cons_some hkey, List.filterMap_nil]
      refine List.Nodup.append h (List.nodup_singleton key) (List.disjoint_singleton.mpr ?_)
      intro hmem
      obtain ⟨m, hm, hmkey⟩ := List.mem_filterMap.mp hmem
      obtain ⟨hrole, hturn, -⟩ := roleTurn?_eq_some.mp hmkey
      obtain ⟨hrole', hturn', -⟩ := roleTurn?_eq_some.mp hkey
      have howns : lane.ownsBubble m = false := List.findIdx?_eq_none_iff.mp hidx m hm
      rw [StreamLane.ownsBubble, hrole, hturn, ← hrole', ← hturn'] at howns
      simp [StreamLane.bubble] at howns

end Upsert

/-- Neither a reload nor a frame of a turn loses a bubble, doubles one or cuts one short. -/
theorem transcript_kept {server messages : List TranscriptMessage} (hserver : Distinct server)
    (hmessages : Distinct messages) :
    Reconciles server messages (reconcileTranscript server messages) ∧
      ∀ now prev lane, DistinctTurns prev →
        Upserts prev (upsertAssistantBubble now prev lane) :=
  ⟨reconciles hserver hmessages, fun now _ lane h => upserts now lane h⟩

def reply (id content : String) : TranscriptMessage :=
  ⟨units id, .assistant, units content, none, none, some (units "t1"), units "completed", none,
    none, none, none, none, none, none, none⟩

/-- The reload races ahead of the reply. -/
theorem reload_kept :
    Reconciles [reply "m1" ""] [reply "local-assistant-t1" "done"]
        (reconcileTranscript [reply "m1" ""] [reply "local-assistant-t1" "done"]) ∧
      ∀ now prev lane, DistinctTurns prev →
        Upserts prev (upsertAssistantBubble now prev lane) :=
  transcript_kept ⟨by decide, by decide⟩ ⟨by decide, by decide⟩

end Eyot.Portal
