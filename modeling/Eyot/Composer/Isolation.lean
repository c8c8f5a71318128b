import Eyot.Composer.Turn
import Eyot.Library.Run

/-! The tunnels of the instances among the turns. -/

namespace Eyot.Composer

/-- A message over the tunnel of another instance. -/
def Input.isForeign (instanceId : Id) : Input → Bool
  | .tunnel sender _ => sender ≠ instanceId
  | _ => false

def Turns.addressedTo (ts : Turns) (instanceId : Id) : List Turn :=
  ts.rows.filter fun t => t.instanceId = instanceId

/-- A message over the tunnel of another instance is no chat frame for a turn of this one. -/
def KeepsOut (instanceId : Id) (ts : Turns) : Input → Prop
  | .tunnel sender m => sender ≠ instanceId →
    ∀ t ∈ ts.addressedTo instanceId, m.frameFor? t.turnId = none
  | _ => True

theorem move_instanceId (repr : Value → PyStr) (i : Input) (t : Turn) :
    ((turns repr).move i t).instanceId = t.instanceId := by
  rw [Fleet.move]
  cases (turns repr).route i t with
  | none => rfl
  | some a => exact (Turn.act_ids repr t a).2

/-- A frame leaves its mark on the turn it is for. -/
theorem move_tunnel_iff (repr : Value → PyStr) (sender : Id) (m : TunnelMessage) (t : Turn) :
    (turns repr).move (.tunnel sender m) t = t ↔ m.frameFor? t.turnId = none := by
  have hroute : (turns repr).route (.tunnel sender m) t = (m.frameFor? t.turnId).map .receive :=
    rfl
  rw [Fleet.move, hroute]
  cases m.frameFor? t.turnId with
  | none => exact iff_of_true rfl rfl
  | some h =>
    refine iff_of_false (fun heq => ?_) (Option.some_ne_none h)
    obtain ⟨f, -, he⟩ := Turn.emitted_receive repr t h
    have hgrown := he.history
    rw [show t.receive repr h = t from heq] at hgrown
    simp at hgrown

/-- A message of a tunnel moves turns, and adds none. -/
theorem rows_tunnel (repr : Value → PyStr) (ts : Turns) (sender : Id) (m : TunnelMessage) :
    (ts.step repr (.tunnel sender m)).rows =
      ts.rows.map ((turns repr).move (.tunnel sender m)) := by
  rw [Turns.step, Fleet.step_rows]
  exact List.append_nil _

theorem addressedTo_tunnel (repr : Value → PyStr) (ts : Turns) (sender instanceId : Id)
    (m : TunnelMessage) : (ts.step repr (.tunnel sender m)).addressedTo instanceId =
      (ts.addressedTo instanceId).map ((turns repr).move (.tunnel sender m)) := by
  simp only [Turns.addressedTo, rows_tunnel, List.filter_map, Function.comp_def, move_instanceId]

theorem keepsOut_iff (repr : Value → PyStr) (instanceId : Id) (ts : Turns) (i : Input) :
    (i.isForeign instanceId = true →
      (ts.step repr i).addressedTo instanceId = ts.addressedTo instanceId) ↔
      KeepsOut instanceId ts i := by
  cases i with
  | tunnel sender m =>
    have hmap : (ts.addressedTo instanceId).map ((turns repr).move (.tunnel sender m)) =
        ts.addressedTo instanceId ↔ ∀ t ∈ ts.addressedTo instanceId, m.frameFor? t.turnId = none := by
      conv_lhs => rhs; rw [← List.map_id (ts.addressedTo instanceId)]
      rw [List.map_inj_left]
      simp only [id, move_tunnel_iff]
    rw [addressedTo_tunnel, hmap, KeepsOut, Input.isForeign, decide_eq_true_eq]
  | schedule turnId requestId instanceId workspaceId targetEntity text hasRow =>
    exact iff_of_true (fun h => by cases h) trivial
  | task turnId step => exact iff_of_true (fun h => by cases h) trivial
  | commit requestId => exact iff_of_true (fun h => by cases h) trivial
  | rollback requestId => exact iff_of_true (fun h => by cases h) trivial

/-- The same turns for the same instances, in whatever state. -/
def SameTurns (ts ts' : Turns) : Prop :=
  ts.rows.map (fun t => (t.turnId, t.instanceId)) = ts'.rows.map fun t => (t.turnId, t.instanceId)

/-- The same turns, and those of the instance in the same state. -/
def Alike (instanceId : Id) (ts ts' : List Turn) : Prop :=
  List.Forall₂ (fun t t' => (t.turnId, t.instanceId) = (t'.turnId, t'.instanceId) ∧
    (t.instanceId = instanceId → t = t')) ts ts'

theorem alike_iff (instanceId : Id) (ts ts' : List Turn) :
    Alike instanceId ts ts' ↔
      ts.map (fun t => (t.turnId, t.instanceId)) = ts'.map (fun t => (t.turnId, t.instanceId)) ∧
      (ts.filter fun t => t.instanceId = instanceId) =
        ts'.filter fun t => t.instanceId = instanceId := by
  constructor
  · intro h
    induction h with
    | nil => exact ⟨rfl, rfl⟩
    | @cons t t' ts ts' ht _ ih =>
      rw [List.map_cons, List.map_cons, ht.1, ih.1]
      refine ⟨rfl, ?_⟩
      have hi : t.instanceId = t'.instanceId := congrArg Prod.snd ht.1
      by_cases hx : t.instanceId = instanceId
      · rw [ht.2 hx, List.filter_cons, List.filter_cons, ih.2]
      · rw [List.filter_cons_of_neg (by simpa using hx),
          List.filter_cons_of_neg (by simpa [← hi] using hx), ih.2]
  · rintro ⟨hmap, hfilter⟩
    induction ts generalizing ts' with
    | nil =>
      rw [List.map_nil, eq_comm, List.map_eq_nil_iff] at hmap
      rw [hmap]
      exact .nil
    | cons t ts ih =>
      obtain ⟨t', ts', rfl, ht, hmap'⟩ := List.map_eq_cons_iff.mp hmap.symm
      have hi : t'.instanceId = t.instanceId := congrArg Prod.snd ht
      by_cases hx : t.instanceId = instanceId
      · rw [List.filter_cons_of_pos (by simpa using hx),
          List.filter_cons_of_pos (by simpa [hi] using hx), List.cons.injEq] at hfilter
        exact .cons ⟨ht.symm, fun _ => hfilter.1⟩ (ih ts' hmap'.symm hfilter.2)
      · rw [List.filter_cons_of_neg (by simpa using hx),
          List.filter_cons_of_neg (by simpa [hi] using hx)] at hfilter
        exact .cons ⟨ht.symm, fun h => absurd h hx⟩ (ih ts' hmap'.symm hfilter)

theorem alike_step (repr : Value → PyStr) {instanceId : Id} {ts ts' : Turns}
    (h : Alike instanceId ts.rows ts'.rows) (i : Input) :
    Alike instanceId (ts.step repr i).rows (ts'.step repr i).rows := by
  have hkeys : ts.rows.map Turn.turnId = ts'.rows.map Turn.turnId := by
    have hids := congrArg (List.map Prod.fst) ((alike_iff _ _ _).mp h).1
    rwa [List.map_map, List.map_map] at hids
  rw [Turns.step, Fleet.step_rows, Fleet.step_rows, Fleet.fresh, Fleet.fresh, hkeys]
  refine List.rel_append ?_ ?_
  · rw [List.forall₂_map_left_iff, List.forall₂_map_right_iff]
    refine h.imp ?_
    rintro t t' ⟨hids, hsame⟩
    rw [move_instanceId, move_instanceId, (turns repr).move_key, (turns repr).move_key]
    exact ⟨hids, fun hx => by rw [hsame hx]⟩
  · exact List.forall₂_same.mpr fun t _ => ⟨rfl, fun _ => rfl⟩

theorem sameTurns_tunnel (repr : Value → PyStr) {ts ts' : Turns} (h : SameTurns ts ts')
    (sender : Id) (m : TunnelMessage) : SameTurns (ts.step repr (.tunnel sender m)) ts' := by
  rw [SameTurns, rows_tunnel, List.map_map, ← h]
  apply List.map_congr_left
  intro t _
  rw [Function.comp_apply, move_instanceId, (turns repr).move_key]

/-- In exactly the runs where no message over a foreign tunnel is a chat frame for a turn of the
instance, such a message leaves these turns as they are, and the turns go through the same states
as if the other tunnels had been silent. -/
theorem isolated_iff (repr : Value → PyStr) (instanceId : Id) (is : List Input) :
    (Run.Meets (Turns.step repr) (fun ts i => i.isForeign instanceId = true →
        (ts.step repr i).addressedTo instanceId = ts.addressedTo instanceId) .empty is ↔
      Run.Meets (Turns.step repr) (KeepsOut instanceId) .empty is) ∧
    (Run.Undisclosed (Turns.step repr) (Input.isForeign instanceId)
        (fun ts => ts.addressedTo instanceId) .empty .empty is ↔
      Run.Meets (Turns.step repr) (KeepsOut instanceId) .empty is) := by
  have hlocal := Run.meets_congr (Turns.step repr) (keepsOut_iff repr instanceId) .empty is
  refine ⟨hlocal, Iff.trans ?_ hlocal⟩
  apply Run.undisclosed_iff (r := SameTurns)
  · intro ts ts' i _ hsame hobs
    have h := (alike_iff instanceId ts.rows ts'.rows).mpr ⟨hsame, hobs⟩
    exact (alike_iff instanceId _ _).mp (alike_step repr h i)
  · intro ts ts' i hi hsame
    cases i with
    | tunnel sender m => exact sameTurns_tunnel repr hsame sender m
    | _ => cases hi
  · rfl
  · rfl

/-- The instance `mallory` answers the turn of another one. -/
def forgedChunk : List Input :=
  [.schedule "t" "r" "i" "w" (py "fox") (py "hi") true,
    .tunnel "mallory" ⟨py "chat.response.chunk", some (.str (py "t")),
      [(py "token", .str (py "lies"))]⟩]

theorem forgedChunk_counts :
    ¬ Run.Meets (Turns.step fun _ => []) (fun ts i => i.isForeign "i" = true →
      (ts.step (fun _ => []) i).addressedTo "i" = ts.addressedTo "i") .empty forgedChunk := by
  intro h
  have hreply := congrArg (List.map Turn.replyText) (h.2.1 rfl)
  exact absurd hreply (by decide)

end Eyot.Composer
