import Eyot.Composer.Turn
import Eyot.Host.Streaming
import Eyot.Library.Lossy

/-! The frames of a host as the hub reads them, on a tunnel that may lose chunks. -/

namespace Eyot.Composer

open PyStr (decode)
open Host (ActivityKind ActivityStatus tokensOf)

def textValue (s : Units) : Value := .str (decode s)

def activityKind : ActivityKind → String
  | .thinking => "thinking"
  | .toolUse => "tool_use"

def activityStatus : ActivityStatus → String
  | .start => "start"
  | .delta => "delta"
  | .finish => "end"

def frameType : Host.Frame → FrameType
  | .chunk .. => .chunk
  | .activity .. => .activity
  | .done .. => .done
  | .error .. => .error

/-- A member that `JSON.stringify` leaves out when it is undefined. -/
def unlessUndefined (key : String) (v : Option Value) : List (PyStr × Value) :=
  (v.map (py key, ·)).toList

/-- The payload of a frame; members that are undefined are not written. -/
def payload : Host.Frame → List (PyStr × Value)
  | .chunk turnId token targetEntity =>
    [(py "turn_id", textValue turnId), (py "token", textValue token),
      (py "status", .str (py "responding"))] ++
      unlessUndefined "target_entity" (targetEntity.map textValue)
  | .activity turnId kind status toolName delta targetEntity =>
    [(py "turn_id", textValue turnId), (py "kind", .str (py (activityKind kind))),
      (py "status", .str (py (activityStatus status)))] ++
      unlessUndefined "tool_name" (toolName.map (Json.map decode)) ++
      unlessUndefined "delta" (delta.map textValue) ++
      unlessUndefined "target_entity" (targetEntity.map textValue)
  | .done turnId targetEntity text =>
    [(py "turn_id", textValue turnId), (py "status", .str (py "completed"))] ++
      unlessUndefined "target_entity" (targetEntity.map textValue) ++
      [(py "text", textValue text)]
  | .error turnId message targetEntity =>
    [(py "turn_id", textValue turnId), (py "message", textValue message),
      (py "status", .str (py "failed"))] ++
      unlessUndefined "target_entity" (targetEntity.map textValue)

def wire (f : Host.Frame) : TunnelMessage :=
  ⟨py (frameType f).value, some (textValue f.turnId), payload f⟩

/-- What arrives, where `lost k` says that the chunk with number `k` does not. -/
def transmit : (Nat → Bool) → List Host.Frame → List Host.Frame
  | _, [] => []
  | lost, .chunk turnId token targetEntity :: fs =>
    if lost 0 then transmit (fun k => lost (k + 1)) fs
    else .chunk turnId token targetEntity :: transmit (fun k => lost (k + 1)) fs
  | lost, f :: fs => f :: transmit lost fs

theorem find_frameType (type : FrameType) :
    [FrameType.chunk, .done, .error, .activity].find? (fun t => py t.value = py type.value) =
      some type := by
  cases type with
  | _ => decide +kernel

theorem decode_eq_nil {s : Units} : decode s = [] ↔ s = [] :=
  ⟨fun h => PyStr.decode_injective h, congrArg decode⟩

theorem whenTrue_textValue (s : Units) :
    whenTrue (some (textValue s)) = if s = [] then none else some (textValue s) := by
  by_cases h : s = [] <;> simp [whenTrue, textValue, truthy, decode_eq_nil, h]

theorem get?_turnId (f : Host.Frame) : (wire f).get? "turn_id" = some (textValue f.turnId) := by
  cases f with
  | _ => rfl

theorem namedTurn_wire (f : Host.Frame) :
    (wire f).namedTurn = if f.turnId = [] then none else some (decode f.turnId) := by
  rw [TunnelMessage.namedTurn, get?_turnId, wire, whenTrue_textValue]
  split <;> rfl

/-- An identifier of the host is one, and the turn has the same. -/
def Names (hostId : Units) (turnId : Id) : Prop := hostId ≠ [] ∧ py turnId = decode hostId

instance (hostId : Units) (turnId : Id) : Decidable (Names hostId turnId) :=
  inferInstanceAs (Decidable (_ ∧ _))

theorem frameFor?_wire (f : Host.Frame) (turnId : Id) : (wire f).frameFor? turnId =
    if Names f.turnId turnId then some ((wire f).hostFrame (frameType f)) else none := by
  have htype : (wire f).frameType? = some (frameType f) := find_frameType _
  rw [TunnelMessage.frameFor?, TunnelMessage.chatFrame?, htype, namedTurn_wire]
  by_cases hne : f.turnId = []
  · simp [Names, hne]
  · by_cases hid : py turnId = decode f.turnId <;> simp [Names, hne, hid]

/-- A frame is handed to a turn exactly if it names the turn. -/
theorem names_iff {f : Host.Frame} {turnId : Id} :
    (wire f).frameFor? turnId ≠ none ↔ Names f.turnId turnId := by
  rw [frameFor?_wire]
  split <;> simp [*]

theorem tokensOf_transmit (lost : Nat → Bool) (fs : List Host.Frame) :
    tokensOf (transmit lost fs) = Lossy.kept lost (tokensOf fs) := by
  induction fs generalizing lost with
  | nil => rfl
  | cons f fs ih =>
    cases f with
    | chunk turnId token targetEntity =>
      have hcons : tokensOf (.chunk turnId token targetEntity :: fs) = token :: tokensOf fs := rfl
      rw [hcons, Lossy.kept, transmit]
      split
      · exact ih _
      · exact congrArg (token :: ·) (ih _)
    | _ => exact ih lost

/-- Only chunks are lost, so that the last frame of a run comes through. -/
theorem transmit_append_terminal (lost : Nat → Bool) (fs : List Host.Frame) {last : Host.Frame}
    (h : last.isTerminal = true) : transmit lost (fs ++ [last]) = transmit lost fs ++ [last] := by
  induction fs generalizing lost with
  | nil =>
    cases last with
    | chunk _ _ _ => cases h
    | _ => rfl
  | cons f fs ih =>
    cases f with
    | chunk turnId token targetEntity =>
      rw [List.cons_append, transmit, transmit]
      split
      · exact ih _
      · exact congrArg (_ :: ·) (ih _)
    | _ => exact congrArg (_ :: ·) (ih lost)

theorem transmit_sublist (lost : Nat → Bool) (fs : List Host.Frame) :
    (transmit lost fs).Sublist fs := by
  induction fs generalizing lost with
  | nil => exact .slnil
  | cons f fs ih =>
    cases f with
    | chunk turnId token targetEntity =>
      rw [transmit]
      split
      · exact (ih _).cons _
      · exact (ih _).cons_cons _
    | _ => exact (ih lost).cons_cons _

end Eyot.Composer
