import Eyot.Routing.Content

/-! A message that is routed and then not committed: what the rollback does not undo. -/

namespace Eyot.Routing

open Slash (Directive)
open Traced

/-- What `send_message` has done when it fails: while it routes the directive with the number
`n`, after `k` effects in all, or in the commit if there is no such directive. -/
def failedSend (env : Nat → Surroundings) (distill : Distiller) (db : Db) (rawText : Str)
    (workspaceId fromUserId : Id) (n k : Nat) : List Effect :=
  let turn := Slash.Backend.parseTurn pythonText rawText
  match findSender db workspaceId fromUserId with
  | none => []
  | some sender =>
    (Traced.mapAccum (routeDirective env distill workspaceId fromUserId sender.id turn.generalText)
      (0, db) (turn.directives.take (n + 1))).log.take k

/-- Where all directives have been routed it is the whole routing that the commit leaves alone. -/
theorem failedSend_commit (env : Nat → Surroundings) (distill : Distiller) (db : Db) (rawText : Str)
    (workspaceId fromUserId : Id) {n : Nat}
    (h : (Slash.Backend.parseTurn pythonText rawText).directives.length ≤ n + 1) (k : Nat) :
    failedSend env distill db rawText workspaceId fromUserId n k =
      (routeTurn env distill db rawText workspaceId fromUserId).log.take k := by
  unfold failedSend routeTurn
  dsimp only
  cases findSender db workspaceId fromUserId with
  | none => exact List.take_nil.symm
  | some sender => rw [List.take_of_length_le h]

/-! One instance. -/

section RouteDirective

variable (env : Surroundings) (db : Db) (fromMembershipId workspaceId : Id)
  (directive : Directive Char) (generalText : Option Str)

end RouteDirective

end Eyot.Routing
