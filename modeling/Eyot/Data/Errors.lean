/-! The structured errors of the API, and what else can end a request. -/

namespace Eyot

structure EyotError where
  errorCode : String
  messageKey : String
  message : String
  statusCode : Nat
  details : List (String × Nat)
  deriving DecidableEq

def NotFoundError (errorCode messageKey message : String) : EyotError :=
  ⟨errorCode, messageKey, message, 404, []⟩

def ConflictError (errorCode messageKey message : String) : EyotError :=
  ⟨errorCode, messageKey, message, 409, []⟩

def ValidationError (errorCode messageKey message : String) : EyotError :=
  ⟨errorCode, messageKey, message, 422, []⟩

def ForbiddenError (errorCode messageKey message : String) : EyotError :=
  ⟨errorCode, messageKey, message, 403, []⟩

def InternalError (errorCode messageKey message : String) : EyotError :=
  ⟨errorCode, messageKey, message, 500, []⟩

/-- An API error, or an error of the database layer that no handler catches. -/
inductive Failure where
  | eyot (e : EyotError)
  | integrityError
  | connectionLost
  | multipleResultsFound
  deriving DecidableEq

/-- A guard is passed when its test fails. -/
theorem guard_eq_ok {ε α : Type} {p : Prop} [Decidable p] {e : ε} {x : Except ε α} {a : α} :
    (if p then .error e else x) = .ok a ↔ ¬p ∧ x = .ok a := by
  by_cases hp : p <;> simp [hp]

/-- A step that succeeds is followed by the rest. -/
theorem bind_eq_of_ok {ε α β : Type} {x : Except ε α} {a : α} {f : α → Except ε β}
    {y : Except ε β} (hx : x = .ok a) (hf : f a = y) : (x >>= f) = y := by
  subst hx
  exact hf

theorem mapError_eq_ok {ε ε' α : Type} {f : ε → ε'} {x : Except ε α} {a : α} :
    x.mapError f = .ok a ↔ x = .ok a := by
  cases x with
  | error e => exact iff_of_false (fun h => by cases h) fun h => by cases h
  | ok b =>
    exact ⟨fun h => congrArg _ (Except.ok.inj h), fun h => congrArg _ (Except.ok.inj h)⟩

end Eyot
