/-! JSON values over a text type: code points in the backend, UTF-16 units in the host and
the portal.  A number is kept as the text it prints as. -/

universe u

namespace Eyot

inductive Json (τ : Type u) : Type u
  | null : Json τ
  | bool : Bool → Json τ
  | num : τ → Json τ
  | str : τ → Json τ
  | arr : List (Json τ) → Json τ
  | obj : List (τ × Json τ) → Json τ

namespace Json

variable {τ : Type u} [DecidableEq τ]

/-- Member access; a missing member and an access on anything but an object give `none`. -/
def get? (k : τ) : Json τ → Option (Json τ)
  | .obj kvs => (kvs.find? fun kv => kv.1 = k).map Prod.snd
  | _ => none

def asStr? : Json τ → Option τ
  | .str s => some s
  | _ => none

mutual
/-- The same value over another text type. -/
def map {τ σ : Type u} (f : τ → σ) : Json τ → Json σ
  | .null => .null
  | .bool b => .bool b
  | .num t => .num (f t)
  | .str s => .str (f s)
  | .arr vs => .arr (mapAll f vs)
  | .obj kvs => .obj (mapMembers f kvs)

def mapAll {τ σ : Type u} (f : τ → σ) : List (Json τ) → List (Json σ)
  | [] => []
  | v :: vs => v.map f :: mapAll f vs

def mapMembers {τ σ : Type u} (f : τ → σ) : List (τ × Json τ) → List (σ × Json σ)
  | [] => []
  | (k, v) :: kvs => (f k, v.map f) :: mapMembers f kvs
end

end Json

end Eyot
