import Eyot.Data.Json
import Eyot.Data.Text

/-! The texts JavaScript makes of a parsed JSON value.  The members of an object stand in the
order it enumerates them. -/

namespace Eyot

/-- A JavaScript text, by its UTF-16 units. -/
abbrev Units := List UInt16

def units (s : String) : Units := portalText.text s

def Json.member (key : String) (v : Json Units) : Option (Json Units) := v.get? (units key)

namespace Host

abbrev Value := Json Units

/-- What is left of a value after `??`. -/
def present : Option Value → Option Value
  | some .null => none
  | v => v

def str? (v : Option Value) : Option Units := v.bind Json.asStr?

def truthy : Option Value → Bool
  | none | some .null => false
  | some (.bool b) => b
  | some (.num t) => t ≠ units "0"
  | some (.str s) => s ≠ []
  | some (.arr _) | some (.obj _) => true

mutual
/-- `String(v)`; an object whose `toString` is shadowed has no primitive value. -/
def toStr : Value → Option Units
  | .null => some (units "null")
  | .bool b => some (units (if b then "true" else "false"))
  | .num t => some t
  | .str s => some s
  | .arr vs => (toStrs vs).map (units ",").intercalate
  | .obj kvs =>
    if kvs.any fun kv => kv.1 = units "toString" then none else some (units "[object Object]")

def toStrs : List Value → Option (List Units)
  | [] => some []
  | .null :: vs => (toStrs vs).map ([] :: ·)
  | v :: vs => do return (← toStr v) :: (← toStrs vs)
end

def hexDigit (n : UInt16) : UInt16 := if n < 10 then 48 + n else 87 + n

def hexEscape (u : UInt16) : Units :=
  units "\\u" ++ [hexDigit (u >>> 12), hexDigit (u >>> 8 &&& 15), hexDigit (u >>> 4 &&& 15),
    hexDigit (u &&& 15)]

def isHighSurrogate (u : UInt16) : Bool := 0xD800 ≤ u && u < 0xDC00

def isLowSurrogate (u : UInt16) : Bool := 0xDC00 ≤ u && u < 0xE000

def quoteUnit (u : UInt16) : Units :=
  if u = 8 then units "\\b"
  else if u = 9 then units "\\t"
  else if u = 10 then units "\\n"
  else if u = 12 then units "\\f"
  else if u = 13 then units "\\r"
  else if u = 34 then units "\\\""
  else if u = 92 then units "\\\\"
  else if u < 32 || isHighSurrogate u || isLowSurrogate u then hexEscape u
  else [u]

def quoteUnits : Units → Units
  | [] => []
  | [u] => quoteUnit u
  | u :: v :: rest =>
    if isHighSurrogate u && isLowSurrogate v then u :: v :: quoteUnits rest
    else quoteUnit u ++ quoteUnits (v :: rest)

def quote (s : Units) : Units := units "\"" ++ quoteUnits s ++ units "\""

mutual
/-- `JSON.stringify(v)`. -/
def stringify : Value → Units
  | .null => units "null"
  | .bool b => units (if b then "true" else "false")
  | .num t => t
  | .str s => quote s
  | .arr vs => units "[" ++ (units ",").intercalate (stringifyAll vs) ++ units "]"
  | .obj kvs => units "\x7b" ++ (units ",").intercalate (stringifyMembers kvs) ++ units "\x7d"

def stringifyAll : List Value → List Units
  | [] => []
  | v :: vs => stringify v :: stringifyAll vs

def stringifyMembers : List (Units × Value) → List Units
  | [] => []
  | (k, v) :: kvs => (quote k ++ units ":" ++ stringify v) :: stringifyMembers kvs
end

example : stringify (.arr [.null, .str (units "a\"")]) = units "[null,\"a\\\"\"]" := by
  decide +kernel

end Host

end Eyot
