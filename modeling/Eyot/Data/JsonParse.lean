import Eyot.Host.Js

/-! `JSON.parse`, on the UTF-16 units of a text. The members of an object stand in the order they
are written in. -/

namespace Eyot

namespace JsonParse

def unit (c : Char) : UInt16 := c.toNat.toUInt16

def isSpace (u : UInt16) : Bool := u = unit ' ' || u = unit '\t' || u = unit '\n' || u = unit '\r'

def skipSpace (l : Units) : Units := l.dropWhile isSpace

def isDigit (u : UInt16) : Bool := unit '0' ≤ u && u ≤ unit '9'

/-! Strings. -/

def hexValue? (u : UInt16) : Option UInt16 :=
  if isDigit u then some (u - unit '0')
  else if unit 'a' ≤ u && u ≤ unit 'f' then some (u - unit 'a' + 10)
  else if unit 'A' ≤ u && u ≤ unit 'F' then some (u - unit 'A' + 10)
  else none

def escapes : List (UInt16 × UInt16) :=
  [(unit '"', unit '"'), (unit '\\', unit '\\'), (unit '/', unit '/'), (unit 'b', 8),
    (unit 'f', 12), (unit 'n', 10), (unit 'r', 13), (unit 't', 9)]

/-- A string behind its opening quote, and what comes after it. -/
def readString : Units → Option (Units × Units)
  | [] => none
  | u :: l =>
    if u = unit '"' then some ([], l)
    else if u = unit '\\' then
      match l with
      | [] => none
      | e :: l =>
        if e = unit 'u' then
          match l with
          | a :: b :: c :: d :: l => do
            let v := ((← hexValue? a) * 16 + (← hexValue? b)) * 256 + (← hexValue? c) * 16 +
              (← hexValue? d)
            (readString l).map fun r => (v :: r.1, r.2)
          | _ => none
        else do
          let v ← escapes.lookup e
          (readString l).map fun r => (v :: r.1, r.2)
    else if u < unit ' ' then none
    else (readString l).map fun r => (u :: r.1, r.2)

/-! Numerals. -/

def isNumeralUnit (u : UInt16) : Bool := isDigit u || (units "+-.Ee").contains u

def isExponent : Units → Bool
  | [] => true
  | u :: l =>
    let digits := if l.head? = some (unit '+') || l.head? = some (unit '-') then l.tail else l
    (u = unit 'e' || u = unit 'E') && digits ≠ [] && digits.all isDigit

def isFraction : Units → Bool
  | [] => true
  | u :: l =>
    if u = unit '.' then l.takeWhile isDigit ≠ [] && isExponent (l.dropWhile isDigit)
    else isExponent (u :: l)

def isNumeral (t : Units) : Bool :=
  let t := if t.head? = some (unit '-') then t.tail else t
  let int := t.takeWhile isDigit
  int ≠ [] && (int.head? ≠ some (unit '0') || int.length = 1) && isFraction (t.dropWhile isDigit)

/-! Values. -/

section Values

open Host (Value)

-- What the number of a numeral prints as.
variable (number : Units → Units)

def readScalar (l : Units) : Option (Value × Units) :=
  if portalText.startsWith "null" l then some (.null, l.drop 4)
  else if portalText.startsWith "true" l then some (.bool true, l.drop 4)
  else if portalText.startsWith "false" l then some (.bool false, l.drop 5)
  else
    let t := l.takeWhile isNumeralUnit
    if isNumeral t then some (.num (number t), l.drop t.length) else none

/-- A later member takes the place of an earlier one with its key. -/
def put (kvs : List (Units × Value)) (kv : Units × Value) : List (Units × Value) :=
  if kvs.any fun m => m.1 = kv.1 then kvs.map fun m => if m.1 = kv.1 then kv else m
  else kvs ++ [kv]

mutual
/-- A value at the head of a text, and what comes after it. -/
def readValue : Nat → Units → Option (Value × Units)
  | 0, _ => none
  | n + 1, l =>
    match skipSpace l with
    | [] => none
    | u :: l =>
      if u = unit '"' then (readString l).map fun r => (.str r.1, r.2)
      else if u = unit '[' then
        if (skipSpace l).head? = some (unit ']') then some (.arr [], (skipSpace l).tail)
        else (readItems n l).map fun r => (.arr r.1, r.2)
      else if u = unit '\x7b' then
        if (skipSpace l).head? = some (unit '\x7d') then some (.obj [], (skipSpace l).tail)
        else (readMembers n l).map fun r => (.obj (r.1.foldl put []), r.2)
      else readScalar number (u :: l)

def readItems : Nat → Units → Option (List Value × Units)
  | 0, _ => none
  | n + 1, l => do
    let (v, l) ← readValue n l
    match skipSpace l with
    | [] => none
    | u :: l =>
      if u = unit ',' then (readItems n l).map fun r => (v :: r.1, r.2)
      else if u = unit ']' then some ([v], l)
      else none

def readMembers : Nat → Units → Option (List (Units × Value) × Units)
  | 0, _ => none
  | n + 1, l =>
    match skipSpace l with
    | [] => none
    | q :: l =>
      if q = unit '"' then do
        let (k, l) ← readString l
        match skipSpace l with
        | [] => none
        | c :: l =>
          if c = unit ':' then do
            let (v, l) ← readValue n l
            match skipSpace l with
            | [] => none
            | u :: l =>
              if u = unit ',' then (readMembers n l).map fun r => ((k, v) :: r.1, r.2)
              else if u = unit '\x7d' then some ([(k, v)], l)
              else none
          else none
      else none
end

/-- No value is nested deeper than its text is long. -/
def parse (l : Units) : Option Value :=
  (readValue number (2 * (skipSpace l).length + 1) (skipSpace l)).bind fun r =>
    if (skipSpace r.2).isEmpty then some r.1 else none

end Values

example : (parse id (units " \x7b\"a\" : [1, true, \"\\u000A\"], \"a\": null\x7d\r")).map
    Host.stringify = some (units "\x7b\"a\":null\x7d") := by
  decide +kernel

end JsonParse

end Eyot
