import Eyot.Data.JsonParse
import Eyot.Data.PyStr
import Eyot.Library.Dict

/-! `json.loads` of Python, on the code points of a text. -/

namespace Eyot.PyJson

inductive LoadsError where
  | valueError
  | recursionError
  deriving DecidableEq

def isWhitespace (c : PyChar) : Bool :=
  pyText.is ' ' c || pyText.is '\t' c || pyText.is '\n' c || pyText.is '\r' c

def skip (l : PyStr) : PyStr := l.dropWhile isWhitespace

/-! Strings. -/

def hexValue? (c : PyChar) : Option Nat :=
  if pyText.isDigit c then some (c.val - 48)
  else if 97 ≤ c.val && c.val ≤ 102 then some (c.val - 87)
  else if 65 ≤ c.val && c.val ≤ 70 then some (c.val - 55)
  else none

def BACKSLASH : List (Char × Nat) :=
  [('"', 34), ('\\', 92), ('/', 47), ('b', 8), ('f', 12), ('n', 10), ('r', 13), ('t', 9)]

/-- A code point of a string, and whether it was written as `\uXXXX`. -/
abbrev Piece := Bool × PyChar

/-- A string behind its opening quote, and what comes after it. -/
def readPieces : PyStr → Option (List Piece × PyStr)
  | [] => none
  | c :: l =>
    if pyText.is '"' c then some ([], l)
    else if pyText.is '\\' c then
      match l with
      | [] => none
      | e :: l =>
        if pyText.is 'u' e then
          match l with
          | p :: q :: r :: s :: l => do
            let v := (((← hexValue? p) * 16 + (← hexValue? q)) * 16 + (← hexValue? r)) * 16 +
              (← hexValue? s)
            (readPieces l).map fun t => ((true, Fin.ofNat 0x110000 v) :: t.1, t.2)
          | _ => none
        else do
          let v ← BACKSLASH.find? fun b => pyText.is b.1 e
          (readPieces l).map fun t => ((false, Fin.ofNat 0x110000 v.2) :: t.1, t.2)
    else if c.val < 32 then none
    else (readPieces l).map fun t => ((false, c) :: t.1, t.2)

def isHigh (c : PyChar) : Bool := 0xD800 ≤ c.val && c.val < 0xDC00

def isLow (c : PyChar) : Bool := 0xDC00 ≤ c.val && c.val < 0xE000

/-- Two escapes that make a surrogate pair are one code point. -/
def joinPairs : List Piece → PyStr
  | (true, c) :: (true, d) :: l =>
    if isHigh c && isLow d then
      Fin.ofNat 0x110000 (0x10000 + (c.val - 0xD800) * 0x400 + (d.val - 0xDC00)) :: joinPairs l
    else c :: joinPairs ((true, d) :: l)
  | (_, c) :: l => c :: joinPairs l
  | [] => []

def readString (l : PyStr) : Option (PyStr × PyStr) :=
  (readPieces l).map fun t => (joinPairs t.1, t.2)

/-! Scalars. -/

def isNumeralChar (c : PyChar) : Bool :=
  pyText.isDigit c || "+-.Ee".toList.any fun a => pyText.is a c

def isNumeral (t : PyStr) : Bool := JsonParse.isNumeral (PyStr.encode t)

/-- `int` takes no more digits, and raises a `ValueError`. -/
def MAX_STR_DIGITS : Nat := 4300

def isTooLong (t : PyStr) : Bool :=
  (t.all fun c => pyText.isDigit c || pyText.is '-' c) &&
    MAX_STR_DIGITS < t.countP pyText.isDigit

/-- The words that stand for a value; the last three are no JSON. -/
def WORDS : List (String × Json PyStr) :=
  [("null", .null), ("true", .bool true), ("false", .bool false), ("NaN", .num (py "NaN")),
    ("Infinity", .num (py "Infinity")), ("-Infinity", .num (py "-Infinity"))]

def readScalar (l : PyStr) : Option (Json PyStr × PyStr) :=
  match WORDS.find? fun w => pyText.startsWith w.1 l with
  | some w => some (w.2, l.drop w.1.length)
  | none =>
    let t := l.takeWhile isNumeralChar
    if isNumeral t && !isTooLong t then some (.num t, l.drop t.length) else none

/-! Values. -/

def orValueError {α : Type} : Option α → Except LoadsError α
  | some r => .ok r
  | none => .error .valueError

mutual
/-- A value at the head of a text, and what comes after it.  `depth` says how many brackets the
interpreter can still open inside each other. -/
def readValue : Nat → Nat → PyStr → Except LoadsError (Json PyStr × PyStr)
  | 0, _, _ => .error .valueError
  | n + 1, depth, l =>
    match skip l with
    | [] => .error .valueError
    | c :: l =>
      if pyText.is '"' c then orValueError ((readString l).map fun r => (.str r.1, r.2))
      else if pyText.is '[' c then
        match depth with
        | 0 => .error .recursionError
        | depth + 1 =>
          if (skip l).head?.any (pyText.is ']') then .ok (.arr [], (skip l).tail)
          else (readItems n depth l).map fun r => (.arr r.1, r.2)
      else if pyText.is '\x7b' c then
        match depth with
        | 0 => .error .recursionError
        | depth + 1 =>
          if (skip l).head?.any (pyText.is '\x7d') then .ok (.obj [], (skip l).tail)
          else (readMembers n depth l).map fun r => (.obj (Dict.update [] r.1), r.2)
      else orValueError (readScalar (c :: l))

def readItems : Nat → Nat → PyStr → Except LoadsError (List (Json PyStr) × PyStr)
  | 0, _, _ => .error .valueError
  | n + 1, depth, l => do
    let (v, l) ← readValue n depth l
    match skip l with
    | [] => .error .valueError
    | c :: l =>
      if pyText.is ',' c then (readItems n depth l).map fun r => (v :: r.1, r.2)
      else if pyText.is ']' c then .ok ([v], l)
      else .error .valueError

def readMembers : Nat → Nat → PyStr → Except LoadsError (List (PyStr × Json PyStr) × PyStr)
  | 0, _, _ => .error .valueError
  | n + 1, depth, l =>
    match skip l with
    | [] => .error .valueError
    | q :: l =>
      if pyText.is '"' q then do
        let (k, l) ← orValueError (readString l)
        match skip l with
        | [] => .error .valueError
        | c :: l =>
          if pyText.is ':' c then do
            let (v, l) ← readValue n depth l
            match skip l with
            | [] => .error .valueError
            | c :: l =>
              if pyText.is ',' c then (readMembers n depth l).map fun r => ((k, v) :: r.1, r.2)
              else if pyText.is '\x7d' c then .ok ([(k, v)], l)
              else .error .valueError
          else .error .valueError
      else .error .valueError
end

/-- No value is nested deeper than its text is long. -/
def loads (depth : Nat) (l : PyStr) : Except LoadsError (Json PyStr) := do
  let (v, l) ← readValue (2 * l.length + 1) depth l
  if (skip l).isEmpty then return v else .error .valueError

example : (loads 1 (py "[[]")) matches .error .recursionError := by decide +kernel

example : (loads 2 (py "[[]")) matches .error .valueError := by decide +kernel

end Eyot.PyJson
