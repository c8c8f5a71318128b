import Eyot.Library.Scan

/-! The two alphabets the slash protocol is read in: code points in the backend, UTF-16 units
in the portal, each with the white space of its language. -/

namespace Eyot

open Scan

/-- A Python text, by its code points. -/
abbrev Str := List Char

/-- `str.isspace`, which `strip`, `split` and `\s` of `re` go by. -/
def isPythonSpace (n : Nat) : Bool :=
  9 ≤ n && n ≤ 13 || 28 ≤ n && n ≤ 32 || n = 0x85 || n = 0xA0 || n = 0x1680 ||
    0x2000 ≤ n && n ≤ 0x200A || n = 0x2028 || n = 0x2029 || n = 0x202F || n = 0x205F || n = 0x3000

/-- The white space of ECMAScript, which `trim` and `\s` go by. -/
def isEcmaSpace (n : Nat) : Bool :=
  9 ≤ n && n ≤ 13 || n = 32 || n = 0xA0 || n = 0x1680 ||
    0x2000 ≤ n && n ≤ 0x200A || n = 0x2028 || n = 0x2029 || n = 0x202F || n = 0x205F ||
    n = 0x3000 || n = 0xFEFF

structure Alphabet (α : Type) where
  code : α → Nat
  ofAscii : Char → α
  isSpace : α → Bool
  code_inj : ∀ {a b}, code a = code b → a = b
  code_ofAscii : ∀ c : Char, c.toNat < 128 → code (ofAscii c) = c.toNat
  isSpace_newline : ∀ {a}, code a = 10 → isSpace a = true
  isSpace_visible : ∀ {a}, 33 ≤ code a → code a ≤ 126 → isSpace a = false

def pythonText : Alphabet Char where
  code := Char.toNat
  ofAscii c := c
  isSpace c := isPythonSpace c.toNat
  code_inj h := Char.toNat_inj.mp h
  code_ofAscii _ _ := rfl
  isSpace_newline h := by simp [isPythonSpace, h]
  isSpace_visible h₁ h₂ := by
    simp only [isPythonSpace, Bool.or_eq_false_iff, Bool.and_eq_false_iff, decide_eq_false_iff_not]
    omega

def portalText : Alphabet UInt16 where
  code := UInt16.toNat
  ofAscii c := c.toNat.toUInt16
  isSpace u := isEcmaSpace u.toNat
  code_inj h := UInt16.toNat_inj.mp h
  code_ofAscii c h := by
    rw [Nat.toUInt16, UInt16.toNat_ofNat', Nat.mod_eq_of_lt (by omega)]
  isSpace_newline h := by simp [isEcmaSpace, h]
  isSpace_visible h₁ h₂ := by
    simp only [isEcmaSpace, Bool.or_eq_false_iff, Bool.and_eq_false_iff, decide_eq_false_iff_not]
    omega

namespace Alphabet

variable {α : Type} (A : Alphabet α)

def is (c : Char) (a : α) : Bool := A.code a = c.toNat

def text (s : String) : List α := s.toList.map A.ofAscii

def reads (s : String) (l : List α) : Bool := l.map A.code = s.toList.map Char.toNat

def startsWith (s : String) (l : List α) : Bool := A.reads s (l.take s.length)

def isLower (a : α) : Bool := 97 ≤ A.code a && A.code a ≤ 122

def isDigit (a : α) : Bool := 48 ≤ A.code a && A.code a ≤ 57

def isUpper (a : α) : Bool := 65 ≤ A.code a && A.code a ≤ 90

def strip (l : List α) : List α := Scan.strip A.isSpace l

/-- `split` on white space, empty pieces left out. -/
def words (l : List α) : List (List α) := Scan.words A.isSpace l

def lines (l : List α) : List (List α) := l.splitOnP (A.is '\n')

def join (separator : String) (ls : List (List α)) : List α := (A.text separator).intercalate ls

variable {A}

theorem startsWith_length {s : String} {l : List α} (h : A.startsWith s l = true) :
    s.length ≤ l.length := by
  have hlen := congrArg List.length (of_decide_eq_true h)
  simp only [List.length_map, List.length_take, String.length_toList] at hlen
  omega

end Alphabet

end Eyot
