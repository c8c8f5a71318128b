import Mathlib.Data.List.Basic

/-! Base64 with the alphabet for URLs. The decoder is a lenient one, as Python's is by default: it
skips what is no character of the alphabet, and looks at the padding only where it has to. -/

namespace Eyot.Base64

def alphabet : List Char :=
  "ABCDEFGHIJKLMNOPQRSTUVWXYZabcdefghijklmnopqrstuvwxyz0123456789-_".toList

def sextet (v : Nat) : Char := alphabet.getD v 'A'

def encode : List UInt8 → List Char
  | [] => []
  | [a] => [sextet (a.toNat / 4), sextet (a.toNat % 4 * 16), '=', '=']
  | [a, b] =>
    [sextet (a.toNat / 4), sextet (a.toNat % 4 * 16 + b.toNat / 16), sextet (b.toNat % 16 * 4), '=']
  | a :: b :: c :: bytes =>
    sextet (a.toNat / 4) :: sextet (a.toNat % 4 * 16 + b.toNat / 16) ::
      sextet (b.toNat % 16 * 4 + c.toNat / 64) :: sextet (c.toNat % 64) :: encode bytes

/-- The characters of either alphabet are known. -/
def value? (c : Char) : Option Nat :=
  if c = '+' then some 62
  else if c = '/' then some 63
  else alphabet.idxOf? c

/-- The bytes of two, three or four sextets. -/
def bytesOf : List Nat → List UInt8
  | [v, w] => [UInt8.ofNat (v * 4 + w / 16)]
  | [v, w, x] => [UInt8.ofNat (v * 4 + w / 16), UInt8.ofNat (w % 16 * 16 + x / 4)]
  | [v, w, x, y] =>
    [UInt8.ofNat (v * 4 + w / 16), UInt8.ofNat (w % 16 * 16 + x / 4), UInt8.ofNat (x % 4 * 64 + y)]
  | _ => []

/-- `quad` holds the sextets since the last full group, `pads` counts the padding since the last
of them. -/
def decodeFrom (quad : List Nat) (pads : Nat) : List Char → Option (List UInt8)
  | [] => if quad.isEmpty then some [] else none
  | c :: text =>
    if c = '=' then
      if 2 ≤ quad.length then
        if 4 ≤ quad.length + (pads + 1) then some (bytesOf quad)
        else decodeFrom quad (pads + 1) text
      else decodeFrom quad pads text
    else
      match value? c with
      | none => decodeFrom quad pads text
      | some v =>
        if quad.length = 3 then (decodeFrom [] 0 text).map (bytesOf (quad ++ [v]) ++ ·)
        else decodeFrom (quad ++ [v]) 0 text

def decode (text : List Char) : Option (List UInt8) := decodeFrom [] 0 text

theorem value?_sextet {v : Nat} (h : v < 64) : value? (sextet v) = some v := by
  have hall : ∀ v : Fin 64, value? (sextet v) = some v.val := by decide +kernel
  exact hall ⟨v, h⟩

theorem sextet_ne_pad {v : Nat} (h : v < 64) : sextet v ≠ '=' := by
  have hall : ∀ v : Fin 64, sextet v.val ≠ '=' := by decide +kernel
  exact hall ⟨v, h⟩

theorem decodeFrom_sextet {quad : List Nat} {pads v : Nat} (hv : v < 64) (text : List Char) :
    decodeFrom quad pads (sextet v :: text) =
      if quad.length = 3 then (decodeFrom [] 0 text).map (bytesOf (quad ++ [v]) ++ ·)
      else decodeFrom (quad ++ [v]) 0 text := by
  rw [decodeFrom, if_neg (sextet_ne_pad hv), value?_sextet hv]

theorem ofNat_eq {n : Nat} {a : UInt8} (h : n = a.toNat) : UInt8.ofNat n = a := by
  rw [h, UInt8.ofNat_toNat]

theorem decode_encode (bytes : List UInt8) : decode (encode bytes) = some bytes := by
  induction bytes using encode.induct with
  | case1 => rfl
  | case2 a =>
    have ha := a.toNat_lt
    rw [encode, decode, decodeFrom_sextet (by omega), if_neg (by decide),
      decodeFrom_sextet (by omega), if_neg (by simp)]
    simp only [decodeFrom, List.nil_append, List.cons_append, List.length_cons, List.length_nil,
      bytesOf]
    exact congrArg (fun a => some [a]) (ofNat_eq (by omega))
  | case3 a b =>
    have ha := a.toNat_lt
    have hb := b.toNat_lt
    rw [encode, decode, decodeFrom_sextet (by omega), if_neg (by decide),
      decodeFrom_sextet (by omega), if_neg (by simp), decodeFrom_sextet (by omega),
      if_neg (by simp)]
    simp only [decodeFrom, List.nil_append, List.cons_append, List.length_cons, List.length_nil,
      bytesOf]
    exact congrArg₂ (fun a b => some [a, b]) (ofNat_eq (by omega)) (ofNat_eq (by omega))
  | case4 a b c bytes ih =>
    have ha := a.toNat_lt
    have hb := b.toNat_lt
    have hc := c.toNat_lt
    rw [decode] at ih
    rw [encode, decode, decodeFrom_sextet (by omega), if_neg (by decide),
      decodeFrom_sextet (by omega), if_neg (by simp), decodeFrom_sextet (by omega),
      if_neg (by simp), decodeFrom_sextet (by omega), if_pos (by simp), ih]
    simp only [List.nil_append, List.cons_append, bytesOf, Option.map_some]
    rw [ofNat_eq (a := a) (by omega), ofNat_eq (a := b) (by omega), ofNat_eq (a := c) (by omega)]

/-! Texts without padding. -/

/-- A text that leaves a group open is refused. -/
theorem decodeFrom_eq_none {text : List Char} {quad : List Nat} {pads : Nat}
    (hpad : '=' ∉ text) (hquad : quad.length < 4)
    (hlen : (quad.length + (text.filterMap value?).length) % 4 ≠ 0) :
    decodeFrom quad pads text = none := by
  induction text generalizing quad pads with
  | nil =>
    rw [decodeFrom, if_neg]
    rw [List.isEmpty_iff]
    rintro rfl
    simp at hlen
  | cons c text ih =>
    rw [List.mem_cons, not_or] at hpad
    rw [decodeFrom, if_neg (Ne.symm hpad.1)]
    cases hv : value? c with
    | none =>
      rw [List.filterMap_cons_none hv] at hlen
      exact ih hpad.2 hquad hlen
    | some v =>
      rw [List.filterMap_cons_some hv, List.length_cons] at hlen
      dsimp only
      split
      · rename_i h3
        rw [ih hpad.2 (by simp) (by simp only [List.length_nil]; omega)]
        rfl
      · refine ih hpad.2 ?_ ?_
        · rw [List.length_append, List.length_singleton]
          omega
        · rw [List.length_append, List.length_singleton]
          omega

end Eyot.Base64
