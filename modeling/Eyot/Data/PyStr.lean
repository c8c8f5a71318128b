import Eyot.Host.Js

/-! Python texts that came over the wire. A text of the host may hold half a surrogate pair, so
these are sequences of code points that need be no characters. -/

namespace Eyot

open Host (isHighSurrogate isLowSurrogate)

abbrev PyChar := Fin 0x110000

abbrev PyStr := List PyChar

theorem PyChar.toNat_inj {c d : PyChar} (h : c.val = d.val) : c = d := Fin.ext h

theorem PyChar.val_ofNat (c : Char) (h : c.toNat < 128) : (Fin.ofNat 0x110000 c.toNat).val = c.toNat :=
  Nat.mod_eq_of_lt (by omega)

theorem isPythonSpace_newline {c : PyChar} (h : c.val = 10) : isPythonSpace c.val = true :=
  congrArg isPythonSpace h

theorem isPythonSpace_visible {c : PyChar} (hlo : 33 ≤ c.val) (hhi : c.val ≤ 126) :
    isPythonSpace c.val = false := by
  simp only [isPythonSpace, Bool.or_eq_false_iff, Bool.and_eq_false_iff, decide_eq_false_iff_not]
  omega

def pyText : Alphabet PyChar where
  code c := c.val
  ofAscii c := Fin.ofNat 0x110000 c.toNat
  isSpace c := isPythonSpace c.val
  code_inj := @PyChar.toNat_inj
  code_ofAscii := PyChar.val_ofNat
  isSpace_newline := @isPythonSpace_newline
  isSpace_visible := @isPythonSpace_visible

def py (s : String) : PyStr := s.toList.map fun c => Fin.ofNat 0x110000 c.toNat

/-- `chr` -/
def PyChar.ofNat (n : Nat) : PyChar := Fin.ofNat 0x110000 n

namespace PyStr

def isBlank (t : PyStr) : Bool := pyText.strip t = []

def isSurrogate (c : PyChar) : Bool := 0xD800 ≤ c.val && c.val < 0xE000

/-- What a text column takes: no NUL, and nothing UTF-8 has no bytes for. -/
def isStorable (t : PyStr) : Bool := t.all fun c => c.val ≠ 0 && !isSurrogate c

def ofUnit (u : UInt16) : PyChar := Fin.ofNat 0x110000 u.toNat

def ofPair (high low : UInt16) : PyChar :=
  Fin.ofNat 0x110000 (0x10000 + (high.toNat - 0xD800) * 0x400 + (low.toNat - 0xDC00))

/-- A text of the host as the backend reads it. -/
def decode : Units → PyStr
  | [] => []
  | [u] => [ofUnit u]
  | u :: v :: rest =>
    if isHighSurrogate u && isLowSurrogate v then ofPair u v :: decode rest
    else ofUnit u :: decode (v :: rest)

def toUnits (c : PyChar) : Units :=
  if c.val < 0x10000 then [c.val.toUInt16]
  else [(0xD800 + (c.val - 0x10000) / 0x400).toUInt16,
    (0xDC00 + (c.val - 0x10000) % 0x400).toUInt16]

def encode (t : PyStr) : Units := t.flatMap toUnits

/-! Reading a text in pieces. -/

/-- A boundary between two pieces goes through a surrogate pair. -/
def splitsPair (a b : Units) : Bool :=
  a.getLast?.any isHighSurrogate && b.head?.any isLowSurrogate

theorem not_low_of_high {u : UInt16} (h : isHighSurrogate u = true) : isLowSurrogate u = false := by
  simp only [isHighSurrogate, isLowSurrogate, Bool.and_eq_true, decide_eq_true_eq,
    Bool.and_eq_false_iff, decide_eq_false_iff_not] at h ⊢
  exact .inl (UInt16.not_le.mpr h.2)

theorem not_high_of_low {u : UInt16} (h : isLowSurrogate u = true) : isHighSurrogate u = false := by
  cases hh : isHighSurrogate u with
  | false => rfl
  | true =>
    rw [not_low_of_high hh] at h
    cases h

theorem decode_cons (u : UInt16) {b : Units} (h : splitsPair [u] b = false) :
    decode (u :: b) = ofUnit u :: decode b := by
  cases b with
  | nil => rfl
  | cons v b =>
    rw [decode, if_neg]
    simpa [splitsPair] using h

theorem splitsPair_cons (u v : UInt16) (a b : Units) :
    splitsPair (u :: v :: a) b = splitsPair (v :: a) b := by
  rw [splitsPair, splitsPair, List.getLast?_cons_cons]

theorem decode_append {a b : Units} (h : splitsPair a b = false) :
    decode (a ++ b) = decode a ++ decode b := by
  induction a using decode.induct with
  | case1 => rfl
  | case2 u => exact decode_cons u h
  | case3 u v a hpair ih =>
    have hrest : splitsPair a b = false := by
      cases a with
      | nil => rfl
      | cons w a =>
        rwa [splitsPair_cons, splitsPair_cons] at h
    rw [List.cons_append, List.cons_append, decode, if_pos hpair, ih hrest, decode, if_pos hpair,
      List.cons_append]
  | case4 u v a hpair ih =>
    rw [splitsPair_cons] at h
    have hb := ih h
    rw [List.cons_append] at hb
    rw [List.cons_append, List.cons_append, decode, if_neg hpair, hb, decode, if_neg hpair,
      List.cons_append]

/-- What is read in two pieces is longer where the boundary goes through a pair. -/
theorem length_decode_append {a b : Units} (h : splitsPair a b = true) :
    (decode (a ++ b)).length + 1 = (decode a).length + (decode b).length := by
  rw [splitsPair, Bool.and_eq_true, Option.any_eq_true, Option.any_eq_true] at h
  obtain ⟨⟨u, hu, hhigh⟩, v, hv, hlow⟩ := h
  obtain ⟨a, rfl⟩ := List.getLast?_eq_some_iff.mp hu
  obtain ⟨b, rfl⟩ := List.head?_eq_some_iff.mp hv
  have ha : ∀ rest, splitsPair a (u :: rest) = false := by
    intro rest
    simp [splitsPair, not_low_of_high hhigh]
  have hb : splitsPair [v] b = false := by simp [splitsPair, not_high_of_low hlow]
  have hjoin : decode (u :: v :: b) = ofPair u v :: decode b := by
    rw [decode, if_pos (by rw [hhigh, hlow]; rfl)]
  rw [List.append_assoc, List.singleton_append, decode_append (ha _), hjoin, decode_append (ha _),
    decode_cons v hb, decode]
  simp only [List.length_append, List.length_cons, List.length_nil]
  omega

theorem length_decode_append_le (a b : Units) :
    (decode (a ++ b)).length ≤ (decode a).length + (decode b).length := by
  cases h : splitsPair a b with
  | false => rw [decode_append h, List.length_append]
  | true => exact Nat.le_of_lt (Nat.lt_of_succ_le (length_decode_append h).le)

theorem length_decode_flatten_le (pieces : List Units) :
    (decode pieces.flatten).length ≤ ((pieces.map decode).flatten).length := by
  induction pieces with
  | nil => exact Nat.le_refl _
  | cons a pieces ih =>
    rw [List.flatten_cons, List.map_cons, List.flatten_cons, List.length_append]
    exact (length_decode_append_le a pieces.flatten).trans (Nat.add_le_add_left ih _)

/-- No boundary of a list of pieces goes through a pair. -/
def PairsWhole (pieces : List Units) : Prop := pieces.IsChain fun a b => splitsPair a b = false

theorem splitsPair_flatten {a b : Units} (hb : b ≠ []) (pieces : List Units) :
    splitsPair a (b :: pieces).flatten = splitsPair a b := by
  cases b with
  | nil => exact absurd rfl hb
  | cons v b => rfl

/-- Pieces that are read one by one give the text, exactly if no boundary goes through a pair. -/
theorem decode_flatten_iff {pieces : List Units} (h : ∀ a ∈ pieces, a ≠ []) :
    (pieces.map decode).flatten = decode pieces.flatten ↔ PairsWhole pieces := by
  induction pieces with
  | nil => exact iff_of_true rfl .nil
  | cons a pieces ih =>
    rw [List.forall_mem_cons] at h
    have hsplit : PairsWhole (a :: pieces) ↔
        splitsPair a pieces.flatten = false ∧ PairsWhole pieces := by
      cases pieces with
      | nil => simp [PairsWhole, splitsPair]
      | cons b pieces =>
        rw [splitsPair_flatten (h.2 b List.mem_cons_self)]
        exact List.isChain_cons_cons
    rw [hsplit, ← ih h.2, List.flatten_cons, List.map_cons, List.flatten_cons]
    cases hs : splitsPair a pieces.flatten with
    | false =>
      rw [decode_append hs, List.append_cancel_left_eq]
      exact (and_iff_right rfl).symm
    | true =>
      refine iff_of_false (fun heq => ?_) fun hh => by cases hh.1
      have hlen := length_decode_append hs
      have hle := length_decode_flatten_le pieces
      rw [← heq, List.length_append] at hlen
      omega

/-! A text of the backend written back in units. -/

theorem toUnits_ofUnit (u : UInt16) : toUnits (ofUnit u) = [u] := by
  have hlt := u.toNat_lt
  have hval : (ofUnit u).val = u.toNat := Nat.mod_eq_of_lt (by omega)
  rw [toUnits, hval, if_pos (by omega), Nat.toUInt16, UInt16.ofNat_toNat]

theorem toUnits_ofPair {u v : UInt16} (hu : isHighSurrogate u = true)
    (hv : isLowSurrogate v = true) : toUnits (ofPair u v) = [u, v] := by
  simp only [isHighSurrogate, isLowSurrogate, Bool.and_eq_true, decide_eq_true_eq,
    UInt16.le_iff_toNat_le, UInt16.lt_iff_toNat_lt] at hu hv
  have hu₁ : 0xD800 ≤ u.toNat := hu.1
  have hu₂ : u.toNat < 0xDC00 := hu.2
  have hv₁ : 0xDC00 ≤ v.toNat := hv.1
  have hv₂ : v.toNat < 0xE000 := hv.2
  have hval : (ofPair u v).val =
      0x10000 + (u.toNat - 0xD800) * 0x400 + (v.toNat - 0xDC00) := Nat.mod_eq_of_lt (by omega)
  have hhigh : 0xD800 + ((ofPair u v).val - 0x10000) / 0x400 = u.toNat := by
    rw [hval]
    omega
  have hlow : 0xDC00 + ((ofPair u v).val - 0x10000) % 0x400 = v.toNat := by
    rw [hval]
    omega
  rw [toUnits, if_neg (by rw [hval]; omega), hhigh, hlow]
  simp

theorem encode_decode (a : Units) : encode (decode a) = a := by
  induction a using decode.induct with
  | case1 => rfl
  | case2 u => rw [decode, encode, List.flatMap_singleton, toUnits_ofUnit]
  | case3 u v a hpair ih =>
    have h := Bool.and_eq_true_iff.mp hpair
    rw [decode, if_pos hpair, encode, List.flatMap_cons, toUnits_ofPair h.1 h.2, ← encode, ih]
    rfl
  | case4 u v a hpair ih =>
    rw [decode, if_neg hpair, encode, List.flatMap_cons, toUnits_ofUnit, ← encode, ih]
    rfl

theorem decode_injective : Function.Injective decode := by
  intro a b h
  rw [← encode_decode a, h, encode_decode]

theorem encode_append (s t : PyStr) : encode (s ++ t) = encode s ++ encode t :=
  List.flatMap_append

theorem encode_decode_flatten (pieces : List Units) :
    encode (pieces.map decode).flatten = pieces.flatten := by
  induction pieces with
  | nil => rfl
  | cons a pieces ih =>
    rw [List.map_cons, List.flatten_cons, encode_append, encode_decode, ih, List.flatten_cons]

/-! Texts of the database. -/

def ofStr (s : Str) : PyStr := s.map fun c => Fin.ofNat 0x110000 c.toNat

/-- A storable text, as the database holds it. -/
def toStr (t : PyStr) : Str := t.map fun c => Char.ofNat c.val

theorem val_ofChar (c : Char) : (Fin.ofNat 0x110000 c.toNat).val = c.toNat := by
  have h : c.toNat < 0x110000 := by
    rcases c.valid with h | h
    · exact Nat.lt_trans h (by decide)
    · exact h.2
  exact Nat.mod_eq_of_lt h

theorem toStr_ofStr (s : Str) : toStr (ofStr s) = s := by
  rw [toStr, ofStr, List.map_map]
  refine (List.map_congr_left fun c _ => ?_).trans (List.map_id s)
  rw [Function.comp_apply, val_ofChar, Char.ofNat_toNat]
  rfl

theorem length_ofStr (s : Str) : (ofStr s).length = s.length := List.length_map _

/-- No character of Lean is half a surrogate pair. -/
theorem isStorable_ofStr (s : Str) : (ofStr s).isStorable = s.all fun c => c.toNat ≠ 0 := by
  rw [isStorable, ofStr, List.all_map]
  congr 1
  funext c
  have hscalar : c.toNat < 0xD800 ∨ 0xDFFF < c.toNat := by
    rcases c.valid with h | h
    · exact .inl h
    · exact .inr h.1
  have hno : isSurrogate (Fin.ofNat 0x110000 c.toNat) = false := by
    simp only [isSurrogate, val_ofChar, Bool.and_eq_false_iff, decide_eq_false_iff_not]
    omega
  rw [Function.comp_apply, val_ofChar, hno, Bool.not_false, Bool.and_true]

theorem ofStr_injective : Function.Injective ofStr := by
  intro s t h
  rw [← toStr_ofStr s, h, toStr_ofStr]

end PyStr

end Eyot
