import Eyot.Data.Datetime
import Eyot.Library.Base64

/-! The cursors of a paged answer: a time and an id as one text, in base64. -/

namespace Eyot

/-- `text.rsplit(sep, 1)`, where both parts are asked for. -/
def rsplit (sep : Str) : Str → Option (Str × Str)
  | [] => none
  | c :: text =>
    match rsplit sep text with
    | some (a, b) => some (c :: a, b)
    | none => if sep.isPrefixOf (c :: text) then some ([], (c :: text).drop sep.length) else none

theorem rsplit_eq_none {sep text : Str} (h : ¬ sep <:+: text) : rsplit sep text = none := by
  induction text with
  | nil => rfl
  | cons c text ih =>
    rw [rsplit, ih fun hin => h (hin.trans (List.suffix_cons c text).isInfix)]
    dsimp only
    rw [if_neg]
    rw [List.isPrefixOf_iff_prefix]
    exact fun hpre => h hpre.isInfix

/-- The last separator is the one that was put in, if none begins behind its first character. -/
theorem rsplit_append {s : Char} {sep : Str} (a : Str) {b : Str}
    (h : ¬ (s :: sep) <:+: sep ++ b) : rsplit (s :: sep) (a ++ s :: sep ++ b) = some (a, b) := by
  induction a with
  | nil =>
    rw [List.nil_append, List.cons_append, rsplit, rsplit_eq_none h]
    dsimp only
    rw [if_pos]
    · rw [← List.cons_append, List.drop_left]
    · rw [List.isPrefixOf_iff_prefix, ← List.cons_append]
      exact List.prefix_append _ _
  | cons c a ih => rw [List.cons_append, List.cons_append, rsplit, ih]

namespace Cursor

def utf8 (text : Str) : List UInt8 := text.flatMap String.utf8EncodeChar

def fromUtf8 (bytes : List UInt8) : Option Str := bytes.toByteArray.utf8Decode?.map Array.toList

theorem fromUtf8_utf8 (text : Str) : fromUtf8 (utf8 text) = some text := by
  rw [fromUtf8, utf8, ← List.utf8Encode, List.utf8Decode?_utf8Encode]
  rfl

def separator : Str := "::".toList

/-- `_encode_cursor` -/
def encodeCursor (createdAt : Datetime) (id : Str) : Str :=
  Base64.encode (utf8 (createdAt.isoformat ++ separator ++ id))

/-- `_decode_cursor`; `none` where it raises. -/
def decodeCursor (cursor : Str) : Option (Datetime × Str) := do
  let bytes ← Base64.decode cursor
  let raw ← fromUtf8 bytes
  let (iso, id) ← rsplit separator raw
  let createdAt ← Datetime.fromisoformat iso
  some (createdAt, id)

theorem decodeCursor_encodeCursor_eq (createdAt : Datetime) (id : Str) :
    decodeCursor (encodeCursor createdAt id) =
      (rsplit separator (createdAt.isoformat ++ separator ++ id)).bind fun parts =>
        (Datetime.fromisoformat parts.1).map fun at' => (at', parts.2) := by
  rw [decodeCursor, encodeCursor, Base64.decode_encode]
  simp only [Option.bind_eq_bind, Option.bind_some, fromUtf8_utf8]
  congr 1
  funext parts
  rw [Option.map_eq_bind]
  rfl

/-- No separator stands in the id, nor across its front. -/
def Bare (id : Str) : Prop := ¬ separator <:+: ':' :: id

instance (id : Str) : Decidable (Bare id) := inferInstanceAs (Decidable (¬ _))

theorem decodeCursor_encodeCursor (createdAt : Datetime) {id : Str} (h : Bare id) :
    decodeCursor (encodeCursor createdAt id) = some (createdAt, id) := by
  have hsplit : rsplit separator (createdAt.isoformat ++ separator ++ id) =
      some (createdAt.isoformat, id) := rsplit_append createdAt.isoformat h
  rw [decodeCursor_encodeCursor_eq, hsplit, Option.bind_some, Datetime.fromisoformat_isoformat]
  rfl

/-! `str` of a time is no cursor. -/

theorem value?_digit {n : Nat} (h : n < 10) : (Base64.value? (digit n)).isSome := by
  have hall : ∀ n : Fin 10, (Base64.value? (digit n.val)).isSome := by decide +kernel
  exact hall ⟨n, h⟩

theorem digit_ne_pad {n : Nat} (h : n < 10) : digit n ≠ '=' := by
  have hall : ∀ n : Fin 10, digit n.val ≠ '=' := by decide
  exact hall ⟨n, h⟩

theorem length_values_digits (w n : Nat) : ((digits w n).filterMap Base64.value?).length = w := by
  induction w generalizing n with
  | zero => rfl
  | succ w ih =>
    obtain ⟨v, hv⟩ := Option.isSome_iff_exists.mp (value?_digit (Nat.mod_lt n (Nat.succ_pos 9)))
    rw [digits, List.filterMap_append, List.length_append, ih, List.filterMap_cons_some hv]
    rfl

theorem pad_notMem_digits (w n : Nat) : '=' ∉ digits w n := by
  induction w generalizing n with
  | zero => exact List.not_mem_nil
  | succ w ih =>
    rw [digits, List.mem_append, not_or, List.mem_singleton]
    exact ⟨ih _, (digit_ne_pad (Nat.mod_lt n (by decide))).symm⟩

theorem length_values_fraction (n : Nat) :
    ((Datetime.fraction n).filterMap Base64.value?).length = if n = 0 then 0 else 6 := by
  rw [Datetime.fraction]
  split
  · rfl
  · rw [List.filterMap_cons_none (by decide), length_values_digits]

theorem pad_notMem_fraction (n : Nat) : '=' ∉ Datetime.fraction n := by
  rw [Datetime.fraction]
  split
  · exact List.not_mem_nil
  · rw [List.mem_cons, not_or]
    exact ⟨by decide, pad_notMem_digits 6 n⟩

/-- The digits, the two hyphens and the plus are characters of the alphabet: 21 of them, or 27 with
a fraction. -/
theorem decodeCursor_str (d : Datetime) : decodeCursor d.str = none := by
  have hdecode : Base64.decode d.str = none := by
    refine Base64.decodeFrom_eq_none ?_ (by decide) ?_
    · simp [Datetime.str, Datetime.text, Datetime.utcOffset, pad_notMem_digits,
        pad_notMem_fraction]
    · have hhyphen : Base64.value? '-' = some 62 := by decide
      have hspace : Base64.value? ' ' = none := by decide
      have hcolon : Base64.value? ':' = none := by decide
      have hoffset : (Datetime.utcOffset.filterMap Base64.value?).length = 5 := by decide
      simp only [Datetime.str, Datetime.text, List.filterMap_append, List.length_append,
        List.filterMap_cons_some hhyphen, List.filterMap_cons_none hspace,
        List.filterMap_cons_none hcolon, List.length_cons, length_values_digits,
        length_values_fraction, hoffset, List.length_nil]
      split <;> decide
  rw [decodeCursor, hdecode]
  rfl

end Cursor

end Eyot
